import Mathlib.Tactic

/-!
# Decimal text

The text that `%d` and `%u` print, and the truncation that `snprintf` applies
to it.
-/

namespace EventServer.Support

/-- The text printed by `%u`. -/
def decimal (n : ℕ) : List Char := Nat.toDigits 10 n

/-- The text printed by `%d`. -/
def decimalInt (z : ℤ) : List Char :=
  if z < 0 then '-' :: decimal z.natAbs else decimal z.natAbs

/-- What `snprintf(buf, size, ...)` leaves in `buf` in front of the final NUL,
for the full text `text`. -/
def snprintf (size : ℕ) (text : List Char) : List Char :=
  text.take (size - 1)

theorem decimal_injective : Function.Injective decimal := by
  intro m n h
  have hdigits := congrArg (fun text => Nat.ofDigitChars 10 text 0) h
  simpa [decimal, Nat.ofDigitChars_toDigits] using hdigits

theorem decimal_length_le {n k : ℕ} (hk : 0 < k) (hn : n < 10 ^ k) :
    (decimal n).length ≤ k :=
  (Nat.length_toDigits_le_iff (by decide) hk).mpr hn

theorem decimalInt_natCast (n : ℕ) : decimalInt n = decimal n := by
  simp [decimalInt]

theorem snprintf_of_length_lt {size : ℕ} {text : List Char}
    (h : text.length < size) : snprintf size text = text :=
  List.take_of_length_le (by omega)

theorem snprintf_length_le (size : ℕ) (text : List Char) :
    (snprintf size text).length ≤ text.length := by
  rw [snprintf, List.length_take]
  exact Nat.min_le_right _ _

end EventServer.Support
