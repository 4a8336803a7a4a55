import Mathlib.Data.Char
import EventServer.Support.Decimal

/-!
# Formats of a fixed width

Texts that `printf` makes of integers with conversions such as `%4d` and
`%02d`.  As long as every number fits into its width, the texts of one format
have the same length, and they are in the order of the lists of numbers that
they show.
-/

namespace EventServer.Support

/-! ## The order of texts -/

section Lists

variable {α : Type*} [LinearOrder α]

theorem append_lt_append_iff {xs ys us vs : List α}
    (h : xs.length = ys.length) :
    xs ++ us < ys ++ vs ↔ xs < ys ∨ xs = ys ∧ us < vs := by
  induction xs generalizing ys with
  | nil =>
      obtain rfl := List.length_eq_zero_iff.mp h.symm
      simp
  | cons x xs ih =>
      cases ys with
      | nil => simp at h
      | cons y ys =>
          have hlength : xs.length = ys.length := by simpa using h
          simp only [List.cons_append, List.cons_lt_cons_iff, ih hlength,
            List.cons.injEq]
          tauto

theorem append_singleton_lt_iff {xs ys : List α} {x y : α}
    (h : xs.length = ys.length) :
    xs ++ [x] < ys ++ [y] ↔ xs < ys ∨ xs = ys ∧ x < y := by
  rw [append_lt_append_iff h]
  simp [List.cons_lt_cons_iff]

end Lists

theorem digitChar_lt {a b : ℕ} (hlt : a < b) (hb : b < 10) :
    a.digitChar < b.digitChar := by
  have hall : ∀ b < 10, ∀ a < b, Nat.digitChar a < Nat.digitChar b := by
    decide
  exact hall b hb a hlt

/-! ## Padded numbers -/

/-- The last `width` characters of a padded number that goes on behind them,
so that a zero is not printed. -/
def leading (fill : Char) : ℕ → ℕ → List Char
  | 0, _ => []
  | width + 1, n =>
      leading fill width (n / 10) ++
        [if n = 0 then fill else (n % 10).digitChar]

theorem leading_length (fill : Char) (width n : ℕ) :
    (leading fill width n).length = width := by
  induction width generalizing n with
  | zero => rfl
  | succ width ih => simp [leading, ih]

theorem leading_zero (fill : Char) (width : ℕ) :
    leading fill width 0 = List.replicate width fill := by
  induction width with
  | zero => rfl
  | succ width ih => simp [leading, ih, List.replicate_succ']

theorem leading_lt {fill : Char} (hfill : fill ≤ '0') {width a b : ℕ}
    (hlt : a < b) (hb : b < 10 ^ width) :
    leading fill width a < leading fill width b := by
  induction width generalizing a b with
  | zero => omega
  | succ width ih =>
      have hlength : (leading fill width (a / 10)).length =
          (leading fill width (b / 10)).length := by
        rw [leading_length, leading_length]
      rw [leading, leading, append_singleton_lt_iff hlength]
      have hb10 : b / 10 < 10 ^ width := by
        rw [pow_succ] at hb
        omega
      rcases Nat.lt_or_ge (a / 10) (b / 10) with hquotient | hquotient
      · exact Or.inl (ih hquotient hb10)
      · have hsame : a / 10 = b / 10 := by omega
        have hb0 : b ≠ 0 := by omega
        refine Or.inr ⟨by rw [hsame], ?_⟩
        rw [if_neg hb0]
        by_cases ha0 : a = 0
        · -- the last digit of `b` is not zero, as those before it are
          have hdigit : (0).digitChar < (b % 10).digitChar :=
            digitChar_lt (by omega) (by omega)
          rw [if_pos ha0]
          exact lt_of_le_of_lt hfill hdigit
        · rw [if_neg ha0]
          exact digitChar_lt (by omega) (by omega)

theorem decimal_of_lt {n : ℕ} (h : n < 10) : decimal n = [n.digitChar] :=
  Nat.toDigits_of_lt_base h

theorem decimal_of_ge {n : ℕ} (h : 10 ≤ n) :
    decimal n = decimal (n / 10) ++ [(n % 10).digitChar] := by
  have hdigit : n % 10 < 10 := Nat.mod_lt _ (by decide)
  have hpos : 0 < n / 10 := by omega
  have happend := Nat.toDigits_append_toDigits (b := 10) (n := n / 10)
    (d := n % 10) (by decide) hpos hdigit
  rw [Nat.toDigits_of_lt_base hdigit, Nat.div_add_mod] at happend
  exact happend.symm

theorem leftpad_append_singleton (fill : Char) (width : ℕ) (xs : List Char)
    (x : Char) :
    List.leftpad (width + 1) fill (xs ++ [x]) =
      List.leftpad width fill xs ++ [x] := by
  simp [List.leftpad, Nat.add_sub_add_right]

theorem leftpad_decimal (fill : Char) {width n : ℕ}
    (h : n < 10 ^ (width + 1)) :
    List.leftpad (width + 1) fill (decimal n) =
      leading fill width (n / 10) ++ [(n % 10).digitChar] := by
  induction width generalizing n with
  | zero =>
      have hn : n < 10 := by simpa using h
      simp [decimal_of_lt hn, leading, List.leftpad, Nat.mod_eq_of_lt hn]
  | succ width ih =>
      rcases Nat.lt_or_ge n 10 with hsmall | hlarge
      · have hzero : n / 10 = 0 := by omega
        rw [decimal_of_lt hsmall, hzero, leading_zero,
          Nat.mod_eq_of_lt hsmall]
        simp [List.leftpad]
      · have hn : n / 10 < 10 ^ (width + 1) := by
          rw [pow_succ] at h
          omega
        have hne : n / 10 ≠ 0 := by omega
        rw [decimal_of_ge hlarge, leftpad_append_singleton, ih hn, leading,
          if_neg hne]

/-! ## Conversions -/

/-- A conversion `%wd`, or `%0wd` where `fill` is `0`, and the text that
follows it in the format. -/
structure Conversion where
  fill : Char
  width : ℕ
  after : List Char

namespace Conversion

variable {c : Conversion} {y z : ℤ}

/-- What the conversion prints.  Zeros go between the sign and the digits. -/
def print (c : Conversion) (z : ℤ) : List Char :=
  if z < 0 ∧ c.fill = '0' then
    '-' :: List.leftpad (c.width - 1) '0' (decimal z.natAbs)
  else List.leftpad c.width c.fill (decimalInt z)

/-- The conversion pads with something that sorts before the digits, and the
number needs no more than its width. -/
structure Fits (c : Conversion) (z : ℤ) : Prop where
  fill_le : c.fill ≤ '0'
  nonneg : 0 ≤ z
  width_pos : 0 < c.width
  lt_pow : z < 10 ^ c.width

theorem Fits.print_eq (h : c.Fits z) :
    c.print z = leading c.fill (c.width - 1) (z.toNat / 10) ++
      [(z.toNat % 10).digitChar] := by
  obtain ⟨n, rfl⟩ := Int.eq_ofNat_of_zero_le h.nonneg
  have hneg : ¬ ((n : ℤ) < 0 ∧ c.fill = '0') := by omega
  have hwidth : c.width - 1 + 1 = c.width := Nat.sub_add_cancel h.width_pos
  have hlt : n < 10 ^ (c.width - 1 + 1) := by
    rw [hwidth]
    exact_mod_cast h.lt_pow
  rw [print, if_neg hneg, decimalInt_natCast, ← hwidth,
    leftpad_decimal c.fill hlt]
  simp

theorem Fits.length_print (h : c.Fits z) : (c.print z).length = c.width := by
  rw [h.print_eq, List.length_append, leading_length, List.length_singleton]
  exact Nat.sub_add_cancel h.width_pos

theorem Fits.print_lt (hy : c.Fits y) (hz : c.Fits z) (hlt : y < z) :
    c.print y < c.print z := by
  rw [hy.print_eq, hz.print_eq]
  have hynonneg := hy.nonneg
  have hnat : y.toNat < z.toNat := by omega
  have hlength : (leading c.fill (c.width - 1) (y.toNat / 10)).length =
      (leading c.fill (c.width - 1) (z.toNat / 10)).length := by
    rw [leading_length, leading_length]
  rw [append_singleton_lt_iff hlength]
  rcases Nat.lt_or_ge (y.toNat / 10) (z.toNat / 10) with hquotient | hquotient
  · refine Or.inl (leading_lt hz.fill_le hquotient ?_)
    have hpow : z.toNat < 10 ^ c.width := by
      have hlt_pow := hz.lt_pow
      zify
      rw [Int.toNat_of_nonneg hz.nonneg]
      exact hlt_pow
    have hwidth : c.width = c.width - 1 + 1 :=
      (Nat.sub_add_cancel hz.width_pos).symm
    rw [hwidth, pow_succ] at hpow
    omega
  · have hsame : y.toNat / 10 = z.toNat / 10 := by omega
    exact Or.inr ⟨by rw [hsame], digitChar_lt (by omega) (by omega)⟩

theorem Fits.print_lt_iff (hy : c.Fits y) (hz : c.Fits z) :
    c.print y < c.print z ↔ y < z := by
  rcases lt_trichotomy y z with hlt | rfl | hgt
  · exact iff_of_true (hy.print_lt hz hlt) hlt
  · exact iff_of_false (lt_irrefl _) (lt_irrefl _)
  · exact iff_of_false (hz.print_lt hy hgt).not_gt hgt.not_gt

theorem Fits.print_inj (hy : c.Fits y) (hz : c.Fits z) :
    c.print y = c.print z ↔ y = z := by
  constructor
  · intro h
    rcases lt_trichotomy y z with hlt | heq | hgt
    · exact absurd h (hy.print_lt hz hlt).ne
    · exact heq
    · exact absurd h (hz.print_lt hy hgt).ne'
  · exact congrArg c.print

end Conversion

/-! ## Reading a number back -/

theorem isDigit_of_mem_decimal {n : ℕ} {x : Char} (h : x ∈ decimal n) :
    x.isDigit :=
  Nat.isDigit_of_mem_toDigits (by decide) (by decide) h

theorem isDigit_of_mem_leftpad {width n : ℕ} {x : Char}
    (h : x ∈ List.leftpad width '0' (decimal n)) : x.isDigit := by
  rw [List.leftpad, List.mem_append] at h
  rcases h with hfill | hdigit
  · rw [(List.mem_replicate.mp hfill).2]
    decide
  · exact isDigit_of_mem_decimal hdigit

theorem ofDigitChars_leftpad (width n : ℕ) :
    Nat.ofDigitChars 10 (List.leftpad width '0' (decimal n)) 0 = n := by
  rw [List.leftpad, Nat.ofDigitChars_append, Nat.ofDigitChars_replicate_zero,
    Nat.mul_zero]
  exact Nat.ofDigitChars_toDigits (by decide) (by decide)

theorem leftpad_decimal_injective (width : ℕ) :
    Function.Injective fun n => List.leftpad width '0' (decimal n) := by
  intro m n h
  have hvalue := congrArg (fun text => Nat.ofDigitChars 10 text 0) h
  simpa only [ofDigitChars_leftpad] using hvalue

/-- A number that may be negative: its sign, and the digits of its absolute
value in some form that can be read back. -/
theorem signed_injective {digits digits' : ℕ → List Char}
    (hdigits : Function.Injective digits)
    (hdigits' : Function.Injective digits')
    (hsign : ∀ n, '-' ∉ digits' n) :
    Function.Injective fun z : ℤ =>
      if z < 0 then '-' :: digits z.natAbs else digits' z.natAbs := by
  intro y z h
  simp only at h
  by_cases hy : y < 0
  · by_cases hz : z < 0
    · rw [if_pos hy, if_pos hz] at h
      have habs := hdigits (List.cons.inj h).2
      omega
    · rw [if_pos hy, if_neg hz] at h
      exact absurd (h ▸ List.mem_cons_self) (hsign z.natAbs)
  · by_cases hz : z < 0
    · rw [if_neg hy, if_pos hz] at h
      exact absurd (h ▸ List.mem_cons_self) (hsign y.natAbs)
    · rw [if_neg hy, if_neg hz] at h
      have habs := hdigits' h
      omega

theorem decimalInt_injective : Function.Injective decimalInt := by
  apply signed_injective decimal_injective decimal_injective
  intro n hmem
  exact absurd (isDigit_of_mem_decimal hmem) (by decide)

theorem Conversion.print_zero (width : ℕ) (after : List Char) (z : ℤ) :
    Conversion.print ⟨'0', width, after⟩ z =
      if z < 0 then '-' :: List.leftpad (width - 1) '0' (decimal z.natAbs)
      else List.leftpad width '0' (decimal z.natAbs) := by
  by_cases hz : z < 0
  · simp [print, hz]
  · simp [print, decimalInt, hz]

/-- The text of `%0wd` determines the number, whether it fits or not. -/
theorem Conversion.print_injective (width : ℕ) (after : List Char) :
    Function.Injective (Conversion.print ⟨'0', width, after⟩) := by
  have hsigned := signed_injective (leftpad_decimal_injective (width - 1))
    (leftpad_decimal_injective width)
    (fun n hmem => absurd (isDigit_of_mem_leftpad hmem) (by decide))
  intro y z h
  rw [print_zero, print_zero] at h
  exact hsigned h

/-! ## Formats -/

/-- The text of a format for a list of numbers. -/
def format : List Conversion → List ℤ → List Char
  | c :: cs, z :: zs => c.print z ++ c.after ++ format cs zs
  | _, _ => []

/-- How many characters a format prints, if all numbers fit. -/
def formatLength : List Conversion → ℕ
  | [] => 0
  | c :: cs => c.width + c.after.length + formatLength cs

variable {cs : List Conversion} {ys zs : List ℤ}

theorem format_length (h : List.Forall₂ Conversion.Fits cs zs) :
    (format cs zs).length = formatLength cs := by
  induction h with
  | nil => rfl
  | cons hfits _ ih =>
      simp [format, formatLength, hfits.length_print, ih, Nat.add_assoc]

/-- The texts are in the order of the lists of numbers. -/
theorem format_lt_iff (hy : List.Forall₂ Conversion.Fits cs ys)
    (hz : List.Forall₂ Conversion.Fits cs zs) :
    format cs ys < format cs zs ↔ ys < zs := by
  induction hy generalizing zs with
  | nil =>
      cases hz
      simp [format]
  | @cons c y cs ys hfits hrest ih =>
      cases hz with
      | @cons _ z _ zs hfits' hrest' =>
          have hprint : (c.print y ++ c.after).length =
              (c.print z ++ c.after).length := by
            simp [hfits.length_print, hfits'.length_print]
          have hsame : (c.print y).length = (c.print z).length := by
            rw [hfits.length_print, hfits'.length_print]
          rw [format, format, append_lt_append_iff hprint,
            append_lt_append_iff hsame, ih hrest', hfits.print_lt_iff hfits',
            List.cons_lt_cons_iff, List.append_left_inj,
            hfits.print_inj hfits']
          simp

end EventServer.Support
