import Mathlib.Tactic

/-!
# Big-endian numbers

The bytes of a number, the most significant first, and the number that bytes
spell, without a sign and in two's complement.
-/

namespace EventServer.Support

/-- The lowest `k` bytes of a number. -/
def bigEndian : (k v : ℕ) → List UInt8
  | 0, _ => []
  | k + 1, v => UInt8.ofNat (v / 256 ^ k) :: bigEndian k v

/-- The number that the bytes spell. -/
def bigEndianValue : List UInt8 → ℕ
  | [] => 0
  | b :: bytes => b.toNat * 256 ^ bytes.length + bigEndianValue bytes

/-- The number that the bytes spell in two's complement. -/
def signedValue (bytes : List UInt8) : ℤ :=
  (bigEndianValue bytes : ℤ).bmod (256 ^ bytes.length)

/-- The two's complement of an integer in `k` bytes. -/
def signedBigEndian (k : ℕ) (z : ℤ) : List UInt8 :=
  bigEndian k (z % 256 ^ k).toNat

@[simp] theorem bigEndian_length (k v : ℕ) : (bigEndian k v).length = k := by
  induction k with
  | zero => rfl
  | succ k ih => simp [bigEndian, ih]

@[simp] theorem signedBigEndian_length (k : ℕ) (z : ℤ) :
    (signedBigEndian k z).length = k :=
  bigEndian_length _ _

theorem bigEndianValue_bigEndian (k v : ℕ) :
    bigEndianValue (bigEndian k v) = v % 256 ^ k := by
  induction k with
  | zero => simp [bigEndian, bigEndianValue, Nat.mod_one]
  | succ k ih =>
      have hbyte : (UInt8.ofNat (v / 256 ^ k)).toNat = v / 256 ^ k % 256 := by
        simp
      rw [bigEndian, bigEndianValue, bigEndian_length, ih, hbyte, pow_succ,
        Nat.mod_mul]
      ring

/-- A number that fits into an unsigned integer of `k` bytes reads in two's
complement as its residue around zero. -/
theorem signedValue_bigEndian {k v : ℕ} (hv : v < 256 ^ k) :
    signedValue (bigEndian k v) = (v : ℤ).bmod (256 ^ k) := by
  rw [signedValue, bigEndianValue_bigEndian, bigEndian_length,
    Nat.mod_eq_of_lt hv]

/-- An integer that fits into `k` bytes is read back. -/
theorem signedValue_signedBigEndian {k : ℕ} {z : ℤ}
    (hlow : -256 ^ k ≤ 2 * z) (hhigh : 2 * z < 256 ^ k) :
    signedValue (signedBigEndian k z) = z := by
  have hpos : (0 : ℤ) < 256 ^ k := by positivity
  have hnonneg : 0 ≤ z % 256 ^ k := Int.emod_nonneg z hpos.ne'
  have hlt : z % 256 ^ k < 256 ^ k := Int.emod_lt_of_pos z hpos
  have hnat : (z % 256 ^ k).toNat < 256 ^ k := by
    have hcast : ((z % 256 ^ k).toNat : ℤ) < ((256 ^ k : ℕ) : ℤ) := by
      rw [Int.toNat_of_nonneg hnonneg]
      push_cast
      exact hlt
    exact_mod_cast hcast
  rw [signedBigEndian, signedValue_bigEndian hnat,
    Int.toNat_of_nonneg hnonneg]
  have hmod : z % (256 ^ k : ℤ) = z % ((256 ^ k : ℕ) : ℤ) := by
    push_cast
    rfl
  rw [hmod, Int.emod_bmod]
  apply Int.bmod_eq_of_le_mul_two
  · push_cast
    linarith
  · push_cast
    linarith

end EventServer.Support
