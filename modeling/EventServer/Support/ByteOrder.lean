import EventServer.Support.BigEndian

/-!
# The byte order of the host

How an integer object of `k` bytes lies in memory, and the conversions between
the host's byte order and the big-endian one.  The representation of signed
integers is two's complement.
-/

namespace EventServer.Support

inductive ByteOrder where
  | little
  | big
  deriving DecidableEq, Repr

/-! ## Conversions between signed and unsigned integers -/

/-- The unsigned integer of `k` bytes to which `z` converts. -/
def toUnsigned (k : ℕ) (z : ℤ) : ℕ := (z % 256 ^ k).toNat

/-- The signed integer of `k` bytes to which `v` converts. -/
def toSigned (k v : ℕ) : ℤ := (v : ℤ).bmod (256 ^ k)

theorem toUnsigned_lt (k : ℕ) (z : ℤ) : toUnsigned k z < 256 ^ k := by
  have hpos : (0 : ℤ) < 256 ^ k := by positivity
  have hnonneg : 0 ≤ z % 256 ^ k := Int.emod_nonneg z hpos.ne'
  have hlt : z % 256 ^ k < 256 ^ k := Int.emod_lt_of_pos z hpos
  unfold toUnsigned
  zify
  rwa [Int.toNat_of_nonneg hnonneg]

theorem toUnsigned_toSigned {k v : ℕ} (hv : v < 256 ^ k) :
    toUnsigned k (toSigned k v) = v := by
  have hmod : toSigned k v % ((256 ^ k : ℕ) : ℤ) =
      (v : ℤ) % ((256 ^ k : ℕ) : ℤ) := Int.bmod_emod
  have hself : (v : ℤ) % ((256 ^ k : ℕ) : ℤ) = v :=
    Int.emod_eq_of_lt (by positivity) (by exact_mod_cast hv)
  rw [hself] at hmod
  push_cast at hmod
  rw [toUnsigned, hmod, Int.toNat_natCast]

/-! ## Objects in memory -/

/-- The bytes of the object that holds `z`, from the lowest address on. -/
def objectBytes (order : ByteOrder) (k : ℕ) (z : ℤ) : List UInt8 :=
  match order with
  | .little => (signedBigEndian k z).reverse
  | .big => signedBigEndian k z

/-- What the object with these bytes holds. -/
def objectValue (order : ByteOrder) (bytes : List UInt8) : ℤ :=
  match order with
  | .little => signedValue bytes.reverse
  | .big => signedValue bytes

/-- The unsigned integer of `k` bytes with the bytes of `v` in the opposite
order. -/
def byteSwap (k v : ℕ) : ℕ := bigEndianValue (bigEndian k v).reverse

/-- The functions `htobe16`, `htobe32` and `htobe64`. -/
def htobe (order : ByteOrder) (k v : ℕ) : ℕ :=
  match order with
  | .little => byteSwap k v
  | .big => v

/-- The functions `be16toh`, `be32toh` and `be64toh`. -/
def betoh (order : ByteOrder) (k v : ℕ) : ℕ :=
  match order with
  | .little => byteSwap k v
  | .big => v

@[simp] theorem objectBytes_length (order : ByteOrder) (k : ℕ) (z : ℤ) :
    (objectBytes order k z).length = k := by
  cases order with
  | little => simp [objectBytes]
  | big => simp [objectBytes]

theorem bigEndianValue_lt (bytes : List UInt8) :
    bigEndianValue bytes < 256 ^ bytes.length := by
  induction bytes with
  | nil => simp [bigEndianValue]
  | cons byte bytes ih =>
      have hbyte : byte.toNat + 1 ≤ 256 := byte.toNat_lt
      calc
        bigEndianValue (byte :: bytes)
          < byte.toNat * 256 ^ bytes.length + 256 ^ bytes.length :=
            Nat.add_lt_add_left ih _
        _ = (byte.toNat + 1) * 256 ^ bytes.length := by ring
        _ ≤ 256 * 256 ^ bytes.length := Nat.mul_le_mul_right _ hbyte
        _ = 256 ^ (byte :: bytes).length := by
            rw [List.length_cons, pow_succ']

/-- Only the lowest `k` bytes of a number matter. -/
theorem bigEndian_add_mul (k v c : ℕ) :
    bigEndian k (v + c * 256 ^ k) = bigEndian k v := by
  induction k generalizing c with
  | zero => rfl
  | succ k ih =>
      have hsplit : v + c * 256 ^ (k + 1) = v + (c * 256) * 256 ^ k := by
        rw [pow_succ']
        ring
      have hbyte : UInt8.ofNat ((v + (c * 256) * 256 ^ k) / 256 ^ k) =
          UInt8.ofNat (v / 256 ^ k) := by
        rw [Nat.add_mul_div_right _ _ (by positivity)]
        apply UInt8.toNat_inj.mp
        simp
      rw [bigEndian, bigEndian, hsplit, ih, hbyte]

theorem bigEndian_bigEndianValue (bytes : List UInt8) :
    bigEndian bytes.length (bigEndianValue bytes) = bytes := by
  induction bytes with
  | nil => rfl
  | cons byte bytes ih =>
      have hlt := bigEndianValue_lt bytes
      have hhead : (byte.toNat * 256 ^ bytes.length + bigEndianValue bytes) /
          256 ^ bytes.length = byte.toNat := by
        rw [Nat.add_comm, Nat.add_mul_div_right _ _ (by positivity),
          Nat.div_eq_of_lt hlt, Nat.zero_add]
      rw [List.length_cons, bigEndian, bigEndianValue, hhead,
        Nat.add_comm (byte.toNat * _), bigEndian_add_mul, ih]
      simp

theorem signedBigEndian_eq (k : ℕ) (z : ℤ) :
    signedBigEndian k z = bigEndian k (toUnsigned k z) := rfl

theorem signedValue_eq (bytes : List UInt8) :
    signedValue bytes = toSigned bytes.length (bigEndianValue bytes) := rfl

theorem byteSwap_lt (k v : ℕ) : byteSwap k v < 256 ^ k := by
  simpa [byteSwap] using bigEndianValue_lt (bigEndian k v).reverse

theorem bigEndian_byteSwap (k v : ℕ) :
    bigEndian k (byteSwap k v) = (bigEndian k v).reverse := by
  simpa [byteSwap] using bigEndian_bigEndianValue (bigEndian k v).reverse

theorem toUnsigned_signedValue (bytes : List UInt8) :
    toUnsigned bytes.length (signedValue bytes) = bigEndianValue bytes := by
  rw [signedValue_eq, toUnsigned_toSigned (bigEndianValue_lt bytes)]

theorem byteSwap_bigEndianValue_reverse (bytes : List UInt8) :
    byteSwap bytes.length (bigEndianValue bytes.reverse) =
      bigEndianValue bytes := by
  have h := bigEndian_bigEndianValue bytes.reverse
  rw [List.length_reverse] at h
  rw [byteSwap, h, List.reverse_reverse]

/-! ## Converting there and back -/

theorem byteSwap_byteSwap {k v : ℕ} (hv : v < 256 ^ k) :
    byteSwap k (byteSwap k v) = v := by
  rw [byteSwap, bigEndian_byteSwap, List.reverse_reverse,
    bigEndianValue_bigEndian, Nat.mod_eq_of_lt hv]

theorem htobe_lt (order : ByteOrder) {k v : ℕ} (hv : v < 256 ^ k) :
    htobe order k v < 256 ^ k := by
  cases order with
  | little => exact byteSwap_lt k v
  | big => exact hv

theorem htobe_betoh (order : ByteOrder) {k v : ℕ} (hv : v < 256 ^ k) :
    htobe order k (betoh order k v) = v := by
  cases order with
  | little => exact byteSwap_byteSwap hv
  | big => rfl

theorem betoh_inj (order : ByteOrder) {k v w : ℕ} (hv : v < 256 ^ k)
    (hw : w < 256 ^ k) : betoh order k v = betoh order k w ↔ v = w := by
  constructor
  · intro h
    have hback := congrArg (htobe order k) h
    rwa [htobe_betoh order hv, htobe_betoh order hw] at hback
  · exact congrArg (betoh order k)

theorem betoh_lt (order : ByteOrder) {k v : ℕ} (hv : v < 256 ^ k) :
    betoh order k v < 256 ^ k := by
  cases order with
  | little => exact byteSwap_lt k v
  | big => exact hv

/-! ## Encoding and decoding on any host -/

/-- Storing the converted object puts the big-endian bytes into memory. -/
theorem objectBytes_htobe (order : ByteOrder) (k : ℕ) (z : ℤ) :
    objectBytes order k (toSigned k (htobe order k (toUnsigned k z))) =
      signedBigEndian k z := by
  cases order with
  | little =>
      rw [htobe, objectBytes, signedBigEndian_eq,
        toUnsigned_toSigned (byteSwap_lt _ _), bigEndian_byteSwap,
        List.reverse_reverse, signedBigEndian_eq]
  | big =>
      rw [htobe, objectBytes, signedBigEndian_eq,
        toUnsigned_toSigned (toUnsigned_lt _ _), signedBigEndian_eq]

/-- Converting an object that was copied from memory reads its bytes as a
big-endian number. -/
theorem toSigned_betoh (order : ByteOrder) (bytes : List UInt8) :
    toSigned bytes.length (betoh order bytes.length
      (toUnsigned bytes.length (objectValue order bytes))) =
      signedValue bytes := by
  cases order with
  | little =>
      have h := toUnsigned_signedValue bytes.reverse
      rw [List.length_reverse] at h
      rw [betoh, objectValue, h, byteSwap_bigEndianValue_reverse,
        signedValue_eq]
  | big => rw [betoh, objectValue, toUnsigned_signedValue, signedValue_eq]

end EventServer.Support
