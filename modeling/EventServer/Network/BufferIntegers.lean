import EventServer.Support.ByteOrder
import EventServer.Network.BufferRegions

/-!
# Integers in a buffer

The functions of `Endian.h`, and the members of `Buffer` that append, peek,
retrieve, read and prepend integers.  The members for 16, 32 and 64 bits differ
in the size of the integer only; those for 8 bits convert nothing.
-/

namespace EventServer.Network

open EventServer.Support

/-! ## Network byte order -/

def hostToNetwork64 (order : ByteOrder) (host64 : ℕ) : ℕ :=
  htobe order 8 host64

def hostToNetwork32 (order : ByteOrder) (host32 : ℕ) : ℕ :=
  htobe order 4 host32

def hostToNetwork16 (order : ByteOrder) (host16 : ℕ) : ℕ :=
  htobe order 2 host16

def networkToHost64 (order : ByteOrder) (net64 : ℕ) : ℕ :=
  betoh order 8 net64

def networkToHost32 (order : ByteOrder) (net32 : ℕ) : ℕ :=
  betoh order 4 net32

def networkToHost16 (order : ByteOrder) (net16 : ℕ) : ℕ :=
  betoh order 2 net16

namespace Buffer

/-! ## The members for one size -/

/-- The object of `size` bytes that is appended or prepended for `x`.  The
converting function takes and returns an unsigned integer. -/
def networkObject (order : ByteOrder) (size : ℕ) (hostToNetwork : ℕ → ℕ)
    (x : ℤ) : List UInt8 :=
  let be := toSigned size (hostToNetwork (toUnsigned size x))
  objectBytes order size be

/-- Copy the first `size` readable bytes into an integer and convert it. -/
def peekNetworkObject (order : ByteOrder) (size : ℕ) (networkToHost : ℕ → ℕ)
    (b : Buffer) : Except Fault ℤ := do
  ensure (size ≤ b.readableBytes) .assertion
  let be := objectValue order (b.peekBytes size)
  return toSigned size (networkToHost (toUnsigned size be))

def appendInt64 (order : ByteOrder) (b : Buffer) (x : ℤ) :
    Except Fault Buffer :=
  b.append (networkObject order 8 (hostToNetwork64 order) x)

def appendInt32 (order : ByteOrder) (b : Buffer) (x : ℤ) :
    Except Fault Buffer :=
  b.append (networkObject order 4 (hostToNetwork32 order) x)

def appendInt16 (order : ByteOrder) (b : Buffer) (x : ℤ) :
    Except Fault Buffer :=
  b.append (networkObject order 2 (hostToNetwork16 order) x)

def appendInt8 (order : ByteOrder) (b : Buffer) (x : ℤ) :
    Except Fault Buffer :=
  b.append (objectBytes order 1 x)

def peekInt64 (order : ByteOrder) (b : Buffer) : Except Fault ℤ :=
  b.peekNetworkObject order 8 (networkToHost64 order)

def peekInt32 (order : ByteOrder) (b : Buffer) : Except Fault ℤ :=
  b.peekNetworkObject order 4 (networkToHost32 order)

def peekInt16 (order : ByteOrder) (b : Buffer) : Except Fault ℤ :=
  b.peekNetworkObject order 2 (networkToHost16 order)

def peekInt8 (b : Buffer) : Except Fault ℤ := do
  ensure (1 ≤ b.readableBytes) .assertion
  return signedValue (b.peekBytes 1)

def retrieveInt64 (b : Buffer) : Except Fault Buffer := b.retrieve 8

def retrieveInt32 (b : Buffer) : Except Fault Buffer := b.retrieve 4

def retrieveInt16 (b : Buffer) : Except Fault Buffer := b.retrieve 2

def retrieveInt8 (b : Buffer) : Except Fault Buffer := b.retrieve 1

def readInt64 (order : ByteOrder) (b : Buffer) :
    Except Fault (Buffer × ℤ) := do
  let result ← b.peekInt64 order
  let b ← b.retrieveInt64
  return (b, result)

def readInt32 (order : ByteOrder) (b : Buffer) :
    Except Fault (Buffer × ℤ) := do
  let result ← b.peekInt32 order
  let b ← b.retrieveInt32
  return (b, result)

def readInt16 (order : ByteOrder) (b : Buffer) :
    Except Fault (Buffer × ℤ) := do
  let result ← b.peekInt16 order
  let b ← b.retrieveInt16
  return (b, result)

def readInt8 (b : Buffer) : Except Fault (Buffer × ℤ) := do
  let result ← b.peekInt8
  let b ← b.retrieveInt8
  return (b, result)

def prependInt64 (order : ByteOrder) (b : Buffer) (x : ℤ) :
    Except Fault Buffer :=
  b.prepend (networkObject order 8 (hostToNetwork64 order) x)

def prependInt32 (order : ByteOrder) (b : Buffer) (x : ℤ) :
    Except Fault Buffer :=
  b.prepend (networkObject order 4 (hostToNetwork32 order) x)

def prependInt16 (order : ByteOrder) (b : Buffer) (x : ℤ) :
    Except Fault Buffer :=
  b.prepend (networkObject order 2 (hostToNetwork16 order) x)

def prependInt8 (order : ByteOrder) (b : Buffer) (x : ℤ) :
    Except Fault Buffer :=
  b.prepend (objectBytes order 1 x)

end Buffer

/-! ## Integers of mixed sizes -/

/-- The integer types that the members exist for. -/
inductive IntType where
  | int8
  | int16
  | int32
  | int64
  deriving DecidableEq, Repr

/-- `sizeof`. -/
def IntType.size : IntType → ℕ
  | .int8 => 1
  | .int16 => 2
  | .int32 => 4
  | .int64 => 8

/-- An integer that its type can hold. -/
structure SizedInt where
  type : IntType
  value : ℤ
  low_le : -256 ^ type.size ≤ 2 * value
  lt_high : 2 * value < 256 ^ type.size

/-- The big-endian bytes of an integer. -/
def SizedInt.bytes (x : SizedInt) : List UInt8 :=
  signedBigEndian x.type.size x.value

@[simp] theorem SizedInt.bytes_length (x : SizedInt) :
    x.bytes.length = x.type.size :=
  signedBigEndian_length _ _

theorem SizedInt.signedValue_bytes (x : SizedInt) :
    signedValue x.bytes = x.value :=
  signedValue_signedBigEndian x.low_le x.lt_high

theorem IntType.size_le (type : IntType) : type.size ≤ 8 := by
  cases type with
  | int8 => decide
  | int16 => decide
  | int32 => decide
  | int64 => decide

namespace Buffer

/-- The member `appendIntN` for the type. -/
def appendInt (order : ByteOrder) (b : Buffer) (x : SizedInt) :
    Except Fault Buffer :=
  match x.type with
  | .int8 => b.appendInt8 order x.value
  | .int16 => b.appendInt16 order x.value
  | .int32 => b.appendInt32 order x.value
  | .int64 => b.appendInt64 order x.value

/-- The member `peekIntN` for the type. -/
def peekInt (order : ByteOrder) (b : Buffer) (type : IntType) :
    Except Fault ℤ :=
  match type with
  | .int8 => b.peekInt8
  | .int16 => b.peekInt16 order
  | .int32 => b.peekInt32 order
  | .int64 => b.peekInt64 order

/-- The member `readIntN` for the type. -/
def readInt (order : ByteOrder) (b : Buffer) (type : IntType) :
    Except Fault (Buffer × ℤ) :=
  match type with
  | .int8 => b.readInt8
  | .int16 => b.readInt16 order
  | .int32 => b.readInt32 order
  | .int64 => b.readInt64 order

/-- The member `prependIntN` for the type. -/
def prependInt (order : ByteOrder) (b : Buffer) (x : SizedInt) :
    Except Fault Buffer :=
  match x.type with
  | .int8 => b.prependInt8 order x.value
  | .int16 => b.prependInt16 order x.value
  | .int32 => b.prependInt32 order x.value
  | .int64 => b.prependInt64 order x.value

/-- Append the integers in order. -/
def appendInts (order : ByteOrder) (b : Buffer) :
    List SizedInt → Except Fault Buffer
  | [] => return b
  | x :: xs => do
      let b ← b.appendInt order x
      b.appendInts order xs

/-- For each type in order, peek an integer and then read it.  The result holds
what was peeked beside what was read. -/
def peekAndReadInts (order : ByteOrder) (b : Buffer) :
    List IntType → Except Fault (Buffer × List (ℤ × ℤ))
  | [] => return (b, [])
  | type :: types => do
      let peeked ← b.peekInt order type
      let (b, read) ← b.readInt order type
      let (b, rest) ← b.peekAndReadInts order types
      return (b, (peeked, read) :: rest)

/-! ## The members as operations on bytes -/

theorem objectBytes_one (order : ByteOrder) (x : ℤ) :
    objectBytes order 1 x = signedBigEndian 1 x := by
  cases order with
  | little => simp [objectBytes, signedBigEndian, bigEndian]
  | big => rfl

theorem appendInt_eq (order : ByteOrder) (b : Buffer) (x : SizedInt) :
    b.appendInt order x = b.append x.bytes := by
  unfold appendInt SizedInt.bytes
  cases x.type with
  | int8 => exact congrArg b.append (objectBytes_one order x.value)
  | int16 => exact congrArg b.append (objectBytes_htobe order 2 x.value)
  | int32 => exact congrArg b.append (objectBytes_htobe order 4 x.value)
  | int64 => exact congrArg b.append (objectBytes_htobe order 8 x.value)

theorem prependInt_eq (order : ByteOrder) (b : Buffer) (x : SizedInt) :
    b.prependInt order x = b.prepend x.bytes := by
  unfold prependInt SizedInt.bytes
  cases x.type with
  | int8 => exact congrArg b.prepend (objectBytes_one order x.value)
  | int16 => exact congrArg b.prepend (objectBytes_htobe order 2 x.value)
  | int32 => exact congrArg b.prepend (objectBytes_htobe order 4 x.value)
  | int64 => exact congrArg b.prepend (objectBytes_htobe order 8 x.value)

theorem readInt_eq (order : ByteOrder) (b : Buffer) (type : IntType) :
    b.readInt order type = (do
      let result ← b.peekInt order type
      let b ← b.retrieve type.size
      return (b, result)) := by
  cases type with
  | int8 => rfl
  | int16 => rfl
  | int32 => rfl
  | int64 => rfl

theorem peekNetworkObject_eq {order : ByteOrder} {b : Buffer} {size : ℕ}
    (hreadable : size ≤ b.readableBytes)
    (hlength : (b.peekBytes size).length = size) :
    b.peekNetworkObject order size (betoh order size) =
      .ok (signedValue (b.peekBytes size)) := by
  have hvalue := toSigned_betoh order (b.peekBytes size)
  rw [hlength] at hvalue
  simp only [peekNetworkObject, ensure_of hreadable, ok_bind, hvalue,
    pure_eq_ok]

theorem peekInt_eq {order : ByteOrder} {b : Buffer} {type : IntType}
    (hreadable : type.size ≤ b.readableBytes)
    (hlength : (b.peekBytes type.size).length = type.size) :
    b.peekInt order type = .ok (signedValue (b.peekBytes type.size)) := by
  cases type with
  | int8 =>
      have hone : 1 ≤ b.readableBytes := hreadable
      simp [peekInt, peekInt8, ensure_of hone, IntType.size]
  | int16 => exact peekNetworkObject_eq hreadable hlength
  | int32 => exact peekNetworkObject_eq hreadable hlength
  | int64 => exact peekNetworkObject_eq hreadable hlength

/-! ## Specifications -/

theorem peekInt_spec (order : ByteOrder) {b : Buffer} (hb : b.Valid)
    {x : SizedInt} {rest : List UInt8} (hcontent : b.content = x.bytes ++ rest) :
    b.peekInt order x.type = .ok x.value := by
  obtain ⟨front, back, h⟩ := hb.exists_regions
  have hlen : x.type.size ≤ b.content.length := by
    rw [hcontent, List.length_append, x.bytes_length]
    omega
  have hpeek : b.peekBytes x.type.size = x.bytes := by
    rw [h.peekBytes_eq hlen, hcontent, ← x.bytes_length, List.take_left]
  have hlength : (b.peekBytes x.type.size).length = x.type.size := by
    rw [hpeek, x.bytes_length]
  rw [peekInt_eq (h.readableBytes_eq ▸ hlen) hlength, hpeek,
    x.signedValue_bytes]

theorem readInt_spec (order : ByteOrder) {b : Buffer} (hb : b.Valid)
    {x : SizedInt} {rest : List UInt8} (hcontent : b.content = x.bytes ++ rest) :
    ∃ b', b.readInt order x.type = .ok (b', x.value) ∧ b'.Valid ∧
      b'.content = rest := by
  obtain ⟨front, back, h⟩ := hb.exists_regions
  have hlen : x.type.size ≤ b.readableBytes := by
    rw [h.readableBytes_eq, hcontent, List.length_append, x.bytes_length]
    omega
  obtain ⟨b', heq, hvalid, hdrop⟩ := retrieve_spec hb hlen
  refine ⟨b', ?_, hvalid, ?_⟩
  · simp [readInt_eq, peekInt_spec order hb hcontent, heq]
  · rw [hdrop, hcontent, ← x.bytes_length, List.drop_left]

theorem prependInt_spec (order : ByteOrder) {b : Buffer} (hb : b.Valid)
    {x : SizedInt} (hlen : x.type.size ≤ b.prependableBytes) :
    Yields (b.prependInt order x) (x.bytes ++ b.content) := by
  rw [prependInt_eq]
  exact prepend_spec hb (x.bytes_length.symm ▸ hlen)

/-- The bytes of a list of integers. -/
def encodeInts (xs : List SizedInt) : List UInt8 := xs.flatMap SizedInt.bytes

@[simp] theorem encodeInts_nil : encodeInts [] = [] := rfl

@[simp] theorem encodeInts_cons (x : SizedInt) (xs : List SizedInt) :
    encodeInts (x :: xs) = x.bytes ++ encodeInts xs := by
  simp [encodeInts]

/-- Moving the readable bytes to the front lowers the writer index, and growing
keeps it. -/
theorem makeSpace_writerIndex_le {b b' : Buffer} (hb : b.Valid) {len : ℕ}
    (h : b.makeSpace len = .ok b') : b'.writerIndex_ ≤ b.writerIndex_ := by
  unfold makeSpace at h
  split at h
  · obtain ⟨v, -, hv⟩ := bind_eq_ok_iff.mp h
    obtain rfl := Except.ok.inj hv
    exact le_refl _
  · obtain ⟨_, hensure, hrest⟩ := bind_eq_ok_iff.mp h
    obtain ⟨-, -, hmoved⟩ := bind_eq_ok_iff.mp hrest
    obtain rfl := Except.ok.inj hmoved
    have hreader := ensure_eq_ok_iff.mp hensure
    obtain ⟨front, back, hregions⟩ := hb.exists_regions
    have hlt := hregions.length_lt
    have hreaderEq := hregions.reader_eq
    have hwriterEq := hregions.writer_eq
    have hadd : sizeAdd kCheapPrepend b.readableBytes =
        kCheapPrepend + b.content.length := by
      rw [hregions.readableBytes_eq]
      exact sizeAdd_eq (by omega)
    simp only [hadd]
    omega

theorem ensureWritableBytes_writerIndex_le {b b' : Buffer} (hb : b.Valid)
    {len : ℕ} (h : b.ensureWritableBytes len = .ok b') :
    b'.writerIndex_ ≤ b.writerIndex_ := by
  unfold ensureWritableBytes at h
  by_cases hshort : b.writableBytes < len
  · simp only [if_pos hshort] at h
    obtain ⟨mid, hmid, hrest⟩ := bind_eq_ok_iff.mp h
    obtain ⟨-, -, hsame⟩ := bind_eq_ok_iff.mp hrest
    rw [← Except.ok.inj hsame]
    exact makeSpace_writerIndex_le hb hmid
  · simp only [if_neg hshort, ok_bind] at h
    obtain ⟨-, -, hsame⟩ := bind_eq_ok_iff.mp h
    rw [← Except.ok.inj hsame]

theorem append_writerIndex_le {b b' : Buffer} (hb : b.Valid)
    {data : List UInt8} (h : b.append data = .ok b') :
    b'.writerIndex_ ≤ b.writerIndex_ + data.length := by
  unfold append hasWritten at h
  obtain ⟨mid, hmid, hrest⟩ := bind_eq_ok_iff.mp h
  obtain ⟨-, -, hwritten⟩ := bind_eq_ok_iff.mp hrest
  obtain rfl := Except.ok.inj hwritten
  have hle := ensureWritableBytes_writerIndex_le hb hmid
  have hmod : sizeAdd (mid.storeAtBeginWrite data).writerIndex_ data.length ≤
      mid.writerIndex_ + data.length := Nat.mod_le _ _
  simp only
  omega

/-- The integers are added at the back, unless the vector would have to exceed
its largest size. -/
theorem appendInts_cases (order : ByteOrder) (xs : List SizedInt)
    {b : Buffer} (hb : b.Valid) :
    (b.appendInts order xs = .error .lengthError ∧
        2 ^ 63 ≤ b.writerIndex_ + (encodeInts xs).length) ∨
      Yields (b.appendInts order xs) (b.content ++ encodeInts xs) := by
  induction xs generalizing b with
  | nil => exact Or.inr ⟨b, rfl, hb, by simp⟩
  | cons x xs ih =>
      have hsize := x.type.size_le
      have hsmall : x.bytes.length < 2 ^ 63 := by
        rw [x.bytes_length]
        omega
      rcases append_cases hb hsmall with
        ⟨hfail, htotal⟩ | ⟨mid, heq, hmid, hcontent⟩
      · refine Or.inl ⟨?_, ?_⟩
        · simp [appendInts, appendInt_eq, hfail]
        · rw [encodeInts_cons, List.length_append]
          omega
      · have hnext : b.appendInts order (x :: xs) =
            mid.appendInts order xs := by
          simp [appendInts, appendInt_eq, heq]
        rw [hnext, encodeInts_cons, ← List.append_assoc, ← hcontent]
        rcases ih hmid with ⟨hfail, htotal⟩ | hyields
        · have hwriter := append_writerIndex_le hb heq
          refine Or.inl ⟨hfail, ?_⟩
          rw [List.length_append]
          omega
        · exact Or.inr hyields

/-- What the integers were encoded to is peeked and read, and nothing else. -/
theorem peekAndReadInts_spec (order : ByteOrder) (xs : List SizedInt)
    {b : Buffer} (hb : b.Valid) {rest : List UInt8}
    (hcontent : b.content = encodeInts xs ++ rest) :
    ∃ b', b.peekAndReadInts order (xs.map SizedInt.type) =
        .ok (b', xs.map fun x => (x.value, x.value)) ∧
      b'.Valid ∧ b'.content = rest := by
  induction xs generalizing b with
  | nil => exact ⟨b, rfl, hb, hcontent⟩
  | cons x xs ih =>
      rw [encodeInts_cons, List.append_assoc] at hcontent
      have hpeek := peekInt_spec order hb hcontent
      obtain ⟨mid, hread, hmid, hmidContent⟩ :=
        readInt_spec order hb hcontent
      obtain ⟨b', hrest, hvalid, hleft⟩ := ih hmid hmidContent
      refine ⟨b', ?_, hvalid, hleft⟩
      simp [peekAndReadInts, hpeek, hread, hrest]

/-! ## The codec -/

/-- On every host, integers of mixed sizes that are appended to a buffer follow
its content as big-endian bytes, and once that content is retrieved they are
peeked and read in order, which empties the buffer.  Appending fails only when
the vector would have to exceed its largest size.  An integer that fits before
the readable bytes is prepended and read without any other effect on the
content. -/
theorem integer_codec (order : ByteOrder) {b : Buffer} (hb : b.Valid) :
    (∀ xs : List SizedInt,
      (b.appendInts order xs = .error .lengthError ∧
        2 ^ 63 ≤ b.writerIndex_ + (encodeInts xs).length) ∨
      ∃ appended, b.appendInts order xs = .ok appended ∧
        appended.content = b.content ++ encodeInts xs ∧
        ∃ retrieved, appended.retrieve b.content.length = .ok retrieved ∧
          ∃ emptied, retrieved.peekAndReadInts order (xs.map SizedInt.type) =
              .ok (emptied, xs.map fun x => (x.value, x.value)) ∧
            emptied.content = []) ∧
    ∀ x : SizedInt, x.type.size ≤ b.prependableBytes →
      ∃ prepended, b.prependInt order x = .ok prepended ∧
        prepended.content = x.bytes ++ b.content ∧
        ∃ read, prepended.readInt order x.type = .ok (read, x.value) ∧
          read.content = b.content := by
  refine ⟨fun xs => ?_, fun x hlen => ?_⟩
  · rcases appendInts_cases order xs hb with
      hfail | ⟨appended, heq, hvalid, hcontent⟩
    · exact Or.inl hfail
    · have hlen : b.content.length ≤ appended.readableBytes := by
        obtain ⟨front, back, h⟩ := hvalid.exists_regions
        rw [h.readableBytes_eq, hcontent, List.length_append]
        omega
      obtain ⟨retrieved, hretrieve, hretrieved, hdrop⟩ :=
        retrieve_spec hvalid hlen
      have hrest : retrieved.content = encodeInts xs ++ [] := by
        rw [hdrop, hcontent, List.drop_left, List.append_nil]
      obtain ⟨emptied, hread, -, hempty⟩ :=
        peekAndReadInts_spec order xs hretrieved hrest
      exact Or.inr ⟨appended, heq, hcontent, retrieved, hretrieve, emptied,
        hread, hempty⟩
  · obtain ⟨prepended, heq, hvalid, hcontent⟩ :=
      prependInt_spec order hb hlen
    obtain ⟨read, hread, -, hrest⟩ := readInt_spec order hvalid
      hcontent
    exact ⟨prepended, heq, hcontent, read, hread, hrest⟩

/-- An integer of 32 bits with the value minus five. -/
def minusFive : SizedInt := ⟨.int32, -5, by decide, by decide⟩

/-- Integers of three widths. -/
def mixedInts : List SizedInt :=
  [minusFive, ⟨.int8, 7, by decide, by decide⟩,
    ⟨.int16, -258, by decide, by decide⟩]

/-- The readable bytes 1, 2 and 3, behind eight prependable ones. -/
def threeBytes : Buffer where
  buffer_ := List.replicate 8 0 ++ [1, 2, 3, 0]
  readerIndex_ := 8
  writerIndex_ := 11

/-- Behind the three bytes there is no room for the integers, so that the
buffer grows.  The negative integer is prepended to them. -/
theorem integer_codec_threeBytes :
    (∃ appended, threeBytes.appendInts .little mixedInts = .ok appended ∧
      appended.content =
        [1, 2, 3, 255, 255, 255, 251, 7, 254, 254] ∧
      ∃ retrieved, appended.retrieve 3 = .ok retrieved ∧
        ∃ emptied, retrieved.peekAndReadInts .little [.int32, .int8, .int16] =
            .ok (emptied, [(-5, -5), (7, 7), (-258, -258)]) ∧
          emptied.content = []) ∧
    ∃ prepended, threeBytes.prependInt .little minusFive = .ok prepended ∧
      prepended.content = [255, 255, 255, 251, 1, 2, 3] ∧
      ∃ read, prepended.readInt .little .int32 = .ok (read, -5) ∧
        read.content = [1, 2, 3] := by
  have hb : threeBytes.Valid := by decide
  have hcontent : threeBytes.content = [1, 2, 3] := by decide
  obtain ⟨hlist, hprepend⟩ := integer_codec .little hb
  constructor
  · have hbytes : encodeInts mixedInts =
        [255, 255, 255, 251, 7, 254, 254] := by decide
    rcases hlist mixedInts with ⟨-, hlarge⟩ | happended
    · exact absurd hlarge (by decide)
    · rw [hcontent, hbytes] at happended
      exact happended
  · have hbytes : minusFive.bytes = [255, 255, 255, 251] := by decide
    have hprepended := hprepend minusFive (by decide)
    rw [hcontent, hbytes] at hprepended
    exact hprepended

end Buffer

end EventServer.Network
