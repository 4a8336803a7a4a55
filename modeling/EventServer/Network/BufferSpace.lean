import EventServer.Support.ByteOrder
import EventServer.Network.BufferRegions

/-!
# Requests for space near the limits of the integer types

`ensureWritableBytes` for every `size_t`, and `shrink`, which copies the
readable bytes through a `StringPiece` whose length is an `int`.

The sums `len + kCheapPrepend` and `writerIndex_ + len` wrap around when `len`
is close to `2 ^ 64`.  The first one then makes a huge request look small, so
that `makeSpace` moves the bytes in place of growing the vector; the second one
makes the vector shorter than the writer index.
-/

namespace EventServer.Network

open EventServer.Support

namespace Buffer

/-! ## What a call leaves behind -/

/-- The order of the indices that the class is drawn with, in a vector that
does not exceed `max_size()`. -/
structure Ordered (b : Buffer) : Prop where
  reader_le : b.readerIndex_ ≤ b.writerIndex_
  writer_le : b.writerIndex_ ≤ b.buffer_.length
  size_le : b.buffer_.length ≤ vectorMaxSize

instance : DecidablePred Ordered := fun b =>
  decidable_of_iff
    (b.readerIndex_ ≤ b.writerIndex_ ∧ b.writerIndex_ ≤ b.buffer_.length ∧
      b.buffer_.length ≤ vectorMaxSize)
    ⟨fun ⟨h₁, h₂, h₃⟩ => ⟨h₁, h₂, h₃⟩, fun ⟨h₁, h₂, h₃⟩ => ⟨h₁, h₂, h₃⟩⟩

theorem Valid.ordered {b : Buffer} (hb : b.Valid) : b.Ordered :=
  ⟨hb.reader_le, hb.writer_le, hb.size_le⟩

theorem Ordered.valid {b : Buffer} (hb : b.Ordered)
    (hcheap : kCheapPrepend ≤ b.buffer_.length) : b.Valid :=
  ⟨hb.reader_le, hb.writer_le, hcheap, hb.size_le⟩

/-- `makeSpace`, with the buffer as the call leaves it, also when it fails. -/
def makeSpaceInPlace (b : Buffer) (len : ℕ) : Except Fault Unit × Buffer :=
  if sizeAdd b.writableBytes b.prependableBytes < sizeAdd len kCheapPrepend
  then
    match vectorResize b.buffer_ (sizeAdd b.writerIndex_ len) with
    | .ok v => (.ok (), { b with buffer_ := v })
    -- `resize` has no effect when it throws
    | .error fault => (.error fault, b)
  else if kCheapPrepend < b.readerIndex_
  then
    let readable := b.readableBytes
    let moved : Buffer :=
      { buffer_ := overwrite b.buffer_ kCheapPrepend (b.peekBytes readable)
        readerIndex_ := kCheapPrepend
        writerIndex_ := sizeAdd kCheapPrepend readable }
    (ensure (readable = moved.readableBytes) .assertion, moved)
  else (.error .assertion, b)

/-- `ensureWritableBytes`, with the buffer as the call leaves it. -/
def ensureWritableBytesInPlace (b : Buffer) (len : ℕ) :
    Except Fault Unit × Buffer :=
  match if b.writableBytes < len then b.makeSpaceInPlace len else (.ok (), b)
  with
  | (.ok (), b) => (ensure (len ≤ b.writableBytes) .assertion, b)
  | (.error fault, b) => (.error fault, b)

theorem makeSpace_eq_inPlace (b : Buffer) (len : ℕ) :
    b.makeSpace len =
      (b.makeSpaceInPlace len).1.map fun _ => (b.makeSpaceInPlace len).2 := by
  unfold makeSpace makeSpaceInPlace
  split
  · cases vectorResize b.buffer_ (sizeAdd b.writerIndex_ len) with
    | ok v => rfl
    | error fault => rfl
  · by_cases hreader : kCheapPrepend < b.readerIndex_
    · simp only [ensure_of hreader, if_pos hreader, ok_bind]
      unfold ensure
      split
      · rfl
      · rfl
    · simp only [ensure, if_neg hreader]
      rfl

/-- The version of `ensureWritableBytes` that the other operations use reports
the buffer of a successful call. -/
theorem ensureWritableBytes_eq_inPlace (b : Buffer) (len : ℕ) :
    b.ensureWritableBytes len =
      (b.ensureWritableBytesInPlace len).1.map fun _ =>
        (b.ensureWritableBytesInPlace len).2 := by
  have hfinal : ∀ b' : Buffer,
      (do
        ensure (len ≤ b'.writableBytes) .assertion
        return b') =
      (ensure (len ≤ b'.writableBytes) .assertion).map fun _ => b' := by
    intro b'
    unfold ensure
    split
    · rfl
    · rfl
  unfold ensureWritableBytes ensureWritableBytesInPlace
  by_cases hshort : b.writableBytes < len
  · simp only [if_pos hshort, makeSpace_eq_inPlace]
    rcases b.makeSpaceInPlace len with ⟨_ | _, b'⟩
    · rfl
    · exact hfinal b'
  · simp only [if_neg hshort]
    exact hfinal b

/-- A call for `len` bytes is safe: it returns with enough room, ordered
indices and the same readable bytes, or the vector refuses a size above
`max_size()` and the buffer is the one before. -/
def SpaceSafe (b : Buffer) (len : ℕ) : Prop :=
  match b.ensureWritableBytesInPlace len with
  | (.ok (), b') =>
      len ≤ b'.writableBytes ∧ b'.Ordered ∧ b'.content = b.content
  | (.error fault, b') =>
      fault = .lengthError ∧ vectorMaxSize < b.writerIndex_ + len ∧ b' = b

theorem spaceSafe_of_makesRoom {b : Buffer} {len : ℕ}
    (h : MakesRoom (b.ensureWritableBytes len) b.content len) :
    b.SpaceSafe len := by
  obtain ⟨b', heq, hvalid, hcontent, hroom⟩ := h
  rw [ensureWritableBytes_eq_inPlace] at heq
  unfold SpaceSafe
  rcases hresult : b.ensureWritableBytesInPlace len with ⟨_ | _, left⟩
  · rw [hresult] at heq
    cases heq
  · rw [hresult] at heq
    obtain rfl : left = b' := Except.ok.inj heq
    exact ⟨hroom, hvalid.ordered, hcontent⟩

/-! ## The branches of a call -/

theorem Ordered.writableBytes_eq {b : Buffer} (hb : b.Ordered) :
    b.writableBytes = b.buffer_.length - b.writerIndex_ := by
  have hsize := hb.size_le
  unfold vectorMaxSize at hsize
  exact sizeSub_eq hb.writer_le (by omega)

theorem Ordered.readableBytes_eq {b : Buffer} (hb : b.Ordered) :
    b.readableBytes = b.writerIndex_ - b.readerIndex_ := by
  have hwriter := hb.writer_le
  have hsize := hb.size_le
  unfold vectorMaxSize at hsize
  exact sizeSub_eq hb.reader_le (by omega)

theorem Ordered.content_length {b : Buffer} (hb : b.Ordered) :
    b.content.length = b.readableBytes := by
  have hwriter := hb.writer_le
  rw [hb.readableBytes_eq, content, List.length_take, List.length_drop]
  omega

theorem Ordered.free_eq {b : Buffer} (hb : b.Ordered) :
    sizeAdd b.writableBytes b.prependableBytes =
      b.writableBytes + b.prependableBytes := by
  have hreader := hb.reader_le
  have hwriter := hb.writer_le
  have hsize := hb.size_le
  have hwritable := hb.writableBytes_eq
  unfold vectorMaxSize at hsize
  unfold prependableBytes
  exact sizeAdd_eq (by omega)

theorem spaceSafe_of_enough {b : Buffer} (hb : b.Ordered) {len : ℕ}
    (henough : len ≤ b.writableBytes) : b.SpaceSafe len := by
  have hresult : b.ensureWritableBytesInPlace len = (.ok (), b) := by
    simp [ensureWritableBytesInPlace, not_lt.mpr henough, ensure_of henough]
  simp only [SpaceSafe, hresult]
  exact ⟨henough, hb, trivial⟩

/-- The buffer whose vector has the given size. -/
def resized (b : Buffer) (size : ℕ) : Buffer :=
  { b with buffer_ := b.buffer_.take size ++
      List.replicate (size - b.buffer_.length) 0 }

theorem resized_length (b : Buffer) (size : ℕ) :
    (b.resized size).buffer_.length = size := by
  simp only [resized, List.length_append, List.length_take,
    List.length_replicate]
  omega

@[simp] theorem resized_writerIndex (b : Buffer) (size : ℕ) :
    (b.resized size).writerIndex_ = b.writerIndex_ := rfl

theorem not_ordered_resized {b : Buffer} {size : ℕ}
    (hcut : size < b.writerIndex_) : ¬ (b.resized size).Ordered := by
  intro hordered
  have hwriter := hordered.writer_le
  rw [resized_length, resized_writerIndex] at hwriter
  omega

theorem Ordered.resized {b : Buffer} (hb : b.Ordered) {size : ℕ}
    (hwriter : b.writerIndex_ ≤ size) (hmax : size ≤ vectorMaxSize) :
    (b.resized size).Ordered where
  reader_le := hb.reader_le
  writer_le := hwriter.trans (resized_length b size).ge
  size_le := (resized_length b size).trans_le hmax

theorem Ordered.content_resized {b : Buffer} (hb : b.Ordered) {size : ℕ}
    (hsize : b.buffer_.length ≤ size) :
    (b.resized size).content = b.content := by
  have hreader := hb.reader_le
  have hwriter := hb.writer_le
  have hdrop : b.readerIndex_ ≤ b.buffer_.length := by omega
  have hfits : b.writerIndex_ - b.readerIndex_ ≤
      (b.buffer_.drop b.readerIndex_).length := by
    rw [List.length_drop]
    omega
  simp only [content, Buffer.resized, List.take_of_length_le hsize,
    List.drop_append_of_le_length hdrop, List.take_append_of_le_length hfits]

/-- The call resizes the vector, and then has room. -/
theorem ensureWritableBytesInPlace_resized {b : Buffer} (hb : b.Ordered)
    {len size : ℕ} (hshort : b.writableBytes < len)
    (hgrow : b.writableBytes + b.prependableBytes < sizeAdd len kCheapPrepend)
    (hsize : sizeAdd b.writerIndex_ len = size) (hmax : size ≤ vectorMaxSize)
    (hroom : len ≤ (b.resized size).writableBytes) :
    b.ensureWritableBytesInPlace len = (.ok (), b.resized size) := by
  rw [← hb.free_eq] at hgrow
  have hresize : vectorResize b.buffer_ size =
      .ok (b.resized size).buffer_ :=
    if_pos hmax
  simp only [ensureWritableBytesInPlace, if_pos hshort, makeSpaceInPlace,
    if_pos hgrow, hsize, hresize]
  exact congrArg (Prod.mk · (b.resized size)) (ensure_of hroom)

/-- The vector grows, or it refuses the size. -/
theorem spaceSafe_of_grow {b : Buffer} (hb : b.Ordered) {len : ℕ}
    (hshort : b.writableBytes < len)
    (hgrow : b.writableBytes + b.prependableBytes < sizeAdd len kCheapPrepend)
    (hsum : b.writerIndex_ + len < 2 ^ 64) : b.SpaceSafe len := by
  have hwritable := hb.writableBytes_eq
  have hsize : sizeAdd b.writerIndex_ len = b.writerIndex_ + len :=
    sizeAdd_eq hsum
  by_cases hmax : b.writerIndex_ + len ≤ vectorMaxSize
  · have hordered := hb.resized (Nat.le_add_right b.writerIndex_ len) hmax
    have hroom : len ≤ (b.resized (b.writerIndex_ + len)).writableBytes := by
      rw [hordered.writableBytes_eq, resized_length]
      exact (Nat.add_sub_cancel_left b.writerIndex_ len).ge
    have hcontent : (b.resized (b.writerIndex_ + len)).content = b.content :=
      hb.content_resized (by omega)
    have hresult :=
      ensureWritableBytesInPlace_resized hb hshort hgrow hsize hmax hroom
    simp only [SpaceSafe, hresult]
    exact ⟨hroom, hordered, hcontent⟩
  · rw [← hb.free_eq] at hgrow
    have hresult : b.ensureWritableBytesInPlace len =
        (.error .lengthError, b) := by
      simp [ensureWritableBytesInPlace, hshort, makeSpaceInPlace, hgrow, hsize,
        vectorResize, hmax]
    simp only [SpaceSafe, hresult]
    exact ⟨trivial, not_le.mp hmax, trivial⟩

/-- When the new size wraps around, the vector is cut off below the writer
index, and the assertion at the end does not notice. -/
theorem not_spaceSafe_of_wrap {b : Buffer} (hb : b.Ordered) {len : ℕ}
    (hlen : len < 2 ^ 64) (hshort : b.writableBytes < len)
    (hgrow : b.writableBytes + b.prependableBytes < sizeAdd len kCheapPrepend)
    (hsum : 2 ^ 64 ≤ b.writerIndex_ + len) : ¬ b.SpaceSafe len := by
  have hwriter := hb.writer_le
  have hmax := hb.size_le
  have hsize : sizeAdd b.writerIndex_ len = b.writerIndex_ + len - 2 ^ 64 := by
    unfold sizeAdd vectorMaxSize at *
    omega
  have hroom : len ≤
      (b.resized (b.writerIndex_ + len - 2 ^ 64)).writableBytes := by
    rw [writableBytes, resized_length, resized_writerIndex]
    unfold sizeSub vectorMaxSize at *
    omega
  have hresult := ensureWritableBytesInPlace_resized hb hshort hgrow hsize
    (by omega) hroom
  intro hsafe
  simp only [SpaceSafe, hresult] at hsafe
  exact not_ordered_resized (by omega) hsafe.2.1

theorem spaceSafe_iff_of_grow {b : Buffer} (hb : b.Ordered) {len : ℕ}
    (hlen : len < 2 ^ 64) (hshort : b.writableBytes < len)
    (hgrow : b.writableBytes + b.prependableBytes <
      sizeAdd len kCheapPrepend) :
    b.SpaceSafe len ↔ b.writerIndex_ + len < 2 ^ 64 := by
  refine ⟨fun hsafe => ?_, spaceSafe_of_grow hb hshort hgrow⟩
  by_contra htotal
  exact not_spaceSafe_of_wrap hb hlen hshort hgrow (by omega) hsafe

/-- The readable bytes are moved to the front. -/
theorem spaceSafe_of_move {b : Buffer} (hb : b.Ordered) {len : ℕ}
    (hshort : b.writableBytes < len) (hsum : len + kCheapPrepend < 2 ^ 64)
    (hmove : len + kCheapPrepend ≤ b.writableBytes + b.prependableBytes) :
    b.SpaceSafe len := by
  have hreader := hb.reader_le
  have hwriter := hb.writer_le
  have hwritable := hb.writableBytes_eq
  have hprependable : b.prependableBytes = b.readerIndex_ := rfl
  have hvalid : b.Valid := hb.valid (by omega)
  have hbranch : ¬ sizeAdd b.writableBytes b.prependableBytes <
      sizeAdd len kCheapPrepend := by
    rw [hb.free_eq, sizeAdd_eq hsum]
    omega
  obtain ⟨b', heq, hmoved, hcontent, hfree⟩ :=
    makeSpace_move_spec hvalid hbranch (by omega)
  have hroom : len ≤ b'.writableBytes := by omega
  apply spaceSafe_of_makesRoom
  refine ⟨b', ?_, hmoved, hcontent, hroom⟩
  simp [ensureWritableBytes, hshort, heq, ensure_of hroom]

/-- When the sum with `kCheapPrepend` wraps around, the request looks small,
and one of the assertions fails. -/
theorem not_spaceSafe_of_move {b : Buffer} (hb : b.Ordered) {len : ℕ}
    (hlen : len < 2 ^ 64) (hshort : b.writableBytes < len)
    (hsum : 2 ^ 64 ≤ len + kCheapPrepend)
    (hmove : len + kCheapPrepend - 2 ^ 64 ≤
      b.writableBytes + b.prependableBytes) : ¬ b.SpaceSafe len := by
  have hreader := hb.reader_le
  have hwriter := hb.writer_le
  have hbranch : ¬ sizeAdd b.writableBytes b.prependableBytes <
      sizeAdd len kCheapPrepend := by
    have hwrap : sizeAdd len kCheapPrepend = len + kCheapPrepend - 2 ^ 64 := by
      unfold sizeAdd kCheapPrepend at *
      omega
    rw [hb.free_eq, hwrap]
    omega
  have hassertion : b.ensureWritableBytes len = .error .assertion := by
    by_cases hfront : kCheapPrepend < b.readerIndex_
    · have hvalid : b.Valid := hb.valid (by omega)
      obtain ⟨b', heq, hmoved, -, -⟩ :=
        makeSpace_move_spec hvalid hbranch hfront
      have hshortAfter : ¬ len ≤ b'.writableBytes := by
        have hsize := hmoved.size_le
        rw [hmoved.ordered.writableBytes_eq]
        unfold kCheapPrepend at hsum
        unfold vectorMaxSize at hsize
        omega
      simp [ensureWritableBytes, hshort, heq, ensure, hshortAfter]
    · simp [ensureWritableBytes, hshort, makeSpace, hbranch, ensure, hfront]
  intro hsafe
  rw [ensureWritableBytes_eq_inPlace] at hassertion
  unfold SpaceSafe at hsafe
  rcases hresult : b.ensureWritableBytesInPlace len with ⟨fault | _, left⟩
  · rw [hresult] at hassertion hsafe
    have hfault : fault = .assertion := Except.error.inj hassertion
    rw [hfault] at hsafe
    exact absurd hsafe.1 (by decide)
  · rw [hresult] at hassertion
    cases hassertion

/-! ## Every request -/

/-- A request is safe if and only if it fits already, or neither of the two
sums misleads `makeSpace`: the new size of the vector does not wrap around, and
the sum with `kCheapPrepend` does not wrap around either, or is above the free
space even so. -/
theorem spaceSafe_iff {b : Buffer} (hb : b.Ordered) {len : ℕ}
    (hlen : len < 2 ^ 64) :
    b.SpaceSafe len ↔
      len ≤ b.writableBytes ∨
        (b.writerIndex_ + len < 2 ^ 64 ∧
          (len + kCheapPrepend < 2 ^ 64 ∨
            b.writableBytes + b.prependableBytes <
              len + kCheapPrepend - 2 ^ 64)) := by
  by_cases hshort : b.writableBytes < len
  · have hnot : ¬ len ≤ b.writableBytes := by omega
    simp only [hnot, false_or]
    by_cases hsum : len + kCheapPrepend < 2 ^ 64
    · have hneed : sizeAdd len kCheapPrepend = len + kCheapPrepend :=
        sizeAdd_eq hsum
      simp only [hsum, true_or, and_true]
      by_cases hmove : len + kCheapPrepend ≤
          b.writableBytes + b.prependableBytes
      · have hsize := hb.size_le
        have hreader := hb.reader_le
        have hwriter := hb.writer_le
        have hwritable := hb.writableBytes_eq
        have hprependable : b.prependableBytes = b.readerIndex_ := rfl
        unfold vectorMaxSize at hsize
        have htotal : b.writerIndex_ + len < 2 ^ 64 := by omega
        exact iff_of_true (spaceSafe_of_move hb hshort hsum hmove) htotal
      · have hgrow : b.writableBytes + b.prependableBytes <
            sizeAdd len kCheapPrepend := by omega
        exact spaceSafe_iff_of_grow hb hlen hshort hgrow
    · have hneed : sizeAdd len kCheapPrepend =
          len + kCheapPrepend - 2 ^ 64 := by
        unfold sizeAdd kCheapPrepend at *
        omega
      simp only [hsum, false_or]
      by_cases hgrow : b.writableBytes + b.prependableBytes <
          len + kCheapPrepend - 2 ^ 64
      · simp only [hgrow, and_true]
        rw [← hneed] at hgrow
        exact spaceSafe_iff_of_grow hb hlen hshort hgrow
      · simp only [hgrow, and_false, iff_false]
        exact not_spaceSafe_of_move hb hlen hshort (by omega) (by omega)
  · have henough : len ≤ b.writableBytes := by omega
    exact iff_of_true (spaceSafe_of_enough hb henough) (Or.inl henough)

/-- A fresh buffer grows. -/
theorem spaceSafe_fresh : (fresh 16).SpaceSafe 100 :=
  (spaceSafe_iff (by decide) (by decide)).mpr (Or.inr (by decide))

/-- Twelve readable bytes, and room for four more. -/
def nearlyFull : Buffer := ⟨List.replicate 24 0, 8, 20⟩

/-- A request of `2 ^ 64 - 10` bytes leaves a vector of ten bytes with the
writer index at 20. -/
theorem nearlyFull_not_spaceSafe :
    nearlyFull.Ordered ∧ ¬ nearlyFull.SpaceSafe (2 ^ 64 - 10) ∧
      nearlyFull.ensureWritableBytes (2 ^ 64 - 10) =
        .ok ⟨List.replicate 10 0, 8, 20⟩ := by
  have hb : nearlyFull.Ordered := by decide
  refine ⟨hb, ?_, by decide⟩
  exact not_spaceSafe_of_wrap hb (by decide) (by decide) (by decide) (by decide)

/-! ## Shrinking -/

/-- The memory from `ptr_` to the end of the vector that it points into, and
the length, which is an `int`. -/
structure StringPiece where
  ptr_ : List UInt8
  length_ : ℤ

def StringPiece.data (str : StringPiece) : List UInt8 := str.ptr_

def StringPiece.size (str : StringPiece) : ℤ := str.length_

def toStringPiece (b : Buffer) : StringPiece :=
  ⟨b.buffer_.drop b.readerIndex_, wrapInt b.readableBytes⟩

/-- `append(const char* data, size_t len)`, for memory that may hold more or
fewer than `len` bytes. -/
def appendData (b : Buffer) (data : List UInt8) (len : ℕ) :
    Except Fault Buffer := do
  let b ← b.ensureWritableBytes len
  -- the copy would read past the end of the memory
  ensure (len ≤ data.length) .outOfRange
  (b.storeAtBeginWrite (data.take len)).hasWritten len

/-- `append(const StringPiece& str)`, where the size converts to `size_t`. -/
def appendStringPiece (b : Buffer) (str : StringPiece) : Except Fault Buffer :=
  b.appendData str.data (toUnsigned 8 str.size)

def shrink (b : Buffer) (reserve : ℕ) : Except Fault Buffer := do
  let other ← create kInitialSize
  let other ← other.ensureWritableBytes (sizeAdd b.readableBytes reserve)
  let other ← other.appendStringPiece b.toStringPiece
  return (b.swap other).1

theorem StringPiece.size_mk (ptr : List UInt8) (length : ℤ) :
    StringPiece.size ⟨ptr, length⟩ = length := rfl

theorem toStringPiece_size (b : Buffer) :
    b.toStringPiece.size = wrapInt b.readableBytes := by
  rw [toStringPiece, StringPiece.size_mk]

theorem appendData_of_le {b : Buffer} {data : List UInt8} {len : ℕ}
    (hlen : len ≤ data.length) :
    b.appendData data len = b.append (data.take len) := by
  have htake : (data.take len).length = len := List.length_take_of_le hlen
  simp only [appendData, append, ensure_of hlen, htake, ok_bind]

/-- Nothing is appended successfully that is longer than the memory. -/
theorem appendData_ne_ok {b b' : Buffer} {data : List UInt8} {len : ℕ}
    (hlen : data.length < len) : b.appendData data len ≠ .ok b' := by
  intro h
  obtain ⟨mid, -, hrest⟩ := bind_eq_ok_iff.mp h
  obtain ⟨_, hensure, -⟩ := bind_eq_ok_iff.mp hrest
  have hfits := ensure_eq_ok_iff.mp hensure
  omega

/-- Appending within the writable space uses up as much of it. -/
theorem append_within {b : Buffer} (hb : b.Valid) {data : List UInt8}
    {reserve : ℕ} (hroom : data.length + reserve ≤ b.writableBytes) :
    MakesRoom (b.append data) (b.content ++ data) reserve := by
  obtain ⟨front, back, h⟩ := hb.exists_regions
  have hlength := h.length_lt
  have hwriter := h.writer_eq
  have hwritable := h.writableBytes_eq
  have hshort : ¬ b.writableBytes < data.length := by omega
  have henough : data.length ≤ b.writableBytes := by omega
  have hstored := h.storeAtBeginWrite (hwritable ▸ henough)
  have hwritten : data.length ≤ (b.storeAtBeginWrite data).writableBytes := by
    rw [hstored.writableBytes_eq, List.length_append]
    omega
  have hadd : sizeAdd (b.storeAtBeginWrite data).writerIndex_ data.length =
      (b.storeAtBeginWrite data).writerIndex_ + data.length := by
    rw [hstored.writer_eq]
    exact sizeAdd_eq (by omega)
  have hnext := hstored.advanceWriter hadd
  refine ⟨_, ?_, hnext.valid, hnext.content_eq, ?_⟩
  · simp [append, ensureWritableBytes, hshort, ensure_of henough, hasWritten,
      ensure_of hwritten]
  · rw [hnext.writableBytes_eq, List.length_drop]
    omega

theorem swap_fst (b rhs : Buffer) : (b.swap rhs).1 = rhs := rfl

/-- What `shrink` does after it has made room in a new buffer. -/
theorem exists_shrink_eq {b : Buffer} {reserve : ℕ}
    (hmemory : kCheapPrepend + (b.readableBytes + reserve) ≤ vectorMaxSize) :
    ∃ other : Buffer, other.Valid ∧ other.content = [] ∧
      b.readableBytes + reserve ≤ other.writableBytes ∧
      b.shrink reserve = other.appendStringPiece b.toStringPiece := by
  unfold kCheapPrepend vectorMaxSize at hmemory
  have hcreate : create kInitialSize = .ok (fresh kInitialSize) :=
    create_eq_fresh (by decide)
  have hfresh : (fresh kInitialSize).Regions (List.replicate kCheapPrepend 0)
      [] (List.replicate kInitialSize 0) := fresh_regions (by decide)
  have hadd : sizeAdd b.readableBytes reserve = b.readableBytes + reserve :=
    sizeAdd_eq (by omega)
  have htotal : (fresh kInitialSize).writerIndex_ +
      (b.readableBytes + reserve) < 2 ^ 63 := by
    have hwriter : (fresh kInitialSize).writerIndex_ = kCheapPrepend := rfl
    rw [hwriter, kCheapPrepend]
    omega
  obtain ⟨other, heq, hvalid, hcontent, hroom⟩ :=
    ensureWritableBytes_spec hfresh.valid htotal
  rw [hfresh.content_eq] at hcontent
  refine ⟨other, hvalid, hcontent, hroom, ?_⟩
  rw [shrink, hcreate, ok_bind, hadd, heq, ok_bind]
  simp only [swap_fst, bind_pure]

/-- The size of the `StringPiece`, as `append` sees it, is the number of
readable bytes only if that number is an `int`. -/
theorem toUnsigned_wrapInt_iff {n : ℕ} (hn : n < 2 ^ 63) :
    toUnsigned 8 (wrapInt n) = n ↔ n < 2 ^ 31 := by
  refine ⟨fun h => ?_, fun hsmall => ?_⟩
  · have hlow : -(2 ^ 31 : ℤ) ≤ wrapInt n := by
      have h := Int.le_bmod (x := n) (m := 2 ^ 32) (by decide)
      unfold wrapInt
      omega
    have hhigh : wrapInt n < (2 ^ 31 : ℤ) := by
      have h := Int.bmod_lt (x := n) (m := 2 ^ 32) (by decide)
      unfold wrapInt
      omega
    unfold toUnsigned at h
    omega
  · rw [wrapInt_eq (by omega) (by omega), toUnsigned]
    omega

theorem Ordered.readableBytes_le_data {b : Buffer} (hb : b.Ordered) :
    b.readableBytes ≤ b.toStringPiece.data.length := by
  have hwriter := hb.writer_le
  rw [hb.readableBytes_eq]
  simp only [toStringPiece, StringPiece.data, List.length_drop]
  omega

theorem shrink_preserves {b : Buffer} (hb : b.Ordered) {reserve : ℕ}
    (hmemory : kCheapPrepend + (b.readableBytes + reserve) ≤ vectorMaxSize)
    (hint : b.readableBytes < 2 ^ 31) :
    MakesRoom (b.shrink reserve) b.content reserve := by
  obtain ⟨other, hvalid, hempty, hroom, hshrink⟩ := exists_shrink_eq hmemory
  have hexact := (toUnsigned_wrapInt_iff (by omega)).mpr hint
  have hpiece : b.toStringPiece.data.take b.readableBytes = b.content := by
    rw [hb.readableBytes_eq]
    rfl
  have hpieceRoom : b.content.length + reserve ≤ other.writableBytes := by
    rw [hb.content_length]
    exact hroom
  rw [hshrink, appendStringPiece, toStringPiece_size, hexact,
    appendData_of_le hb.readableBytes_le_data, hpiece]
  simpa only [hempty, List.nil_append] using append_within hvalid hpieceRoom

/-- If the content survives, then the `StringPiece` had all of it. -/
theorem isInt_of_shrink_preserves {b : Buffer} (hb : b.Ordered) {reserve : ℕ}
    (hmemory : kCheapPrepend + (b.readableBytes + reserve) ≤ vectorMaxSize)
    (hkeeps : MakesRoom (b.shrink reserve) b.content reserve) :
    b.readableBytes < 2 ^ 31 := by
  obtain ⟨other, hvalid, hempty, -, hshrink⟩ := exists_shrink_eq hmemory
  obtain ⟨b', heq, -, hcontent, -⟩ := hkeeps
  have hlimit : b.readableBytes < 2 ^ 63 := by
    unfold vectorMaxSize at hmemory
    omega
  rw [hshrink, appendStringPiece, toStringPiece_size] at heq
  rw [← toUnsigned_wrapInt_iff hlimit]
  generalize toUnsigned 8 (wrapInt b.readableBytes) = len at heq ⊢
  have hwithin : len ≤ b.toStringPiece.data.length := by
    by_contra hlong
    exact appendData_ne_ok (not_le.mp hlong) heq
  have hsmall : (b.toStringPiece.data.take len).length < 2 ^ 63 := by
    have hmax := hb.size_le
    unfold vectorMaxSize at hmax
    simp only [toStringPiece, StringPiece.data, List.length_take,
      List.length_drop]
    omega
  rw [appendData_of_le hwithin] at heq
  rcases append_cases hvalid hsmall with ⟨hfail, -⟩ | ⟨b'', heq', -, hall⟩
  · rw [heq] at hfail
    cases hfail
  · obtain rfl : b' = b'' := Except.ok.inj (heq.symm.trans heq')
    rw [hcontent, hempty, List.nil_append] at hall
    rw [← hb.content_length, hall, List.length_take_of_le hwithin]

/-- The readable bytes survive, with room for `reserve` more, if and only if
their number is an `int`, as long as the memory suffices. -/
theorem shrink_preserves_iff {b : Buffer} (hb : b.Ordered) {reserve : ℕ}
    (hmemory : kCheapPrepend + (b.readableBytes + reserve) ≤ vectorMaxSize) :
    MakesRoom (b.shrink reserve) b.content reserve ↔
      b.readableBytes < 2 ^ 31 :=
  ⟨isInt_of_shrink_preserves hb hmemory, shrink_preserves hb hmemory⟩

/-- A buffer of `n` readable bytes without room for more. -/
def full (n : ℕ) : Buffer :=
  ⟨List.replicate (kCheapPrepend + n) 0, kCheapPrepend, kCheapPrepend + n⟩

theorem full_ordered {n : ℕ} (hn : kCheapPrepend + n ≤ vectorMaxSize) :
    (full n).Ordered where
  reader_le := Nat.le_add_right _ _
  writer_le := by simp [full]
  size_le := by simpa [full] using hn

theorem full_readableBytes {n : ℕ} (hn : kCheapPrepend + n ≤ vectorMaxSize) :
    (full n).readableBytes = n := by
  rw [(full_ordered hn).readableBytes_eq]
  simp [full]

/-- Three readable bytes survive. -/
theorem shrink_full_three :
    MakesRoom ((full 3).shrink 5) (full 3).content 5 :=
  (shrink_preserves_iff (by decide) (by decide)).mpr (by decide)

/-- Of `2 ^ 31` readable bytes not all survive, whatever the memory. -/
theorem full_not_shrinkable :
    (full (2 ^ 31)).Ordered ∧ (full (2 ^ 31)).readableBytes < 2 ^ 62 ∧
      kCheapPrepend + ((full (2 ^ 31)).readableBytes + 0) ≤ vectorMaxSize ∧
      ¬ MakesRoom ((full (2 ^ 31)).shrink 0) (full (2 ^ 31)).content 0 := by
  have hn : kCheapPrepend + 2 ^ 31 ≤ vectorMaxSize := by decide
  have hb := full_ordered hn
  have hreadable := full_readableBytes hn
  have hmemory : kCheapPrepend + ((full (2 ^ 31)).readableBytes + 0) ≤
      vectorMaxSize := by
    rw [hreadable]
    exact hn
  refine ⟨hb, ?_, hmemory, fun hkeeps => ?_⟩
  · rw [hreadable]
    decide
  · have hint := isInt_of_shrink_preserves hb hmemory hkeeps
    rw [hreadable] at hint
    exact absurd hint (lt_irrefl _)

end Buffer

end EventServer.Network
