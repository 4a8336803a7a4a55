import EventServer.Network.Buffer

/-!
# The three regions of a buffer

Well-formed buffers, their readable content, and one specification lemma for
each operation.  Every lemma is proved on the three regions: an operation moves
the borders between them, and possibly replaces the bytes outside the readable
one.
-/

namespace EventServer.Network

open EventServer.Support

namespace Buffer

/-- The invariant of the class: the indices are ordered and inside the vector,
which never loses its cheap-prepend area and never exceeds `max_size()`. -/
structure Valid (b : Buffer) : Prop where
  reader_le : b.readerIndex_ ≤ b.writerIndex_
  writer_le : b.writerIndex_ ≤ b.buffer_.length
  cheap_le : kCheapPrepend ≤ b.buffer_.length
  size_le : b.buffer_.length ≤ vectorMaxSize

instance : DecidablePred Valid := fun b =>
  decidable_of_iff
    (b.readerIndex_ ≤ b.writerIndex_ ∧ b.writerIndex_ ≤ b.buffer_.length ∧
      kCheapPrepend ≤ b.buffer_.length ∧ b.buffer_.length ≤ vectorMaxSize)
    ⟨fun ⟨h₁, h₂, h₃, h₄⟩ => ⟨h₁, h₂, h₃, h₄⟩,
      fun ⟨h₁, h₂, h₃, h₄⟩ => ⟨h₁, h₂, h₃, h₄⟩⟩

/-- The readable bytes. -/
def content (b : Buffer) : List UInt8 :=
  (b.buffer_.drop b.readerIndex_).take (b.writerIndex_ - b.readerIndex_)

/-- The buffer consists of these three regions. -/
structure Regions (b : Buffer) (front readable back : List UInt8) : Prop where
  buffer_eq : b.buffer_ = front ++ (readable ++ back)
  reader_eq : b.readerIndex_ = front.length
  writer_eq : b.writerIndex_ = front.length + readable.length
  cheap_le : kCheapPrepend ≤ b.buffer_.length
  size_le : b.buffer_.length ≤ vectorMaxSize

theorem Valid.exists_regions {b : Buffer} (hb : b.Valid) :
    ∃ front back, b.Regions front b.content back := by
  have hreader := hb.reader_le
  have hwriter := hb.writer_le
  have htail : b.buffer_.drop b.writerIndex_ =
      (b.buffer_.drop b.readerIndex_).drop
        (b.writerIndex_ - b.readerIndex_) := by
    rw [List.drop_drop]
    congr 1
    omega
  refine ⟨b.buffer_.take b.readerIndex_, b.buffer_.drop b.writerIndex_,
    ?_, ?_, ?_, hb.cheap_le, hb.size_le⟩
  · rw [content, htail, List.take_append_drop, List.take_append_drop]
  · rw [List.length_take]
    omega
  · rw [content, List.length_take, List.length_take, List.length_drop]
    omega

namespace Regions

variable {b : Buffer} {front readable back : List UInt8}

theorem length_eq (h : b.Regions front readable back) :
    b.buffer_.length = front.length + (readable.length + back.length) := by
  rw [h.buffer_eq, List.length_append, List.length_append]

theorem length_lt (h : b.Regions front readable back) :
    front.length + (readable.length + back.length) < 2 ^ 63 := by
  have hsize := h.size_le
  rw [h.length_eq, vectorMaxSize] at hsize
  omega

theorem valid (h : b.Regions front readable back) : b.Valid where
  reader_le := by rw [h.reader_eq, h.writer_eq]; omega
  writer_le := by rw [h.writer_eq, h.length_eq]; omega
  cheap_le := h.cheap_le
  size_le := h.size_le

theorem content_eq (h : b.Regions front readable back) :
    b.content = readable := by
  rw [content, h.buffer_eq, h.reader_eq, h.writer_eq, List.drop_left,
    Nat.add_sub_cancel_left, List.take_left]

theorem readableBytes_eq (h : b.Regions front readable back) :
    b.readableBytes = readable.length := by
  have hlen := h.length_lt
  rw [readableBytes, h.writer_eq, h.reader_eq, sizeSub_eq]
  · omega
  · omega
  · omega

theorem writableBytes_eq (h : b.Regions front readable back) :
    b.writableBytes = back.length := by
  have hlen := h.length_lt
  rw [writableBytes, h.length_eq, h.writer_eq, sizeSub_eq]
  · omega
  · omega
  · omega

theorem prependableBytes_eq (h : b.Regions front readable back) :
    b.prependableBytes = front.length :=
  h.reader_eq

theorem peekBytes_eq (h : b.Regions front readable back) {len : ℕ}
    (hlen : len ≤ readable.length) :
    b.peekBytes len = readable.take len := by
  rw [peekBytes, h.buffer_eq, h.reader_eq, List.drop_left,
    List.take_append_of_le_length hlen]

end Regions

/-- The operation returns a valid buffer with the content `c`. -/
def Yields (result : Except Fault Buffer) (c : List UInt8) : Prop :=
  ∃ b, result = .ok b ∧ b.Valid ∧ b.content = c

/-! ## Construction and retrieval -/

theorem retrieveAll_valid {b : Buffer} (hb : b.Valid) : b.retrieveAll.Valid where
  reader_le := le_refl _
  writer_le := hb.cheap_le
  cheap_le := hb.cheap_le
  size_le := hb.size_le

theorem retrieveAll_content (b : Buffer) : b.retrieveAll.content = [] := by
  simp [content, retrieveAll]

/-- What the constructor builds, as long as the size can be allocated. -/
def fresh (initialSize : ℕ) : Buffer :=
  ⟨List.replicate (kCheapPrepend + initialSize) 0, kCheapPrepend,
    kCheapPrepend⟩

theorem fresh_regions {initialSize : ℕ}
    (hsize : kCheapPrepend + initialSize < 2 ^ 63) :
    (fresh initialSize).Regions (List.replicate kCheapPrepend 0) []
      (List.replicate initialSize 0) := by
  refine ⟨?_, ?_, ?_, ?_, ?_⟩
  · simp [fresh, List.replicate_append_replicate]
  · simp [fresh]
  · simp [fresh]
  · simp [fresh]
  · simp only [fresh, List.length_replicate, vectorMaxSize]
    omega

theorem create_eq_fresh {initialSize : ℕ}
    (hsize : kCheapPrepend + initialSize < 2 ^ 63) :
    create initialSize = .ok (fresh initialSize) := by
  have h := fresh_regions hsize
  have hadd : sizeAdd kCheapPrepend initialSize =
      kCheapPrepend + initialSize := sizeAdd_eq (by omega)
  have hmax : kCheapPrepend + initialSize ≤ vectorMaxSize := by
    unfold vectorMaxSize
    omega
  have hreadable : (fresh initialSize).readableBytes = 0 :=
    h.readableBytes_eq
  have hwritable : (fresh initialSize).writableBytes = initialSize := by
    simpa using h.writableBytes_eq
  have hprependable : (fresh initialSize).prependableBytes =
      kCheapPrepend := by
    simpa using h.prependableBytes_eq
  unfold fresh at hreadable hwritable hprependable ⊢
  unfold create
  simp only [hadd]
  rw [ensure_of hmax, ensure_of hreadable, ensure_of hwritable,
    ensure_of hprependable]
  rfl

theorem retrieve_spec {b : Buffer} (hb : b.Valid) {len : ℕ}
    (hlen : len ≤ b.readableBytes) :
    Yields (b.retrieve len) (b.content.drop len) := by
  obtain ⟨front, back, h⟩ := hb.exists_regions
  have hreadable := h.readableBytes_eq
  by_cases hlt : len < b.readableBytes
  · have hadd : sizeAdd b.readerIndex_ len = b.readerIndex_ + len := by
      apply sizeAdd_eq
      have := h.length_lt
      have := h.reader_eq
      omega
    have htake : (b.content.take len).length = len :=
      List.length_take_of_le (by omega)
    have hnext : Regions { b with readerIndex_ := sizeAdd b.readerIndex_ len }
        (front ++ b.content.take len) (b.content.drop len) back := by
      refine ⟨?_, ?_, ?_, h.cheap_le, h.size_le⟩
      · rw [List.append_assoc, ← List.append_assoc (b.content.take len),
          List.take_append_drop]
        exact h.buffer_eq
      · rw [List.length_append, htake, ← h.reader_eq]
        exact hadd
      · rw [List.length_append, List.length_drop, htake]
        have := h.writer_eq
        simp only
        omega
    refine ⟨_, ?_, hnext.valid, hnext.content_eq⟩
    simp [retrieve, ensure_of hlen, hlt]
  · have hall : len = b.content.length := by omega
    refine ⟨b.retrieveAll, ?_, retrieveAll_valid hb, ?_⟩
    · simp [retrieve, ensure_of hlen, hlt]
    · rw [retrieveAll_content, hall, List.drop_length]

theorem retrieveUntil_spec {b : Buffer} (hb : b.Valid) {last : ℕ}
    (hfirst : b.readerIndex_ ≤ last) (hlast : last ≤ b.writerIndex_) :
    Yields (b.retrieveUntil last)
      (b.content.drop (last - b.readerIndex_)) := by
  obtain ⟨front, back, h⟩ := hb.exists_regions
  have hlen : last - b.readerIndex_ ≤ b.readableBytes := by
    rw [h.readableBytes_eq]
    have := h.writer_eq
    have := h.reader_eq
    omega
  obtain ⟨b', heq, hvalid, hcontent⟩ := retrieve_spec hb hlen
  refine ⟨b', ?_, hvalid, hcontent⟩
  simp [retrieveUntil, ensure_of hfirst, ensure_of hlast, heq]

theorem retrieveAsString_spec {b : Buffer} (hb : b.Valid) {len : ℕ}
    (hlen : len ≤ b.readableBytes) :
    ∃ b', b.retrieveAsString len = .ok (b', b.content.take len) ∧
      b'.Valid ∧ b'.content = b.content.drop len := by
  obtain ⟨front, back, h⟩ := hb.exists_regions
  have hpeek : b.peekBytes len = b.content.take len :=
    h.peekBytes_eq (h.readableBytes_eq ▸ hlen)
  obtain ⟨b', heq, hvalid, hcontent⟩ := retrieve_spec hb hlen
  refine ⟨b', ?_, hvalid, hcontent⟩
  simp [retrieveAsString, ensure_of hlen, heq, hpeek]

theorem unwrite_spec {b : Buffer} (hb : b.Valid) {len : ℕ}
    (hlen : len ≤ b.readableBytes) :
    Yields (b.unwrite len)
      (b.content.take (b.content.length - len)) := by
  obtain ⟨front, back, h⟩ := hb.exists_regions
  have hreadable := h.readableBytes_eq
  have hsub : sizeSub b.writerIndex_ len = b.writerIndex_ - len := by
    have := h.length_lt
    have := h.writer_eq
    apply sizeSub_eq
    · omega
    · omega
  have hnext : Regions { b with writerIndex_ := sizeSub b.writerIndex_ len }
      front (b.content.take (b.content.length - len))
      (b.content.drop (b.content.length - len) ++ back) := by
    refine ⟨?_, h.reader_eq, ?_, h.cheap_le, h.size_le⟩
    · rw [← List.append_assoc (b.content.take _), List.take_append_drop]
      exact h.buffer_eq
    · rw [List.length_take]
      have := h.writer_eq
      simp only [hsub]
      omega
  refine ⟨_, ?_, hnext.valid, hnext.content_eq⟩
  simp [unwrite, ensure_of hlen]

/-! ## Making space -/

/-- The operation leaves a valid buffer with the same content and room for
`len` more bytes. -/
def MakesRoom (result : Except Fault Buffer) (c : List UInt8) (len : ℕ) :
    Prop :=
  ∃ b, result = .ok b ∧ b.Valid ∧ b.content = c ∧ len ≤ b.writableBytes

/-- The buffer whose readable bytes have been moved to the front. -/
def moved (b : Buffer) : Buffer where
  buffer_ := overwrite b.buffer_ kCheapPrepend b.content
  readerIndex_ := kCheapPrepend
  writerIndex_ := kCheapPrepend + b.content.length

theorem Regions.moved {b : Buffer} {front back : List UInt8}
    (h : b.Regions front b.content back)
    (hreader : kCheapPrepend < b.readerIndex_) :
    b.moved.Regions (b.buffer_.take kCheapPrepend) b.content
      (b.buffer_.drop (kCheapPrepend + b.content.length)) := by
  have hlen := h.length_eq
  have hreaderEq := h.reader_eq
  have hcheap := h.cheap_le
  have hsize := h.size_le
  refine ⟨?_, ?_, ?_, ?_, ?_⟩
  · simp only [Buffer.moved, overwrite, List.append_assoc]
  · simp only [Buffer.moved, List.length_take]
    omega
  · simp only [Buffer.moved, List.length_take]
    omega
  · simp only [Buffer.moved, overwrite, List.length_append, List.length_take,
      List.length_drop]
    omega
  · simp only [Buffer.moved, overwrite, List.length_append, List.length_take,
      List.length_drop]
    omega

/-- Moving the readable bytes to the front turns the space before them, but for
the cheap-prepend area, into writable space. -/
theorem makeSpace_move_spec {b : Buffer} (hb : b.Valid) {len : ℕ}
    (hmove : ¬ sizeAdd b.writableBytes b.prependableBytes <
      sizeAdd len kCheapPrepend)
    (hreader : kCheapPrepend < b.readerIndex_) :
    ∃ b', b.makeSpace len = .ok b' ∧ b'.Valid ∧ b'.content = b.content ∧
      b'.writableBytes + kCheapPrepend =
        b.writableBytes + b.prependableBytes := by
  obtain ⟨front, back, h⟩ := hb.exists_regions
  have hlength := h.length_lt
  have hreadable := h.readableBytes_eq
  have hwriterNext : sizeAdd kCheapPrepend b.readableBytes =
      kCheapPrepend + b.content.length := by
    rw [hreadable]
    apply sizeAdd_eq
    unfold kCheapPrepend
    omega
  have hpeek : b.peekBytes b.readableBytes = b.content := by
    rw [hreadable, h.peekBytes_eq (le_refl _), List.take_length]
  have hlen := h.length_eq
  have hreaderEq := h.reader_eq
  have hnext := h.moved hreader
  refine ⟨b.moved, ?_, hnext.valid, hnext.content_eq, ?_⟩
  · have hsame : b.readableBytes = b.moved.readableBytes := by
      rw [hreadable, hnext.readableBytes_eq]
    rw [makeSpace, if_neg hmove, ensure_of hreader]
    simp only [hwriterNext, hpeek, ok_bind]
    unfold moved at *
    rw [ensure_of hsame]
    rfl
  · rw [hnext.writableBytes_eq, h.writableBytes_eq, h.prependableBytes_eq,
      List.length_drop]
    omega

/-- `makeSpace` fails only when the vector would have to exceed its largest
size; in particular its assertion `kCheapPrepend < readerIndex_` holds whenever
there are fewer than `len` writable bytes. -/
theorem makeSpace_cases {b : Buffer} (hb : b.Valid) {len : ℕ}
    (hshort : b.writableBytes < len) (hsmall : len < 2 ^ 63) :
    (b.makeSpace len = .error .lengthError ∧
        2 ^ 63 ≤ b.writerIndex_ + len) ∨
      MakesRoom (b.makeSpace len) b.content len := by
  obtain ⟨front, back, h⟩ := hb.exists_regions
  have hlength := h.length_lt
  have hwriter := h.writer_eq
  have hwritable := h.writableBytes_eq
  have hprependable := h.prependableBytes_eq
  have hhave : sizeAdd b.writableBytes b.prependableBytes =
      back.length + front.length := by
    rw [hwritable, hprependable]
    exact sizeAdd_eq (by omega)
  have hneed : sizeAdd len kCheapPrepend = len + kCheapPrepend := by
    apply sizeAdd_eq
    unfold kCheapPrepend
    omega
  by_cases hgrow : back.length + front.length < len + kCheapPrepend
  · have hsize : sizeAdd b.writerIndex_ len = b.writerIndex_ + len :=
      sizeAdd_eq (by omega)
    have hlonger : b.buffer_.length ≤ b.writerIndex_ + len := by
      rw [h.length_eq]
      omega
    by_cases htotal : 2 ^ 63 ≤ b.writerIndex_ + len
    · have hmax : ¬ b.writerIndex_ + len ≤ vectorMaxSize := by
        unfold vectorMaxSize
        omega
      refine Or.inl ⟨?_, htotal⟩
      simp [makeSpace, hhave, hneed, hgrow, hsize, vectorResize, hmax]
    have hmax : b.writerIndex_ + len ≤ vectorMaxSize := by
      unfold vectorMaxSize
      omega
    let extra := List.replicate (b.writerIndex_ + len - b.buffer_.length)
      (0 : UInt8)
    have hnext : Regions { b with buffer_ := b.buffer_ ++ extra }
        front b.content (back ++ extra) := by
      refine ⟨?_, h.reader_eq, h.writer_eq, ?_, ?_⟩
      · simp only [h.buffer_eq, List.append_assoc]
      · have := h.cheap_le
        simp only [List.length_append]
        omega
      · simp only [List.length_append, extra, List.length_replicate]
        omega
    refine Or.inr ⟨{ b with buffer_ := b.buffer_ ++ extra }, ?_, hnext.valid,
      hnext.content_eq, ?_⟩
    · rw [makeSpace, hhave, hneed, if_pos hgrow, hsize,
        vectorResize_of_le hlonger hmax]
      rfl
    · rw [hnext.writableBytes_eq, List.length_append, List.length_replicate,
        h.length_eq]
      omega
  · have hreader : kCheapPrepend < b.readerIndex_ := by
      rw [h.reader_eq]
      omega
    have hmove : ¬ sizeAdd b.writableBytes b.prependableBytes <
        sizeAdd len kCheapPrepend := by
      rw [hhave, hneed]
      exact hgrow
    obtain ⟨moved, heq, hvalid, hcontent, hroom⟩ :=
      makeSpace_move_spec hb hmove hreader
    exact Or.inr ⟨moved, heq, hvalid, hcontent, by omega⟩

theorem ensureWritableBytes_cases {b : Buffer} (hb : b.Valid) {len : ℕ}
    (hsmall : len < 2 ^ 63) :
    (b.ensureWritableBytes len = .error .lengthError ∧
        2 ^ 63 ≤ b.writerIndex_ + len) ∨
      MakesRoom (b.ensureWritableBytes len) b.content len := by
  by_cases hshort : b.writableBytes < len
  · rcases makeSpace_cases hb hshort hsmall with
      ⟨hfail, htotal⟩ | ⟨b', heq, hvalid, hcontent, henough⟩
    · refine Or.inl ⟨?_, htotal⟩
      simp [ensureWritableBytes, hshort, hfail]
    · refine Or.inr ⟨b', ?_, hvalid, hcontent, henough⟩
      simp [ensureWritableBytes, hshort, heq, ensure_of henough]
  · have henough : len ≤ b.writableBytes := by omega
    refine Or.inr ⟨b, ?_, hb, rfl, henough⟩
    simp [ensureWritableBytes, hshort, ensure_of henough]

theorem ensureWritableBytes_spec {b : Buffer} (hb : b.Valid) {len : ℕ}
    (htotal : b.writerIndex_ + len < 2 ^ 63) :
    MakesRoom (b.ensureWritableBytes len) b.content len := by
  have hsmall : len < 2 ^ 63 := by omega
  rcases ensureWritableBytes_cases hb hsmall with
    ⟨-, hlarge⟩ | hroom
  · omega
  · exact hroom

/-! ## Adding bytes -/

theorem Regions.storeAtBeginWrite {b : Buffer}
    {front readable back data : List UInt8}
    (h : b.Regions front readable back) (hlen : data.length ≤ back.length) :
    (b.storeAtBeginWrite data).Regions front readable
      (data ++ back.drop data.length) := by
  have hbuffer : (b.storeAtBeginWrite data).buffer_ =
      front ++ (readable ++ (data ++ back.drop data.length)) := by
    have hlength : data.length = (back.take data.length).length := by
      rw [List.length_take]
      omega
    have hwriter : b.writerIndex_ = (front ++ readable).length := by
      rw [List.length_append]
      exact h.writer_eq
    have hsplit : b.buffer_ = (front ++ readable) ++
        (back.take data.length ++ back.drop data.length) := by
      rw [List.take_append_drop, List.append_assoc]
      exact h.buffer_eq
    rw [Buffer.storeAtBeginWrite, hwriter, hsplit,
      overwrite_append _ _ _ _ hlength, List.append_assoc]
  have hsame : (b.storeAtBeginWrite data).buffer_.length =
      b.buffer_.length := by
    rw [hbuffer, h.buffer_eq]
    simp only [List.length_append, List.length_drop]
    omega
  exact ⟨hbuffer, h.reader_eq, h.writer_eq, hsame ▸ h.cheap_le,
    hsame ▸ h.size_le⟩

/-- Moving the writer index over `data`, which stands at the start of the
writable region. -/
theorem Regions.advanceWriter {b : Buffer}
    {front readable data back : List UInt8}
    (h : b.Regions front readable (data ++ back)) {writer : ℕ}
    (hwriter : writer = b.writerIndex_ + data.length) :
    Regions { b with writerIndex_ := writer } front (readable ++ data)
      back := by
  refine ⟨?_, h.reader_eq, ?_, h.cheap_le, h.size_le⟩
  · simpa only [List.append_assoc] using h.buffer_eq
  · have := h.writer_eq
    simp only [hwriter, List.length_append]
    omega

theorem storeAtBeginWrite_hasWritten_spec {b : Buffer} (hb : b.Valid)
    {data : List UInt8} (hlen : data.length ≤ b.writableBytes) :
    Yields ((b.storeAtBeginWrite data).hasWritten data.length)
      (b.content ++ data) := by
  obtain ⟨front, back, h⟩ := hb.exists_regions
  have hstored := h.storeAtBeginWrite (h.writableBytes_eq ▸ hlen)
  have hroom : data.length ≤ (b.storeAtBeginWrite data).writableBytes := by
    rw [hstored.writableBytes_eq, List.length_append]
    omega
  have hadd : sizeAdd (b.storeAtBeginWrite data).writerIndex_ data.length =
      (b.storeAtBeginWrite data).writerIndex_ + data.length := by
    apply sizeAdd_eq
    have := hstored.length_lt
    have := hstored.writer_eq
    simp only [List.length_append] at *
    omega
  have hnext := hstored.advanceWriter hadd
  refine ⟨_, ?_, hnext.valid, hnext.content_eq⟩
  simp [hasWritten, ensure_of hroom]

theorem append_cases {b : Buffer} (hb : b.Valid) {data : List UInt8}
    (hsmall : data.length < 2 ^ 63) :
    (b.append data = .error .lengthError ∧
        2 ^ 63 ≤ b.writerIndex_ + data.length) ∨
      Yields (b.append data) (b.content ++ data) := by
  rcases ensureWritableBytes_cases hb hsmall with
    ⟨hfail, htotal⟩ | ⟨b', heq, hvalid, hcontent, henough⟩
  · exact Or.inl ⟨by simp [append, hfail], htotal⟩
  · obtain ⟨b'', hstored, hvalid', hcontent'⟩ :=
      storeAtBeginWrite_hasWritten_spec hvalid henough
    refine Or.inr ⟨b'', ?_, hvalid', hcontent ▸ hcontent'⟩
    simp [append, heq, hstored]

theorem append_spec {b : Buffer} (hb : b.Valid) {data : List UInt8}
    (htotal : b.writerIndex_ + data.length < 2 ^ 63) :
    Yields (b.append data) (b.content ++ data) := by
  have hsmall : data.length < 2 ^ 63 := by omega
  rcases append_cases hb hsmall with ⟨-, hlarge⟩ | hyields
  · omega
  · exact hyields

theorem prepend_spec {b : Buffer} (hb : b.Valid) {data : List UInt8}
    (hlen : data.length ≤ b.prependableBytes) :
    Yields (b.prepend data) (data ++ b.content) := by
  obtain ⟨front, back, h⟩ := hb.exists_regions
  have hlength := h.length_lt
  have hreader := h.reader_eq
  have hfits : data.length ≤ front.length :=
    h.prependableBytes_eq ▸ hlen
  have hsub : sizeSub b.readerIndex_ data.length =
      front.length - data.length := by
    rw [hreader]
    exact sizeSub_eq hfits (by omega)
  let kept := front.take (front.length - data.length)
  have hkept : kept.length = front.length - data.length := by
    simp only [kept, List.length_take]
    omega
  have hsplit : b.buffer_ =
      kept ++ (front.drop (front.length - data.length) ++
        (b.content ++ back)) := by
    rw [← List.append_assoc, List.take_append_drop]
    exact h.buffer_eq
  have hover : overwrite b.buffer_ (front.length - data.length) data =
      kept ++ (data ++ (b.content ++ back)) := by
    rw [hsplit, ← hkept]
    apply overwrite_append
    rw [List.length_drop, hkept]
    omega
  have hnext : Regions
      { b with
        buffer_ := overwrite b.buffer_ (front.length - data.length) data
        readerIndex_ := front.length - data.length }
      kept (data ++ b.content) back := by
    have hlen := h.length_eq
    have hcheap := h.cheap_le
    have hsize := h.size_le
    have hsame : (kept ++ (data ++ (b.content ++ back))).length =
        b.buffer_.length := by
      simp only [List.length_append]
      omega
    refine ⟨?_, hkept.symm, ?_, ?_, ?_⟩
    · simp only [hover, List.append_assoc]
    · have := h.writer_eq
      simp only [List.length_append]
      omega
    · simpa only [hover, hsame] using hcheap
    · simpa only [hover, hsame] using hsize
  refine ⟨_, ?_, hnext.valid, hnext.content_eq⟩
  simp [prepend, ensure_of hlen, hsub]

/-! ## Reading from a descriptor -/

theorem readFd_failed (b : Buffer) (errno : Errno) :
    b.readFd (.failed errno) = .ok (b, -1, some errno) := rfl

/-- The value that `readFd` returns is the one that `readv` returned. -/
theorem readFd_result {b filled : Buffer} {result : ReadvResult} {n : ℤ}
    {savedErrno : Option Errno}
    (h : b.readFd result = .ok (filled, n, savedErrno)) :
    n = match result with
      | .stored bytes => (bytes.length : ℤ)
      | .failed _ => -1 := by
  cases result with
  | failed errno =>
      have heq := Except.ok.inj h
      simpa using (congrArg (fun r => r.2.1) heq).symm
  | stored bytes =>
      simp only [readFd] at h
      split at h
      · have heq := Except.ok.inj h
        simpa using (congrArg (fun r => r.2.1) heq).symm
      · obtain ⟨appended, -, hrest⟩ := bind_eq_ok_iff.mp h
        have heq := Except.ok.inj hrest
        simpa using (congrArg (fun r => r.2.1) heq).symm

/-- Whatever `readv` stores is added at the back, however it was split between
the buffer and `extrabuf`. -/
theorem readFd_stored_cases {b : Buffer} (hb : b.Valid)
    {bytes : List UInt8} (hcap : bytes.length ≤ b.iovCapacity) :
    (b.readFd (.stored bytes) = .error .lengthError ∧
        2 ^ 63 ≤ b.writerIndex_ + bytes.length) ∨
      ∃ b', b.readFd (.stored bytes) = .ok (b', bytes.length, none) ∧
        b'.Valid ∧ b'.content = b.content ++ bytes := by
  obtain ⟨front, back, h⟩ := hb.exists_regions
  have hwritable := h.writableBytes_eq
  have hlength := h.length_lt
  have hwriter := h.writer_eq
  have htaken : (bytes.take b.writableBytes).length ≤ back.length := by
    rw [List.length_take, hwritable]
    omega
  have hstored := h.storeAtBeginWrite htaken
  by_cases hfits : bytes.length ≤ b.writableBytes
  · have hadd : sizeAdd b.writerIndex_ bytes.length =
        (b.storeAtBeginWrite (bytes.take b.writableBytes)).writerIndex_ +
          (bytes.take b.writableBytes).length := by
      rw [List.take_of_length_le hfits]
      exact sizeAdd_eq (by omega)
    have hnext := hstored.advanceWriter hadd
    rw [List.take_of_length_le hfits] at hnext
    refine Or.inr ⟨_, ?_, hnext.valid, hnext.content_eq⟩
    simp only [readFd, hfits, ↓reduceIte, List.take_of_length_le hfits]
    rfl
  · have hlonger : b.writableBytes < bytes.length := by omega
    have htake : (bytes.take b.writableBytes).length = back.length := by
      rw [List.length_take]
      omega
    have hend : (b.storeAtBeginWrite
        (bytes.take b.writableBytes)).buffer_.length =
        (b.storeAtBeginWrite (bytes.take b.writableBytes)).writerIndex_ +
          (bytes.take b.writableBytes).length := by
      rw [hstored.length_eq, hstored.writer_eq, htake, List.length_append,
        List.length_drop, htake]
      omega
    have hfull := hstored.advanceWriter hend
    have hrest : (bytes.drop b.writableBytes).length < 2 ^ 63 := by
      have hroom : bytes.length ≤ b.writableBytes + extrabufSize := by
        unfold iovCapacity at hcap
        split at hcap
        · exact hcap
        · omega
      unfold extrabufSize at hroom
      rw [List.length_drop]
      omega
    have hcontent := hfull.content_eq
    rcases append_cases hfull.valid hrest with
      ⟨hfail, htotal⟩ | ⟨b', heq, hvalid', hcontent'⟩
    · refine Or.inl ⟨?_, ?_⟩
      · simp only [readFd, if_neg hfits, hfail, error_bind]
      · have := hstored.writer_eq
        simp only [hend, List.length_drop] at htotal
        omega
    · refine Or.inr ⟨b', ?_, hvalid', ?_⟩
      · simp only [readFd, if_neg hfits, heq, ok_bind]
        rfl
      · rw [hcontent', hcontent, List.append_assoc, List.take_append_drop]

theorem readFd_stored_spec {b : Buffer} (hb : b.Valid)
    {bytes : List UInt8} (hcap : bytes.length ≤ b.iovCapacity)
    (htotal : b.writerIndex_ + bytes.length < 2 ^ 63) :
    ∃ b', b.readFd (.stored bytes) = .ok (b', bytes.length, none) ∧
      b'.Valid ∧ b'.content = b.content ++ bytes := by
  rcases readFd_stored_cases hb hcap with ⟨-, hlarge⟩ | hyields
  · omega
  · exact hyields

end Buffer

end EventServer.Network
