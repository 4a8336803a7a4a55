import EventServer.Network.BufferRegions
import EventServer.Support.Search

/-!
# Searching a buffer for the end of a line

Both versions of `findCRLF`.  A pointer into the buffer is its offset from
`begin()`.  The search from a pointer is the search in a part of the content,
so that it can be resumed after an `append`, which may move the bytes.
-/

namespace EventServer.Network

open EventServer.Support

namespace Buffer

/-! ## The functions -/

def kCRLF : List UInt8 := [0x0d, 0x0a]

/-- `peek()`. -/
def peek (b : Buffer) : ℕ := b.readerIndex_

/-- `beginWrite()`. -/
def beginWrite (b : Buffer) : ℕ := b.writerIndex_

/-- `std::search(first, beginWrite(), kCRLF, kCRLF+2)`. -/
def searchCRLF (b : Buffer) (first : ℕ) : ℕ :=
  first + search kCRLF ((b.buffer_.drop first).take (b.beginWrite - first))

/-- `findCRLF()`; a null pointer is `none`. -/
def findCRLF (b : Buffer) : Option ℕ :=
  let crlf := b.searchCRLF b.peek
  if crlf = b.beginWrite then none else some crlf

/-- `findCRLF(const char* start)`. -/
def findCRLFFrom (b : Buffer) (start : ℕ) : Except Fault (Option ℕ) := do
  ensure (b.peek ≤ start) .assertion
  ensure (start ≤ b.beginWrite) .assertion
  let crlf := b.searchCRLF start
  return if crlf = b.beginWrite then none else some crlf

/-! ## The search in the content -/

/-- A CR at `p` and an LF behind it, both among the readable bytes. -/
structure CRLFAt (b : Buffer) (p : ℕ) : Prop where
  peek_le : b.peek ≤ p
  lt_beginWrite : p + 1 < b.beginWrite
  cr : b.buffer_[p]? = some 0x0d
  lf : b.buffer_[p + 1]? = some 0x0a

theorem kCRLF_ne : kCRLF ≠ [] := List.cons_ne_nil _ _

theorem occursAt_kCRLF_iff {xs : List UInt8} {i : ℕ} :
    OccursAt kCRLF xs i ↔ xs[i]? = some 0x0d ∧ xs[i + 1]? = some 0x0a := by
  have hcr : (xs.drop i)[0]? = xs[i]? := by simp
  have hlf : (xs.drop i)[1]? = xs[i + 1]? := by simp
  rw [← hcr, ← hlf, OccursAt, kCRLF]
  rcases xs.drop i with _ | ⟨x, _ | ⟨y, rest⟩⟩
  · simp
  · simp [List.cons_prefix_cons]
  · simp [List.cons_prefix_cons, eq_comm]

/-- A position in the buffer, as an offset in its content. -/
theorem crlfAt_iff {b : Buffer} {p : ℕ} (hp : b.peek ≤ p) :
    b.CRLFAt p ↔ OccursAt kCRLF b.content (p - b.peek) := by
  have hget : ∀ i, b.content[i]? =
      if i < b.writerIndex_ - b.readerIndex_
      then b.buffer_[b.readerIndex_ + i]? else none := by
    intro i
    rw [content, List.getElem?_take, List.getElem?_drop]
  unfold peek at *
  rw [occursAt_kCRLF_iff, hget, hget]
  have hfirst : b.readerIndex_ + (p - b.readerIndex_) = p := by omega
  have hsecond : b.readerIndex_ + (p - b.readerIndex_ + 1) = p + 1 := by omega
  rw [hfirst, hsecond]
  constructor
  · rintro ⟨-, hlt, hcr, hlf⟩
    unfold beginWrite at hlt
    rw [if_pos (by omega), if_pos (by omega)]
    exact ⟨hcr, hlf⟩
  · rintro ⟨hcr, hlf⟩
    have hlt : p - b.readerIndex_ + 1 < b.writerIndex_ - b.readerIndex_ := by
      by_contra hge
      rw [if_neg hge] at hlf
      cases hlf
    rw [if_pos (by omega)] at hcr
    rw [if_pos hlt] at hlf
    refine ⟨hp, ?_, hcr, hlf⟩
    unfold beginWrite
    omega

/-- The readable bytes behind the first `k` ones. -/
theorem drop_content (b : Buffer) (k : ℕ) :
    (b.buffer_.drop (b.peek + k)).take (b.beginWrite - (b.peek + k)) =
      b.content.drop k := by
  rw [content, List.drop_take, List.drop_drop, peek, beginWrite, Nat.sub_sub]

theorem searchCRLF_eq (b : Buffer) (k : ℕ) :
    b.searchCRLF (b.peek + k) =
      b.peek + (k + search kCRLF (b.content.drop k)) := by
  rw [searchCRLF, drop_content, Nat.add_assoc]

theorem Valid.beginWrite_eq {b : Buffer} (hb : b.Valid) :
    b.beginWrite = b.peek + b.content.length := by
  obtain ⟨front, back, h⟩ := hb.exists_regions
  rw [beginWrite, peek, h.writer_eq, h.reader_eq]

/-- The result of a search that has stopped at the given offset. -/
def foundAt (b : Buffer) (i : ℕ) : Option ℕ :=
  if i = b.content.length then none else some (b.peek + i)

theorem findCRLF_eq {b : Buffer} (hb : b.Valid) :
    b.findCRLF = b.foundAt (search kCRLF b.content) := by
  have hsearch : b.searchCRLF b.peek = b.peek + search kCRLF b.content := by
    simpa using b.searchCRLF_eq 0
  simp only [findCRLF, foundAt, hsearch, hb.beginWrite_eq,
    Nat.add_left_cancel_iff]

theorem findCRLFFrom_eq {b : Buffer} (hb : b.Valid) {k : ℕ}
    (hk : k ≤ b.content.length) :
    b.findCRLFFrom (b.peek + k) =
      .ok (b.foundAt (k + search kCRLF (b.content.drop k))) := by
  have hfirst : b.peek ≤ b.peek + k := Nat.le_add_right _ _
  have hlast : b.peek + k ≤ b.beginWrite := by
    rw [hb.beginWrite_eq]
    omega
  rw [findCRLFFrom, ensure_of hfirst, ensure_of hlast]
  simp only [foundAt, searchCRLF_eq, hb.beginWrite_eq,
    Nat.add_left_cancel_iff, ok_bind, pure_eq_ok]

/-! ## What the search finds -/

/-- The search from a pointer into the content finds the first CRLF at or behind
it, or returns a null pointer because there is none. -/
theorem findCRLFFrom_spec {b : Buffer} (hb : b.Valid) {start : ℕ}
    (hfirst : b.peek ≤ start) (hlast : start ≤ b.beginWrite) :
    ∃ result, b.findCRLFFrom start = .ok result ∧
      (∀ p, result = some p ↔ IsLeast {q | start ≤ q ∧ b.CRLFAt q} p) ∧
      (result = none ↔ ∀ q, start ≤ q → ¬ b.CRLFAt q) := by
  obtain ⟨k, rfl⟩ := Nat.exists_eq_add_of_le hfirst
  rw [hb.beginWrite_eq] at hlast
  have hk : k ≤ b.content.length := by omega
  have hoccurs : ∀ i, b.CRLFAt (b.peek + k + i) ↔
      OccursAt kCRLF (b.content.drop k) i := by
    intro i
    have hoffset : b.peek + k + i - b.peek = k + i := by omega
    rw [crlfAt_iff (by omega), hoffset, OccursAt.drop_iff]
  refine ⟨_, findCRLFFrom_eq hb hk, ?_⟩
  rcases search_cases kCRLF_ne (b.content.drop k) with
    ⟨hfound, hleast⟩ | ⟨hlength, hnone⟩
  · have hle := hfound.add_length_le kCRLF_ne
    rw [List.length_drop] at hle
    have hpos : 0 < kCRLF.length := by decide
    have hresult : b.foundAt (k + search kCRLF (b.content.drop k)) =
        some (b.peek + k + search kCRLF (b.content.drop k)) := by
      rw [foundAt, if_neg (by omega), Nat.add_assoc]
    have hcrlf := (hoccurs _).mpr hfound
    have hfirstCRLF : IsLeast {q | b.peek + k ≤ q ∧ b.CRLFAt q}
        (b.peek + k + search kCRLF (b.content.drop k)) := by
      refine ⟨⟨Nat.le_add_right _ _, hcrlf⟩, ?_⟩
      rintro q ⟨hq, hat⟩
      obtain ⟨i, rfl⟩ := Nat.exists_eq_add_of_le hq
      exact Nat.add_le_add_left (hleast ((hoccurs i).mp hat)) _
    rw [hresult]
    refine ⟨fun p => ?_, iff_of_false (Option.some_ne_none _) ?_⟩
    · rw [Option.some.injEq]
      exact ⟨fun heq => heq ▸ hfirstCRLF, fun hp => hfirstCRLF.unique hp⟩
    · exact fun hall => hall _ (Nat.le_add_right _ _) hcrlf
  · have hresult : b.foundAt (k + search kCRLF (b.content.drop k)) = none := by
      rw [foundAt, hlength, List.length_drop, if_pos (by omega)]
    have hall : ∀ q, b.peek + k ≤ q → ¬ b.CRLFAt q := by
      intro q hq hat
      obtain ⟨i, rfl⟩ := Nat.exists_eq_add_of_le hq
      exact hnone i ((hoccurs i).mp hat)
    rw [hresult]
    refine ⟨fun p => iff_of_false (Option.some_ne_none _).symm ?_,
      iff_of_true rfl hall⟩
    exact fun hp => hall p hp.1.1 hp.1.2

theorem findCRLFFrom_peek {b : Buffer} (hb : b.Valid) :
    b.findCRLFFrom b.peek = .ok b.findCRLF := by
  have hfrom := findCRLFFrom_eq hb (Nat.zero_le _)
  rw [findCRLF_eq hb]
  simpa using hfrom

/-! ## Searching again -/

theorem findCRLF_eq_none_iff {b : Buffer} (hb : b.Valid) :
    b.findCRLF = none ↔ search kCRLF b.content = b.content.length := by
  rw [findCRLF_eq hb, foundAt]
  split
  next hend => exact iff_of_true rfl hend
  next hfound => exact iff_of_false (Option.some_ne_none _) hfound

/-- When more bytes have come, the search is resumed at the last byte that was
there before. -/
theorem findCRLFFrom_resumed {b b' : Buffer} (hb : b.Valid) (hb' : b'.Valid)
    {s : List UInt8} (hcontent : b'.content = b.content ++ s)
    (hnone : b.findCRLF = none) :
    b'.findCRLFFrom (b'.peek + (b.content.length - 1)) = .ok b'.findCRLF := by
  have hresumed := search_append_resumed kCRLF_ne
    ((findCRLF_eq_none_iff hb).mp hnone) s
  have hk : b.content.length - 1 ≤ b'.content.length := by
    rw [hcontent, List.length_append]
    omega
  rw [findCRLFFrom_eq hb' hk, findCRLF_eq hb', hcontent]
  exact congrArg (fun i => Except.ok (b'.foundAt i)) hresumed

/-- What has been found stays at the same offset. -/
theorem findCRLF_kept {b b' : Buffer} (hb : b.Valid) (hb' : b'.Valid)
    {s : List UInt8} (hcontent : b'.content = b.content ++ s) {p : ℕ}
    (hfound : b.findCRLF = some p) :
    ∃ i, p = b.peek + i ∧ b'.findCRLF = some (b'.peek + i) := by
  have hsome : search kCRLF b.content ≠ b.content.length := by
    rw [Ne, ← findCRLF_eq_none_iff hb, hfound]
    exact Option.some_ne_none p
  have hsame := search_append_of_found kCRLF_ne hsome s
  have hlt : search kCRLF b.content ≠ b'.content.length := by
    have hleast := (isLeast_search_iff kCRLF_ne).mpr hsome
    have hle := hleast.1.add_length_le kCRLF_ne
    rw [hcontent, List.length_append]
    have hpos : 0 < kCRLF.length := by decide
    omega
  rw [findCRLF_eq hb, foundAt, if_neg hsome, Option.some.injEq] at hfound
  refine ⟨search kCRLF b.content, hfound.symm, ?_⟩
  rw [findCRLF_eq hb', foundAt, hcontent, hsame, ← hcontent, if_neg hlt]

/-- From any pointer into the content `findCRLF` finds the first CRLF at or
behind it, and a null pointer if and only if there is none.  Whatever is
appended, and wherever the bytes are moved, a search that has failed can be
resumed at the last byte of the old content, and one that has succeeded has the
same result.  Appending fails only when the vector would have to exceed its
largest size; a range of bytes in memory has fewer than `2 ^ 63`. -/
theorem findCRLF_resumable {b : Buffer} (hb : b.Valid) :
    (∀ start, b.peek ≤ start → start ≤ b.beginWrite →
      ∃ result, b.findCRLFFrom start = .ok result ∧
        (∀ p, result = some p ↔ IsLeast {q | start ≤ q ∧ b.CRLFAt q} p) ∧
        (result = none ↔ ∀ q, start ≤ q → ¬ b.CRLFAt q)) ∧
    b.findCRLFFrom b.peek = .ok b.findCRLF ∧
    ∀ s : List UInt8, s.length < 2 ^ 63 →
      (b.append s = .error .lengthError ∧
        2 ^ 63 ≤ b.writerIndex_ + s.length) ∨
      ∃ b', b.append s = .ok b' ∧
        (b.findCRLF = none →
          b'.findCRLFFrom (b'.peek + (b.content.length - 1)) =
            .ok b'.findCRLF) ∧
        ∀ p, b.findCRLF = some p →
          ∃ i, p = b.peek + i ∧ b'.findCRLF = some (b'.peek + i) := by
  refine ⟨fun start => findCRLFFrom_spec hb, findCRLFFrom_peek hb, ?_⟩
  intro s hs
  rcases append_cases hb hs with hfail | ⟨b', heq, hb', hcontent⟩
  · exact Or.inl hfail
  · exact Or.inr ⟨b', heq, findCRLFFrom_resumed hb hb' hcontent,
      fun p => findCRLF_kept hb hb' hcontent⟩

/-- A buffer without writable bytes whose content ends with a CR. -/
def endsWithCR : Buffer := ⟨List.replicate 14 0 ++ [0x61, 0x0d], 14, 16⟩

/-- The LF comes with the next bytes, for which the content is moved. -/
theorem findCRLF_resumable_straddling :
    ∃ b', endsWithCR.append [0x0a] = .ok b' ∧ b'.peek = 8 ∧
      b'.findCRLF = some 9 ∧ b'.findCRLFFrom (b'.peek + 1) = .ok (some 9) := by
  have happend : endsWithCR.append [0x0a] =
      .ok ⟨List.replicate 8 0 ++ [0x61, 0x0d, 0x0a, 0, 0, 0, 0x61, 0x0d], 8,
        11⟩ := by
    decide
  have hvalid : endsWithCR.Valid := by decide
  rcases (findCRLF_resumable hvalid).2.2 [0x0a] (by decide) with
    ⟨-, hlarge⟩ | ⟨b', heq, hresumed, -⟩
  · exact absurd hlarge (by decide)
  · obtain rfl := Except.ok.inj (happend.symm.trans heq)
    have hfound := hresumed (by decide)
    exact ⟨_, heq, rfl, by decide, hfound.trans (by decide)⟩

end Buffer

end EventServer.Network
