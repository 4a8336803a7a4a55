import EventServer.Common.ZoneFile
import EventServer.Support.WeakestPrecondition

/-!
# The sections of a zone file

Where the sections of a data block are in a file of any bytes, what numbers
they spell, and what the reading of each section makes of them.
-/

namespace EventServer.Common

open EventServer.Support EventServer.Support.ByteReader
open File

/-! ## Sections -/

/-- The `int32_t` at a position. -/
def int32At (bytes : List UInt8) (pos : ℕ) : ℤ :=
  signedValue (segment bytes pos 4)

/-- The `uint8_t` at a position. -/
def byteAt (bytes : List UInt8) (pos : ℕ) : ℕ :=
  bigEndianValue (segment bytes pos 1)

def countersAt (bytes : List UInt8) (pos : ℕ) : Counters where
  isutccnt := int32At bytes pos
  isstdcnt := int32At bytes (pos + 4)
  leapcnt := int32At bytes (pos + 8)
  timecnt := int32At bytes (pos + 12)
  typecnt := int32At bytes (pos + 16)
  charcnt := int32At bytes (pos + 20)

def localTimeAt (bytes : List UInt8) (pos : ℕ) : LocalTime where
  utcOffset := int32At bytes pos
  isDst := decide ((byteAt bytes (pos + 4) : ℤ) ≠ 0)
  desigIdx := byteAt bytes (pos + 5)

/-- A data block: its file, the position of its counters, and whether it is one
of version 1. -/
structure Block where
  bytes : List UInt8
  pos : ℕ
  v1 : Bool

namespace Block

def counters (b : Block) : Counters := countersAt b.bytes b.pos

def timecnt (b : Block) : ℕ := b.counters.timecnt.toNat

def typecnt (b : Block) : ℕ := b.counters.typecnt.toNat

def timeSize (b : Block) : ℕ := if b.v1 then 4 else 8

def timesPos (b : Block) : ℕ := b.pos + 24

def indicesPos (b : Block) : ℕ := b.timesPos + b.timecnt * b.timeSize

def typesPos (b : Block) : ℕ := b.indicesPos + b.timecnt * 1

def designationsPos (b : Block) : ℕ := b.typesPos + b.typecnt * 6

/-- The times of the transitions. -/
def times (b : Block) : List ℤ :=
  itemsAt (fun pos => signedValue (segment b.bytes pos b.timeSize)) b.timeSize
    b.timecnt b.timesPos

/-- The types of the transitions. -/
def indices (b : Block) : List ℕ :=
  itemsAt (byteAt b.bytes) 1 b.timecnt b.indicesPos

def types (b : Block) : List LocalTime :=
  itemsAt (localTimeAt b.bytes) 6 b.typecnt b.typesPos

end Block

theorem int32At_isInt (bytes : List UInt8) (pos : ℕ) :
    IsInt (int32At bytes pos) := by
  have hlength : (segment bytes pos 4).length ≤ 4 := by
    rw [segment_length]
    exact Nat.min_le_left _ _
  have hsize : 256 ^ (segment bytes pos 4).length ≤ 256 ^ 4 :=
    Nat.pow_le_pow_right (by decide) hlength
  have hpos : 0 < 256 ^ (segment bytes pos 4).length := by positivity
  have hlow := Int.le_bmod (x := bigEndianValue (segment bytes pos 4)) hpos
  have hhigh := Int.bmod_lt (x := bigEndianValue (segment bytes pos 4)) hpos
  unfold IsInt int32At signedValue
  omega

/-! ## Reading numbers -/

variable {E : ReadError → Prop} {bytes : List UInt8} {pos : ℕ} {d : Data}

theorem wp_readInt32 (hE : E .logicError) {Q : ℤ → ByteFile → Data → Prop} :
    wp readInt32 Q E ⟨bytes, pos⟩ d ↔ (4 ≤ bytes.length - pos →
      Q (int32At bytes pos) ⟨bytes, pos + 4⟩ d) :=
  wp_fread_exactly hE

theorem wp_readInt64 (hE : E .logicError) {Q : ℤ → ByteFile → Data → Prop} :
    wp readInt64 Q E ⟨bytes, pos⟩ d ↔ (8 ≤ bytes.length - pos →
      Q (signedValue (segment bytes pos 8)) ⟨bytes, pos + 8⟩ d) :=
  wp_fread_exactly hE

theorem wp_readUInt8 (hE : E .logicError) {Q : ℤ → ByteFile → Data → Prop} :
    wp readUInt8 Q E ⟨bytes, pos⟩ d ↔ (1 ≤ bytes.length - pos →
      Q (byteAt bytes pos) ⟨bytes, pos + 1⟩ d) :=
  wp_fread_exactly hE

theorem wp_readCounters (hE : E .logicError)
    {Q : Counters → ByteFile → Data → Prop} :
    wp readCounters Q E ⟨bytes, pos⟩ d ↔ (24 ≤ bytes.length - pos →
      Q (countersAt bytes pos) ⟨bytes, pos + 24⟩ d) := by
  unfold readCounters
  simp only [wp_bind, wp_readInt32 hE, wp_pure]
  constructor
  · intro h hleft
    exact h (by omega) (by omega) (by omega) (by omega) (by omega) (by omega)
  · intro h _ _ _ _ _ _
    exact h (by omega)

/-! ## Statements -/

theorem wp_checked {α : Type} {Q : α → ByteFile → Data → Prop} {f : ByteFile}
    {x : Except Fault α} :
    wp (checked x) Q E f d ↔
      (∀ a, x = .ok a → Q a f d) ∧
        ∀ fault, x = .error fault → E (.fault fault) := by
  cases x with
  | ok a =>
      change Q a f d ↔ _
      simp
  | error fault =>
      change E (.fault fault) ↔ _
      simp

theorem wp_checked_ok {α : Type} {Q : α → ByteFile → Data → Prop}
    {f : ByteFile} (a : α) : wp (checked (.ok a)) Q E f d ↔ Q a f d :=
  Iff.rfl

/-- A number of elements that fits into an `int` fits into a vector, unless it
is negative. -/
theorem wp_reserve (hE : E .logicError) {elementSize : ℕ} {n : ℤ}
    (hn : IsInt n) (hsize : 2 ^ 31 ≤ vectorMaxSize / elementSize)
    {Q : Unit → ByteFile → Data → Prop} {f : ByteFile} :
    wp (reserve elementSize n) Q E f d ↔ (0 ≤ n → Q () f d) := by
  have hmax : vectorMaxSize / elementSize ≤ vectorMaxSize :=
    Nat.div_le_self _ _
  have hlarge : vectorMaxSize < 2 ^ 64 - 2 ^ 31 := by decide
  unfold IsInt at hn
  unfold reserve
  rw [wp_ite, wp_throw, wp_pure]
  constructor
  · rintro ⟨-, h⟩ hnonneg
    exact h (by omega)
  · intro h
    refine ⟨fun _ => hE, ?_⟩
    intro hfits
    exact h (by omega)

/-- The outcome of `readBytes` for a negative length, a length beyond the
stack, and any other. -/
theorem wp_readBytes (hE : E .logicError) {stack : ℕ} {n : ℤ}
    {Q : List UInt8 → ByteFile → Data → Prop} :
    wp (readBytes stack n) Q E ⟨bytes, pos⟩ d ↔
      (n < 0 → E (.fault .stackArray)) ∧
        (0 ≤ n → stack < n → E (.fault .stackOverflow)) ∧
        (0 ≤ n → n ≤ stack → n.toNat ≤ bytes.length - pos →
          Q (segment bytes pos n.toNat) ⟨bytes, pos + n.toNat⟩ d) := by
  unfold readBytes
  rw [wp_ite, wp_ite, wp_throw, wp_throw, wp_fread_exactly hE, wp_pure]
  constructor
  · rintro ⟨hnegative, hother⟩
    refine ⟨hnegative, ?_, ?_⟩
    · intro hnonneg hlarge
      exact (hother (by omega)).1 hlarge
    · intro hnonneg hfits
      exact (hother (by omega)).2 (by omega)
  · rintro ⟨hnegative, hlarge, hread⟩
    refine ⟨hnegative, ?_⟩
    intro hnonneg
    refine ⟨hlarge (by omega), ?_⟩
    intro hfits
    exact hread (by omega) (by omega)

theorem wp_readToEndLoop {Q : List UInt8 → ByteFile → Data → Prop}
    (hQ : ∀ text f, Q text f d) (fuel : ℕ) (result : List UInt8)
    (f : ByteFile) : wp (readToEndLoop fuel result) Q E f d := by
  induction fuel generalizing result f with
  | zero => exact hQ _ _
  | succ fuel ih =>
      unfold readToEndLoop
      rw [wp_bind, wp_fread, wp_ite]
      exact ⟨fun _ => ih _ _, fun _ => hQ _ _⟩

/-- Reading to the end of the file always succeeds. -/
theorem wp_readToEnd {Q : List UInt8 → ByteFile → Data → Prop}
    (hQ : ∀ text f, Q text f d) (f : ByteFile) : wp readToEnd Q E f d :=
  wp_readToEndLoop hQ _ _ _

/-! ## Sections of a block -/

variable (b : Block)

theorem wp_readTimes (hE : E .logicError)
    {Q : List ℤ → ByteFile → Data → Prop} :
    wp (loop (readTime b.v1) b.timecnt []) Q E ⟨b.bytes, b.timesPos⟩ d ↔
      (b.timecnt * b.timeSize ≤ b.bytes.length - b.timesPos →
        Q b.times ⟨b.bytes, b.indicesPos⟩ d) := by
  refine wp_loop id (fun _ => d) ?_ b.timecnt [] b.timesPos Q
  intro read pos Q
  unfold readTime Block.timeSize
  cases b.v1 with
  | true => exact wp_bind.trans (wp_readInt32 hE)
  | false => exact wp_bind.trans (wp_readInt64 hE)

theorem wp_readIndices (hE : E .logicError)
    {Q : List ℤ → ByteFile → Data → Prop} :
    wp (loop readIndex b.timecnt []) Q E ⟨b.bytes, b.indicesPos⟩ d ↔
      (b.timecnt * 1 ≤ b.bytes.length - b.indicesPos →
        Q (b.indices.map fun (k : ℕ) => (k : ℤ)) ⟨b.bytes, b.typesPos⟩ d) := by
  refine wp_loop (List.map fun (k : ℕ) => (k : ℤ)) (fun _ => d) ?_ b.timecnt []
    b.indicesPos Q
  intro read pos Q
  rw [List.map_append]
  exact wp_bind.trans (wp_readUInt8 hE)

theorem wp_readLocalTime (hE : E .logicError)
    {Q : Unit → ByteFile → Data → Prop} :
    wp (readLocalTime ()) Q E ⟨bytes, pos⟩ d ↔ (6 ≤ bytes.length - pos →
      Q () ⟨bytes, pos + 6⟩
        { d with localtimes := d.localtimes ++ [localTimeAt bytes pos] }) := by
  unfold readLocalTime
  simp only [wp_bind, wp_readInt32 hE, wp_readUInt8 hE]
  constructor
  · intro h hleft
    exact h (by omega) (by omega) (by omega)
  · intro h _ _ _
    exact h (by omega)

theorem wp_readTypes (hE : E .logicError)
    {Q : Unit → ByteFile → Data → Prop} :
    wp (loop readLocalTime b.typecnt ()) Q E ⟨b.bytes, b.typesPos⟩ .empty ↔
      (b.typecnt * 6 ≤ b.bytes.length - b.typesPos →
        Q () ⟨b.bytes, b.designationsPos⟩ ⟨[], b.types, [], []⟩) := by
  refine wp_loop (fun _ => ()) (fun types => ⟨[], types, [], []⟩) ?_ b.typecnt
    [] b.typesPos Q
  intro read pos Q
  exact wp_readLocalTime hE

/-! ## Storing the transitions -/

/-- The transition at a time to the type with an index. -/
def transitionAt (types : List LocalTime) (p : ℤ × ℕ) : Transition where
  utctime := p.1
  localtime := p.1 + (types.map LocalTime.utcOffset).getD p.2 0
  localtimeIdx := p.2

/-- All indices belong to a type. -/
def IndicesInRange (types : List LocalTime) (pairs : List (ℤ × ℕ)) : Prop :=
  ∀ p ∈ pairs, p.2 < types.length

/-- The local time of a transition overflows, and no index before it is out of
range. -/
def Overflows (types : List LocalTime) : List (ℤ × ℕ) → Prop
  | [] => False
  | (time, index) :: pairs =>
      ∃ lt, types[index]? = some lt ∧
        (¬ IsInt64 (time + lt.utcOffset) ∨ Overflows types pairs)

theorem wp_addTransition (hE : E .logicError) {time : ℤ} {index : ℕ}
    {Q : Unit → ByteFile → Data → Prop} {f : ByteFile} :
    wp (Data.addTransition time index) Q E f d ↔
      ∀ lt, d.localtimes[index]? = some lt →
        (IsInt64 (time + lt.utcOffset) → Q () f { d with
          transitions := d.transitions ++
            [transitionAt d.localtimes (time, index)] }) ∧
        (¬ IsInt64 (time + lt.utcOffset) → E (.fault .signedOverflow)) := by
  unfold Data.addTransition
  rw [wp_bind, wp_getData, vectorAt_natCast_eq]
  cases htype : d.localtimes[index]? with
  | none =>
      change E .logicError ↔ _
      simp [hE]
  | some lt =>
      have hoffset : transitionAt d.localtimes (time, index) =
          ⟨time, time + lt.utcOffset, index⟩ := by
        simp [transitionAt, htype]
      rw [hoffset]
      change wp (checked (int64 (time + lt.utcOffset)) >>= _) Q E f d ↔ _
      rw [wp_bind, wp_checked]
      by_cases htime : IsInt64 (time + lt.utcOffset)
      · simp [int64, htime, wp_modifyData]
      · simp [int64, htime]

theorem wp_storeTransition (hE : E .logicError) {trans localtimes : List ℤ}
    {i : ℕ} {time : ℤ} {index : ℕ} (htime : trans[i]? = some time)
    (hindex : localtimes[i]? = some (index : ℤ))
    {Q : ℕ → ByteFile → Data → Prop} {f : ByteFile} :
    wp (storeTransition trans localtimes i) Q E f d ↔
      ∀ lt, d.localtimes[index]? = some lt →
        (IsInt64 (time + lt.utcOffset) → Q (i + 1) f { d with
          transitions := d.transitions ++
            [transitionAt d.localtimes (time, index)] }) ∧
        (¬ IsInt64 (time + lt.utcOffset) → E (.fault .signedOverflow)) := by
  unfold storeTransition
  rw [vectorAt_natCast htime, vectorAt_natCast hindex, wp_bind, wp_checked_ok,
    wp_bind, wp_checked_ok, wp_bind, wp_addTransition hE]
  exact Iff.rfl

/-- The loop over the transitions, from any of them on. -/
theorem wp_storeTransitions (hE : E .logicError) (types : List LocalTime)
    (pairs : List (ℤ × ℕ)) {Q : ℕ → ByteFile → Data → Prop} {f : ByteFile}
    (rest done : List (ℤ × ℕ)) (hpairs : pairs = done ++ rest)
    (stored : List Transition) :
    wp (loop (storeTransition (pairs.map Prod.fst)
        (pairs.map fun p => (p.2 : ℤ))) rest.length done.length) Q E f
        ⟨stored, types, [], []⟩ ↔
      (Overflows types rest → E (.fault .signedOverflow)) ∧
        (¬ Overflows types rest → IndicesInRange types rest →
          Q pairs.length f
            ⟨stored ++ rest.map (transitionAt types), types, [], []⟩) := by
  induction rest generalizing done stored with
  | nil =>
      rw [List.append_nil] at hpairs
      subst hpairs
      change Q _ f _ ↔ _
      simp [Overflows, IndicesInRange]
  | cons p rest ih =>
      obtain ⟨time, index⟩ := p
      have htime : (pairs.map Prod.fst)[done.length]? = some time := by
        simp [hpairs]
      have hindex : (pairs.map fun p => (p.2 : ℤ))[done.length]? =
          some (index : ℤ) := by
        simp [hpairs]
      have hrest : pairs = (done ++ [(time, index)]) ++ rest := by
        simp [hpairs]
      have hnext := ih (done ++ [(time, index)]) hrest
        (stored ++ [transitionAt types (time, index)])
      rw [List.length_append, List.length_singleton] at hnext
      rw [List.length_cons, loop, wp_bind, wp_storeTransition hE htime hindex,
        hnext]
      cases htype : types[index]? with
      | none =>
          have hlarge := List.getElem?_eq_none_iff.mp htype
          have hrange : ¬ IndicesInRange types ((time, index) :: rest) := by
            intro h
            exact absurd (h _ List.mem_cons_self) (by simpa using hlarge)
          simp [Overflows, htype, hrange]
      | some lt =>
          have hlt := (List.getElem?_eq_some_iff.mp htype).1
          have hrange : IndicesInRange types ((time, index) :: rest) ↔
              IndicesInRange types rest := by
            simp [IndicesInRange, hlt]
          by_cases hoverflow : IsInt64 (time + lt.utcOffset)
          · simp [Overflows, htype, hrange, hoverflow]
          · simp [Overflows, htype, hoverflow]

end EventServer.Common
