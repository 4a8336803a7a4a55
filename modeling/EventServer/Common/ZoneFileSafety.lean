import EventServer.Common.ZoneFileLayout

/-!
# Reading malformed zone files

Every failure on a malformed file is an exception that the program catches,
except for two: the length of an array that is taken from the file and may be
negative, and products and sums that may overflow.  A file that is accepted is
stored with the numbers of its counters.
-/

namespace EventServer.Common

open EventServer.Support EventServer.Support.ByteReader
open File

namespace Block

/-- The transitions as they stand in the block. -/
def pairs (b : Block) : List (ℤ × ℕ) := b.times.zip b.indices

/-- The sections in front of the designations are there, and the counters pass
the checks. -/
structure Complete (b : Block) : Prop where
  leapcnt : b.counters.leapcnt = 0
  isutccnt : b.counters.isutccnt = 0 ∨
    b.counters.isutccnt = b.counters.typecnt
  isstdcnt : b.counters.isstdcnt = 0 ∨
    b.counters.isstdcnt = b.counters.typecnt
  timecnt : 0 ≤ b.counters.timecnt
  typecnt : 0 ≤ b.counters.typecnt
  sections : b.designationsPos ≤ b.bytes.length

/-- What is stored has the numbers of the counters, and all its indices are
below the number of types. -/
structure Counted (b : Block) (d : Data) : Prop where
  transitions : d.transitions.length = b.counters.timecnt
  localtimes : d.localtimes.length = b.counters.typecnt
  abbreviation : d.abbreviation.length = b.counters.charcnt
  index_lt : ∀ t ∈ d.transitions,
    0 ≤ t.localtimeIdx ∧ t.localtimeIdx < b.counters.typecnt

/-- The data that is stored before the designations are read. -/
def stored (b : Block) : Data where
  transitions := b.pairs.map (transitionAt b.types)
  localtimes := b.types
  abbreviation := []
  tzstring := []

theorem times_length (b : Block) : b.times.length = b.timecnt :=
  itemsAt_length _ _ _ _

theorem indices_length (b : Block) : b.indices.length = b.timecnt :=
  itemsAt_length _ _ _ _

theorem types_length (b : Block) : b.types.length = b.typecnt :=
  itemsAt_length _ _ _ _

theorem pairs_length (b : Block) : b.pairs.length = b.timecnt := by
  rw [pairs, List.length_zip, times_length, indices_length, min_self]

theorem pairs_fst (b : Block) : b.pairs.map Prod.fst = b.times :=
  List.map_fst_zip (by rw [times_length, indices_length])

theorem pairs_snd (b : Block) :
    b.pairs.map (fun p => (p.2 : ℤ)) =
      b.indices.map fun (k : ℕ) => (k : ℤ) := by
  have hsnd : b.pairs.map Prod.snd = b.indices :=
    List.map_snd_zip (by rw [times_length, indices_length])
  rw [← hsnd, List.map_map]
  rfl

/-- A complete block is stored with the numbers of its counters. -/
theorem Complete.counted {b : Block} (h : b.Complete)
    (hrange : IndicesInRange b.types b.pairs) {text tzstring : List UInt8}
    (htext : (text.length : ℤ) = b.counters.charcnt) :
    b.Counted ⟨b.stored.transitions, b.types, text, tzstring⟩ where
  transitions := by
    have htimecnt : (b.timecnt : ℤ) = b.counters.timecnt :=
      Int.toNat_of_nonneg h.timecnt
    rw [← htimecnt, stored, List.length_map, pairs_length]
  localtimes := by
    have htypecnt : (b.typecnt : ℤ) = b.counters.typecnt :=
      Int.toNat_of_nonneg h.typecnt
    rw [← htypecnt, types_length]
  abbreviation := htext
  index_lt := by
    intro t ht
    obtain ⟨p, hp, rfl⟩ := List.mem_map.mp ht
    have hlt := hrange p hp
    rw [types_length] at hlt
    have htypecnt : (b.typecnt : ℤ) = b.counters.typecnt :=
      Int.toNat_of_nonneg h.typecnt
    rw [← htypecnt]
    exact ⟨Int.natCast_nonneg _, Int.ofNat_lt.mpr hlt⟩

end Block

/-! ## Reading a block -/

variable {E : ReadError → Prop}

/-- The end of a block, from the designations on. -/
def readDesignations (stack : ℕ) (v1 : Bool) (c : Counters) :
    Reading Bool := do
  let time_size : ℤ := if v1 then 4 else 8
  let abbreviation ← readBytes stack c.charcnt
  modifyData fun d => { d with abbreviation := abbreviation }
  let _ ← skip (← checked (int (c.leapcnt * (time_size + 4))))
  let _ ← skip c.isstdcnt
  let _ ← skip c.isutccnt
  if !v1 then
    let tzstring ← readToEnd
    modifyData fun d => { d with tzstring := tzstring }
  return true

theorem wp_readDesignations (hE : E .logicError)
    (hoverflow : E (.fault .stackOverflow)) {stack : ℕ} {b : Block}
    (h : b.Complete) (hrange : IndicesInRange b.types b.pairs) :
    wp (readDesignations stack b.v1 b.counters)
        (fun result _ d => result = true → b.Counted d) E
        ⟨b.bytes, b.designationsPos⟩ b.stored ↔
      (b.counters.charcnt < 0 → E (.fault .stackArray)) := by
  unfold readDesignations
  rw [wp_bind, wp_readBytes hE]
  constructor
  · intro hread
    exact hread.1
  · intro hnegative
    refine ⟨hnegative, fun _ _ => hoverflow, ?_⟩
    intro hnonneg _ hleft
    have htext : ((segment b.bytes b.designationsPos
        b.counters.charcnt.toNat).length : ℤ) = b.counters.charcnt := by
      rw [segment_length, min_eq_left hleft, Int.toNat_of_nonneg hnonneg]
    rw [h.leapcnt, zero_mul, int_of (by decide) (by decide), wp_bind,
      wp_modifyData, wp_bind, wp_checked_ok]
    cases b.v1 with
    | true => exact fun _ => h.counted hrange htext
    | false =>
        change wp (readToEnd >>= _) _ E _ _
        rw [wp_bind]
        exact wp_readToEnd (fun _ _ _ => h.counted hrange htext) _

/-- Where a block makes the reading fail: an overflow of a local time, or a
negative number of designation bytes. -/
def Block.FailsWithin (b : Block) (E : ReadError → Prop) : Prop :=
  b.Complete →
    (Overflows b.types b.pairs → E (.fault .signedOverflow)) ∧
      (¬ Overflows b.types b.pairs → IndicesInRange b.types b.pairs →
        b.counters.charcnt < 0 → E (.fault .stackArray))

theorem wp_readDataBlock (hE : E .logicError)
    (hoverflow : E (.fault .stackOverflow)) {stack : ℕ} (b : Block) :
    wp (readDataBlock stack b.v1)
        (fun result _ d => result = true → b.Counted d) E ⟨b.bytes, b.pos⟩
        .empty ↔ b.FailsWithin E := by
  have htimes : IsInt b.counters.timecnt := int32At_isInt _ _
  have htypes : IsInt b.counters.typecnt := int32At_isInt _ _
  have hpos : b.timesPos = b.pos + 24 := rfl
  have hindices : b.indicesPos = b.timesPos + b.timecnt * b.timeSize := rfl
  have htypesPos : b.typesPos = b.indicesPos + b.timecnt * 1 := rfl
  have hend : b.designationsPos = b.typesPos + b.typecnt * 6 := rfl
  unfold readDataBlock Block.FailsWithin
  refine wp_bind.trans ((wp_readCounters hE).trans ?_)
  refine imp_iff_imp_of_imp (fun h => ?_) (fun hheader => ?_)
  · have := h.sections
    omega
  refine wp_ite_pure nofun (fun h => not_not.mpr h.leapcnt) (fun hleap => ?_)
  refine wp_ite_pure nofun (fun h => ?_) (fun hisut => ?_)
  · rintro ⟨hne, hne'⟩
    exact h.isutccnt.elim hne hne'
  refine wp_ite_pure nofun (fun h => ?_) (fun hisstd => ?_)
  · rintro ⟨hne, hne'⟩
    exact h.isstdcnt.elim hne hne'
  refine wp_bind.trans ((wp_reserve hE htimes (by decide)).trans ?_)
  refine imp_iff_imp_of_imp Block.Complete.timecnt (fun htimecnt => ?_)
  refine wp_bind.trans ((wp_readTimes b hE).trans ?_)
  refine imp_iff_imp_of_imp (fun h => ?_) (fun htimesLeft => ?_)
  · have := h.sections
    omega
  refine wp_bind.trans ((wp_reserve hE htimes (by decide)).trans ?_)
  refine imp_iff_imp_of_imp Block.Complete.timecnt (fun _ => ?_)
  refine wp_bind.trans ((wp_readIndices b hE).trans ?_)
  refine imp_iff_imp_of_imp (fun h => ?_) (fun hindicesLeft => ?_)
  · have := h.sections
    omega
  refine wp_bind.trans ((wp_reserve hE htypes (by decide)).trans ?_)
  refine imp_iff_imp_of_imp Block.Complete.typecnt (fun htypecnt => ?_)
  refine wp_bind.trans ((wp_readTypes b hE).trans ?_)
  refine imp_iff_imp_of_imp (fun h => ?_) (fun htypesLeft => ?_)
  · have := h.sections
    omega
  have hcomplete : b.Complete := by
    refine ⟨not_not.mp hleap, ?_, ?_, htimecnt, htypecnt, by omega⟩
    · by_contra hne
      exact hisut (not_or.mp hne)
    · by_contra hne
      exact hisstd (not_or.mp hne)
  rw [imp_iff_right hcomplete]
  have hstore := wp_storeTransitions hE b.types b.pairs b.pairs [] rfl []
    (Q := fun _ f d => wp (readDesignations stack b.v1 b.counters)
      (fun result _ d => result = true → b.Counted d) E f d)
    (f := ⟨b.bytes, b.designationsPos⟩)
  rw [b.pairs_fst, b.pairs_snd, b.pairs_length] at hstore
  refine wp_bind.trans (hstore.trans ?_)
  refine and_congr_right fun _ => imp_congr_right fun _ =>
    forall_congr' fun hrange => ?_
  exact wp_readDesignations hE hoverflow hcomplete hrange

/-! ## Reading a file -/

theorem wp_readBytes_of_nonneg (hE : E .logicError)
    (hoverflow : E (.fault .stackOverflow)) {stack : ℕ} {n : ℤ} (hn : 0 ≤ n)
    {bytes : List UInt8} {pos : ℕ} {d : Data}
    {Q : List UInt8 → ByteFile → Data → Prop} :
    wp (readBytes stack n) Q E ⟨bytes, pos⟩ d ↔
      (n ≤ stack → n.toNat ≤ bytes.length - pos →
        Q (segment bytes pos n.toNat) ⟨bytes, pos + n.toNat⟩ d) := by
  rw [wp_readBytes hE]
  constructor
  · intro h
    exact h.2.2 hn
  · intro h
    exact ⟨fun hneg => absurd hneg (not_lt.mpr hn), fun _ _ => hoverflow,
      fun _ => h⟩

theorem wp_readHead (hE : E .logicError)
    (hoverflow : E (.fault .stackOverflow)) {stack : ℕ} {bytes : List UInt8}
    {pos : ℕ} {d : Data} {Q : Unit → ByteFile → Data → Prop} :
    wp (readHead stack) Q E ⟨bytes, pos⟩ d ↔
      (4 ≤ stack → segment bytes pos 4 = magic → Q () ⟨bytes, pos + 4⟩ d) := by
  unfold readHead
  rw [wp_bind, wp_readBytes_of_nonneg hE hoverflow (by decide)]
  change (_ → 4 ≤ bytes.length - pos →
    wp (if segment bytes pos 4 ≠ magic then throw .logicError else pure ())
      Q E ⟨bytes, pos + 4⟩ d) ↔ _
  rw [wp_ite, wp_throw, wp_pure]
  constructor
  · intro h hstack hmagic
    have hleft : 4 ≤ bytes.length - pos := by
      have hlength := segment_length bytes pos 4
      rw [hmagic, show magic.length = 4 from rfl] at hlength
      omega
    exact (h (by omega) hleft).2 (not_not.mpr hmagic)
  · intro h hstack hleft
    exact ⟨fun _ => hE, fun hmagic => h (by omega) (not_not.mp hmagic)⟩

/-- The header is there, and the stack has room for it. -/
structure Headed (stack : ℕ) (bytes : List UInt8) : Prop where
  stack_le : 15 ≤ stack
  magic_eq : segment bytes 0 4 = magic
  length_le : 44 ≤ bytes.length

/-- The block behind one of the given size, if there is a header. -/
def secondBlock (bytes : List UInt8) (size : ℤ) : Option Block :=
  let pos := seekTo 44 (size.bmod (2 ^ 64))
  if segment bytes pos 4 = magic then some ⟨bytes, pos + 20, false⟩ else none

/-- The block that the program reads, if it finds one.  For version 2 its
position depends on the counters of the block in front, which may overflow. -/
def blockOf (bytes : List UInt8) : Except Fault (Option Block) :=
  if segment bytes 4 1 = [0x32] then do
    let size ← skipSize (countersAt bytes 20)
    return secondBlock bytes size
  else return some ⟨bytes, 20, true⟩

/-- Where the block that was looked for makes the reading fail. -/
def BlockFailsWithin (E : ReadError → Prop) :
    Except Fault (Option Block) → Prop
  | .error fault => E (.fault fault)
  | .ok none => True
  | .ok (some b) => b.FailsWithin E

/-- Where a file makes the reading fail. -/
def FileFailsWithin (stack : ℕ) (bytes : List UInt8) (E : ReadError → Prop) :
    Prop :=
  Headed stack bytes → BlockFailsWithin E (blockOf bytes)

/-- An accepted file is stored as one of the blocks that were looked for. -/
def StoredOf (found : Except Fault (Option Block)) (result : Bool)
    (_ : ByteFile) (d : Data) : Prop :=
  result = true → ∃ b, found = .ok (some b) ∧ b.Counted d

theorem wp_foundBlock (hE : E .logicError)
    (hoverflow : E (.fault .stackOverflow)) {stack : ℕ} (b : Block) :
    wp (readDataBlock stack b.v1) (StoredOf (.ok (some b))) E ⟨b.bytes, b.pos⟩
        .empty ↔ b.FailsWithin E := by
  refine Iff.trans (wp_congr ?_) (wp_readDataBlock hE hoverflow b)
  intro result _ d
  simp [StoredOf]

/-- The second block of version 2. -/
theorem wp_secondBlock (hE : E .logicError)
    (hoverflow : E (.fault .stackOverflow)) {stack : ℕ} (hstack : 4 ≤ stack)
    {bytes : List UInt8} (size : ℤ) :
    wp (do
        let _ ← skip (size.bmod (2 ^ 64))
        readHead stack
        let _ ← skip 16
        readDataBlock stack false)
      (StoredOf (.ok (secondBlock bytes size))) E ⟨bytes, 44⟩ .empty ↔
        BlockFailsWithin E (.ok (secondBlock bytes size)) := by
  refine wp_bind.trans ((wp_fseek _).trans ?_)
  refine wp_bind.trans ((wp_readHead hE hoverflow).trans ?_)
  rw [imp_iff_right hstack, secondBlock]
  by_cases hmagic : segment bytes (seekTo 44 (size.bmod (2 ^ 64))) 4 = magic
  · rw [if_pos hmagic, imp_iff_right hmagic]
    refine wp_bind.trans ((wp_fseek _).trans ?_)
    exact wp_foundBlock hE hoverflow
      ⟨bytes, seekTo 44 (size.bmod (2 ^ 64)) + 20, false⟩
  · rw [if_neg hmagic]
    exact iff_of_true (fun h => absurd h hmagic) trivial

theorem wp_readOpened (hE : E .logicError)
    (hoverflow : E (.fault .stackOverflow)) {stack : ℕ}
    {bytes : List UInt8} :
    wp (readOpened stack) (StoredOf (blockOf bytes)) E ⟨bytes, 0⟩ .empty ↔
      FileFailsWithin stack bytes E := by
  unfold readOpened FileFailsWithin
  refine wp_bind.trans ((wp_readHead hE hoverflow).trans ?_)
  refine imp_iff_imp_of_imp (fun h => ?_) (fun _ => ?_)
  · have := h.stack_le
    omega
  refine imp_iff_imp_of_imp Headed.magic_eq (fun hmagic => ?_)
  refine wp_bind.trans
    ((wp_readBytes_of_nonneg hE hoverflow (by decide)).trans ?_)
  refine imp_iff_imp_of_imp (fun h => ?_) (fun _ => ?_)
  · have := h.stack_le
    omega
  refine imp_iff_imp_of_imp (fun h => ?_) (fun _ => ?_)
  · have := h.length_le
    omega
  refine wp_bind.trans
    ((wp_readBytes_of_nonneg hE hoverflow (by decide)).trans ?_)
  refine imp_iff_imp_of_imp (fun h => ?_) (fun hstack => ?_)
  · have := h.stack_le
    omega
  refine imp_iff_imp_of_imp (fun h => ?_) (fun _ => ?_)
  · have := h.length_le
    omega
  refine wp_bind.trans ((wp_readCounters hE).trans ?_)
  refine imp_iff_imp_of_imp (fun h => ?_) (fun hlength => ?_)
  · have := h.length_le
    omega
  have hheaded : Headed stack bytes := ⟨by omega, hmagic, by omega⟩
  rw [imp_iff_right hheaded]
  by_cases hversion : segment bytes 4 1 = [0x32]
  · rw [blockOf, if_pos hversion]
    refine (iff_of_eq (congrArg (wp · _ E _ _) (if_pos hversion))).trans ?_
    change wp (checked (skipSize (countersAt bytes 20)) >>= _) _ E
      ⟨bytes, 44⟩ _ ↔ _
    cases skipSize (countersAt bytes 20) with
    | error fault => exact Iff.rfl
    | ok size => exact wp_secondBlock hE hoverflow (by omega) size
  · rw [blockOf, if_neg hversion]
    refine (iff_of_eq (congrArg (wp · _ E _ _) (if_neg hversion))).trans ?_
    refine wp_bind.trans ((wp_fseek _).trans ?_)
    exact wp_foundBlock hE hoverflow ⟨bytes, 20, true⟩

/-! ## Safety -/

/-- Memory aside, the reading of a file ends with its result, or with an
exception that is caught, and an accepted file is stored with the numbers of
its counters. -/
def SafelyRead (stack : ℕ) (bytes : List UInt8) : Prop :=
  match readTimeZoneFile stack (some bytes) .empty with
  | .ok true d => ∃ b, blockOf bytes = .ok (some b) ∧ b.Counted d
  | .ok false _ => True
  | .error fault _ => fault = .stackOverflow

/-- A caught exception, or the end of the memory. -/
def Harmless (e : ReadError) : Prop :=
  e = .logicError ∨ e = .fault .stackOverflow

/-- The counters in front of the second block do not overflow.  In a block that
is complete no local time overflows in front of an index that is out of range,
and if no index is, then the number of designation bytes is not negative. -/
structure WellCounted (bytes : List UInt8) : Prop where
  found : ∀ fault, blockOf bytes ≠ .error fault
  localtimes : ∀ b, blockOf bytes = .ok (some b) → b.Complete →
    ¬ Overflows b.types b.pairs
  designations : ∀ b, blockOf bytes = .ok (some b) → b.Complete →
    IndicesInRange b.types b.pairs → 0 ≤ b.counters.charcnt

/-- What `readTimeZoneFile` makes of the outcome of its `try` block. -/
theorem wp_readOpened_iff (hE : E .logicError) {stack : ℕ}
    {bytes : List UInt8} {found : Except Fault (Option Block)} :
    wp (readOpened stack) (StoredOf found) E ⟨bytes, 0⟩ .empty ↔
      (∀ d, readTimeZoneFile stack (some bytes) .empty = .ok true d →
        ∃ b, found = .ok (some b) ∧ b.Counted d) ∧
      ∀ fault d, readTimeZoneFile stack (some bytes) .empty = .error fault d →
        E (.fault fault) := by
  unfold readTimeZoneFile wp
  dsimp only [EStateM.run]
  cases readOpened stack (⟨bytes, 0⟩, .empty) with
  | ok result s =>
      cases result with
      | true => simp [StoredOf]
      | false => simp [StoredOf]
  | error e s =>
      cases e with
      | logicError => simp [hE]
      | fault fault => simp

theorem safelyRead_iff_wp {stack : ℕ} {bytes : List UInt8} :
    SafelyRead stack bytes ↔
      wp (readOpened stack) (StoredOf (blockOf bytes)) Harmless ⟨bytes, 0⟩
        .empty := by
  rw [wp_readOpened_iff (Or.inl rfl), SafelyRead]
  cases readTimeZoneFile stack (some bytes) .empty with
  | ok result d =>
      cases result with
      | true => simp
      | false => simp
  | error fault d => simp [Harmless]

theorem blockOf_onlyOverflows (bytes : List UInt8) :
    OnlyOverflows (blockOf bytes) := by
  refine .ite (fun _ => ?_) (fun _ => .ok _)
  refine .bind ?_ (fun _ _ => .ok _)
  exact .bind (.int _) fun _ _ => .bind (.int _) fun _ _ => .ok _

theorem failsWithin_harmless_iff {b : Block} :
    b.FailsWithin Harmless ↔ (b.Complete → ¬ Overflows b.types b.pairs ∧
      (IndicesInRange b.types b.pairs → 0 ≤ b.counters.charcnt)) := by
  have hoverflow : ¬ Harmless (.fault .signedOverflow) := by simp [Harmless]
  have hnegative : ¬ Harmless (.fault .stackArray) := by simp [Harmless]
  unfold Block.FailsWithin
  refine imp_congr_right fun _ => ?_
  constructor
  · rintro ⟨h, h'⟩
    refine ⟨fun hover => hoverflow (h hover), ?_⟩
    intro hrange
    by_contra hneg
    exact hnegative (h' (fun hover => hoverflow (h hover)) hrange
      (not_le.mp hneg))
  · rintro ⟨h, h'⟩
    refine ⟨fun hover => absurd hover h, ?_⟩
    intro _ hrange hneg
    exact absurd (h' hrange) (not_le.mpr hneg)

theorem blockFailsWithin_harmless_iff {bytes : List UInt8} :
    BlockFailsWithin Harmless (blockOf bytes) ↔ WellCounted bytes := by
  cases hblock : blockOf bytes with
  | error fault =>
      have hfault := blockOf_onlyOverflows bytes fault hblock
      refine iff_of_false ?_ (fun h => h.found fault hblock)
      simp [BlockFailsWithin, Harmless, hfault]
  | ok found =>
      cases found with
      | none =>
          refine iff_of_true trivial ⟨?_, ?_, ?_⟩
          · simp [hblock]
          · simp [hblock]
          · simp [hblock]
      | some b =>
          refine failsWithin_harmless_iff.trans ?_
          constructor
          · intro h
            refine ⟨by simp [hblock], ?_, ?_⟩
            · intro b' hb' hcomplete
              obtain rfl : b = b' := by simpa [hblock] using hb'
              exact (h hcomplete).1
            · intro b' hb' hcomplete
              obtain rfl : b = b' := by simpa [hblock] using hb'
              exact (h hcomplete).2
          · intro h hcomplete
            exact ⟨h.localtimes b hblock hcomplete,
              h.designations b hblock hcomplete⟩

/-- The reading of a file is safe if and only if its header is not read, or its
counters go well. -/
theorem safelyRead_iff (stack : ℕ) (bytes : List UInt8) :
    SafelyRead stack bytes ↔ (Headed stack bytes → WellCounted bytes) :=
  safelyRead_iff_wp.trans
    ((wp_readOpened (Or.inl rfl) (Or.inr rfl)).trans
      (imp_congr_right fun _ => blockFailsWithin_harmless_iff))

theorem loadZoneFile_eq_some_iff {stack : ℕ}
    {zonefile : Option (List UInt8)} {d : Data} :
    TimeZone.loadZoneFile stack zonefile = .ok ⟨some d⟩ ↔
      readTimeZoneFile stack zonefile .empty = .ok true d := by
  unfold TimeZone.loadZoneFile
  cases readTimeZoneFile stack zonefile .empty with
  | ok result d =>
      cases result with
      | true => simp
      | false => simp
  | error fault d => simp

theorem loadZoneFile_eq_error_iff {stack : ℕ}
    {zonefile : Option (List UInt8)} {fault : Fault} :
    TimeZone.loadZoneFile stack zonefile = .error fault ↔
      ∃ d, readTimeZoneFile stack zonefile .empty = .error fault d := by
  unfold TimeZone.loadZoneFile
  cases readTimeZoneFile stack zonefile .empty with
  | ok result d =>
      cases result with
      | true => simp
      | false => simp
  | error fault d => simp

theorem not_safelyRead {stack : ℕ} {bytes : List UInt8} {fault : Fault}
    (hload : TimeZone.loadZoneFile stack (some bytes) = .error fault)
    (hfault : fault ≠ .stackOverflow) : ¬ SafelyRead stack bytes := by
  obtain ⟨d, hread⟩ := loadZoneFile_eq_error_iff.mp hload
  rw [SafelyRead, hread]
  exact hfault

/-- A header of version 1 with `-1` designation bytes, and nothing else. -/
def negativeCharcnt : List UInt8 :=
  magic ++ List.replicate 36 0 ++ List.replicate 4 0xff

/-- The negative counter reaches `readBytes`. -/
theorem negativeCharcnt_unsafe : ¬ SafelyRead 8388608 negativeCharcnt := by
  have hload : TimeZone.loadZoneFile 8388608 (some negativeCharcnt) =
      .error .stackArray := by
    decide +kernel
  exact not_safelyRead hload (by decide)

end EventServer.Common
