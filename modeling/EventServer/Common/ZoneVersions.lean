import EventServer.Common.ZoneFileRoundTrip

/-!
# The versions of zone files

A file of version 3 has the layout of a file of version 2: a block with times
of four bytes, a block with times of eight bytes, and a footer.  The program
compares the version with 2 alone, so that it reads the first block of a file
of version 3.
-/

namespace EventServer.Common

open EventServer.Support EventServer.Support.ByteReader

/-! ## Files with two blocks -/

/-- A transition of a second block. -/
structure WideTransition where
  time : ℤ
  type : UInt8
  deriving DecidableEq, Repr

/-- The zone of a second block, whose times have eight bytes, without leap
seconds. -/
structure WideZone where
  transitions : List WideTransition
  types : List ZoneType
  designations : List UInt8
  isstd : List UInt8
  isut : List UInt8
  footer : List UInt8
  time_isInt64 : ∀ tr ∈ transitions, IsInt64 tr.time
  types_ne : types ≠ []
  type_lt : ∀ tr ∈ transitions, tr.type.toNat < types.length
  designations_ne : designations ≠ []
  isstd_length : isstd = [] ∨ isstd.length = types.length
  isut_length : isut = [] ∨ isut.length = types.length

namespace WideZone

def counts (w : WideZone) : Counts where
  isutcnt := w.isut.length
  isstdcnt := w.isstd.length
  leapcnt := 0
  timecnt := w.transitions.length
  typecnt := w.types.length
  charcnt := w.designations.length

def dataBlock (w : WideZone) : List UInt8 :=
  w.transitions.flatMap (fun tr => signedBigEndian 8 tr.time) ++
    (w.transitions.flatMap (fun tr => [tr.type]) ++
      (w.types.flatMap ZoneType.bytes ++
        (w.designations ++ (w.isstd ++ w.isut))))

def transition (w : WideZone) (tr : WideTransition) : Transition where
  utctime := tr.time
  localtime := tr.time +
    (w.types.map ZoneType.utcOffset).getD tr.type.toNat 0
  localtimeIdx := tr.type.toNat

/-- The transitions, local time types and abbreviations in memory are those of
the zone. -/
structure StoredIn (w : WideZone) (d : Data) : Prop where
  transitions : d.transitions = w.transitions.map w.transition
  localtimes : d.localtimes = w.types.map ZoneType.localTime
  abbreviation : d.abbreviation = w.designations

end WideZone

/-- A file of version 2 or 3.  Its counts have four bytes. -/
structure TwoBlockFile where
  first : Zone
  second : WideZone
  first_fits : first.Fits .one
  first_footer : first.footer = []
  first_encodable : first.counts.Encodable
  second_encodable : second.counts.Encodable

namespace TwoBlockFile

/-- The bytes of the file, with the given version byte in both headers. -/
def encode (f : TwoBlockFile) (version : UInt8) : List UInt8 :=
  header version f.first.counts ++ (f.first.dataBlock 4 ++
    (header version f.second.counts ++
      (f.second.dataBlock ++ f.second.footer)))

/-- Under both version bytes the reading has the same result, and what it
stores is the content of the second block. -/
def VersionIndependent (stack : ℕ) (f : TwoBlockFile) : Prop :=
  ∃ accepted d d',
    readTimeZoneFile stack (some (f.encode 0x32)) .empty = .ok accepted d ∧
    readTimeZoneFile stack (some (f.encode 0x33)) .empty = .ok accepted d' ∧
    f.second.StoredIn d ∧ f.second.StoredIn d'

end TwoBlockFile

/-! ## Blocks with the same content -/

def ZoneTransition.widen (tr : ZoneTransition) : WideTransition :=
  ⟨tr.time, tr.type⟩

/-- The second block repeats the transitions, types and designations of the
first one. -/
structure WideZone.Repeats (w : WideZone) (z : Zone) : Prop where
  transitions : w.transitions = z.transitions.map ZoneTransition.widen
  types : w.types = z.types
  designations : w.designations = z.designations

/-- The counts of the first block fit into the integers of the program, and so
does the size of its types.  Its designations fit on the stack, and so do the
reserved bytes of a header. -/
structure Zone.Skippable (stack : ℕ) (z : Zone) : Prop where
  reserved : 15 ≤ stack
  designations : z.designations.length ≤ stack
  countable : z.Countable
  typeBytes : 6 * z.types.length < 2 ^ 31

theorem ZoneType.localTime_injective :
    Function.Injective ZoneType.localTime := by
  intro ty ty' heq
  obtain ⟨offset, isDst, index, hoffset⟩ := ty
  obtain ⟨offset', isDst', index', hoffset'⟩ := ty'
  simp only [ZoneType.localTime, LocalTime.mk.injEq, Nat.cast_inj,
    UInt8.toNat_inj] at heq
  obtain ⟨rfl, rfl, rfl⟩ := heq
  rfl

namespace WideZone

variable {w : WideZone} {z : Zone} {d : Data}

theorem transition_injective (w : WideZone) :
    Function.Injective w.transition := by
  intro tr tr' heq
  obtain ⟨time, type⟩ := tr
  obtain ⟨time', type'⟩ := tr'
  simp only [transition, Transition.mk.injEq, Nat.cast_inj,
    UInt8.toNat_inj] at heq
  obtain ⟨rfl, -, rfl⟩ := heq
  rfl

/-- Zones with the same types make the same of a transition. -/
theorem transition_widen (htypes : w.types = z.types) (tr : ZoneTransition) :
    w.transition tr.widen = z.transition tr := by
  unfold transition Zone.transition
  rw [htypes]
  rfl

/-- A reading of the first block stores the content of the second one exactly
if the second block repeats it. -/
theorem storedIn_data_iff {v : Version} :
    w.StoredIn (z.data v) ↔ w.Repeats z := by
  constructor
  · rintro ⟨htrans, hlocal, habbrev⟩
    have htypes : w.types = z.types :=
      (List.map_injective_iff.mpr ZoneType.localTime_injective hlocal).symm
    refine ⟨?_, htypes, habbrev.symm⟩
    apply List.map_injective_iff.mpr w.transition_injective
    rw [← htrans, List.map_map]
    exact (List.map_congr_left fun tr _ => transition_widen htypes tr).symm
  · rintro ⟨htrans, htypes, hdesig⟩
    refine ⟨?_, ?_, hdesig.symm⟩
    · rw [htrans, List.map_map]
      exact (List.map_congr_left fun tr _ => transition_widen htypes tr).symm
    · rw [htypes]
      rfl

namespace Repeats

/-- The first block with the indicators and the footer behind the second
one. -/
def zone (h : w.Repeats z) : Zone where
  transitions := z.transitions
  types := z.types
  designations := z.designations
  isstd := w.isstd
  isut := w.isut
  footer := w.footer
  types_ne := z.types_ne
  type_lt := z.type_lt
  designations_ne := z.designations_ne
  isstd_length := h.types ▸ w.isstd_length
  isut_length := h.types ▸ w.isut_length

theorem counts_zone (h : w.Repeats z) : h.zone.counts = w.counts := by
  unfold Zone.counts counts
  rw [h.transitions, h.types, h.designations, List.length_map]
  rfl

theorem dataBlock_zone (h : w.Repeats z) :
    h.zone.dataBlock 8 = w.dataBlock := by
  unfold Zone.dataBlock dataBlock
  rw [h.transitions, h.types, h.designations, List.flatMap_map,
    List.flatMap_map]
  rfl

theorem countable_zone (h : w.Repeats z) (hz : z.Countable) :
    h.zone.Countable :=
  ⟨hz.transitions, hz.types, hz.designations⟩

theorem storedIn_data_zone (h : w.Repeats z) {v : Version} :
    w.StoredIn (h.zone.data v) :=
  storedIn_data_iff.mpr ⟨h.transitions, h.types, h.designations⟩

end Repeats

end WideZone

/-! ## The size of the first block -/

namespace Zone

variable {z : Zone} {stack : ℕ} {d d' : Data}

theorem length_dataBlock (z : Zone) :
    (z.dataBlock 4).length = z.counts.blockSize := by
  have hbytes : (z.types.flatMap ZoneType.bytes).length =
      6 * z.types.length := by
    simp [List.length_flatMap, ZoneType.bytes, mul_comm]
  have htimes : (z.transitions.flatMap fun tr =>
      signedBigEndian 4 tr.time).length = 4 * z.transitions.length := by
    simp [List.length_flatMap, mul_comm]
  have hindices : (z.transitions.flatMap fun tr => [tr.type]).length =
      z.transitions.length := by
    simp [List.length_flatMap]
  unfold dataBlock Counts.blockSize counts
  simp only [List.length_append, hbytes, htimes, hindices]
  ring

/-- The program skips the first block as it is. -/
theorem Skippable.skips (h : z.Skippable stack) :
    z.counts.Skips (z.dataBlock 4) := by
  have hsize : z.counts.blockSize < 2 ^ 63 := by
    have htime := h.countable.transitions
    have hchar := h.countable.designations
    have hisstd := h.countable.isstd
    have hisut := h.countable.isut
    have htype := h.typeBytes
    simp only [Counts.blockSize, counts]
    omega
  have hleap : 8 * z.counts.leapcnt < 2 ^ 31 := by
    simp only [counts]
    decide
  refine ⟨h.countable.encodable, ?_, z.length_dataBlock.trans_lt hsize⟩
  rw [h.countable.read_eq, z.length_dataBlock]
  exact z.counts.skipSize_eq h.typeBytes hleap (by omega)

theorem Countable.skipSize_overflows (h : z.Countable)
    (hlarge : 2 ^ 31 ≤ 6 * z.types.length) :
    skipSize z.counts.read = .error .signedOverflow := by
  have hint : int (6 * (z.types.length : ℤ)) = .error .signedOverflow := by
    apply if_neg
    rintro ⟨-, hlt⟩
    omega
  rw [h.read_eq]
  unfold skipSize
  dsimp only
  rw [hint]
  rfl

/-- A block whose counts do not fit, or whose designations do not fit on the
stack, is not read.  Its designations are not stored. -/
theorem throws_unfit {v : Version} {xs : List UInt8}
    (hcounts : z.counts.Encodable) (hz : z.Fits v)
    (hunfit : z.Countable → stack < z.designations.length) :
    ∃ e d', Throws (readDataBlock stack v.v1) .empty
      (z.counts.bytes ++ (z.dataBlock v.timeSize ++ xs)) e d' ∧
      d'.abbreviation = [] := by
  by_cases htrans : 2 ^ 31 ≤ z.transitions.length
  · exact ⟨_, _, throws_many_transitions hcounts htrans, rfl⟩
  by_cases htypes : 2 ^ 31 ≤ z.types.length
  · exact ⟨_, _, throws_many_types hcounts hz (by omega) htypes, rfl⟩
  by_cases hdesig : 2 ^ 31 ≤ z.designations.length
  · exact ⟨_, _, throws_many_designations hcounts hz (by omega) (by omega)
      hdesig, rfl⟩
  have hcount : z.Countable := ⟨by omega, by omega, by omega⟩
  exact ⟨_, _, throws_large_designations hcount hz (hunfit hcount), rfl⟩

end Zone

/-! ## The two readings -/

namespace TwoBlockFile

variable {f : TwoBlockFile} {stack : ℕ} {d : Data} {accepted : Bool}

/-- Version 3: the first block is read. -/
theorem read_three (h : f.first.Countable) (hstack : 15 ≤ stack)
    (hdesig : f.first.designations.length ≤ stack) :
    readTimeZoneFile stack (some (f.encode 0x33)) .empty =
      .ok true (f.first.data .one) := by
  rw [encode, ← List.append_assoc]
  exact Zone.readTimeZoneFile_of_reads
    (Zone.reads_readOpened_one h f.first_fits hstack hdesig (by decide))

/-- Version 2: the second block is read, if it repeats a zone that fits. -/
theorem read_two (h : f.first.Skippable stack) {z : Zone}
    (hrepeats : f.second.Repeats z) (hz : z.Countable)
    (hdesig : z.designations.length ≤ stack) (block : FirstBlock) :
    readTimeZoneFile stack (some (f.encode 0x32)) .empty =
      .ok true (hrepeats.zone.data (.two block)) := by
  have hfits : hrepeats.zone.Fits (.two block) := trivial
  have hblock : Reads (readDataBlock stack false) .empty
      (hrepeats.zone.counts.bytes ++
        (hrepeats.zone.dataBlock 8 ++ f.second.footer)) [] true
      (hrepeats.zone.data (.two block)) :=
    Zone.reads_readDataBlock (hrepeats.countable_zone hz) hfits hdesig
      (Or.inr rfl)
  rw [hrepeats.counts_zone, hrepeats.dataBlock_zone] at hblock
  rw [← List.append_nil (f.encode 0x32)]
  exact Zone.readTimeZoneFile_of_reads
    (reads_readOpened_second h.skips h.reserved hblock)

/-- A reading that stores designations does not throw before. -/
theorem abbreviation_of_throws {bytes : List UInt8} {e : ReadError} {d' : Data}
    (hthrows : Throws (readOpened stack) .empty bytes e d')
    (hread : readTimeZoneFile stack (some bytes) .empty = .ok accepted d) :
    d.abbreviation = d'.abbreviation := by
  cases e with
  | logicError =>
      have heq := (Zone.readTimeZoneFile_of_logicError hthrows).symm.trans hread
      injection heq with _ hd
      rw [hd]
  | fault fault =>
      have heq := (Zone.readTimeZoneFile_of_fault hthrows).symm.trans hread
      injection heq

/-- What is stored of a file of version 3 has been read from a first block
that fits. -/
theorem first_of_read_three
    (hread : readTimeZoneFile stack (some (f.encode 0x33)) .empty =
      .ok accepted d) (hstored : d.abbreviation ≠ []) :
    15 ≤ stack ∧ f.first.Countable ∧
      f.first.designations.length ≤ stack := by
  by_contra hunfit
  by_cases hstack : 15 ≤ stack
  · have hlarge : f.first.Countable →
        stack < f.first.designations.length := by
      intro hcount
      by_contra hdesig
      exact hunfit ⟨hstack, hcount, by omega⟩
    obtain ⟨e, d', hblock, hd'⟩ := Zone.throws_unfit (v := .one)
      f.first_encodable f.first_fits hlarge
    have hthrows : Throws (readOpened stack) .empty (f.encode 0x33) e d' :=
      throws_readOpened_first (by decide) f.first_encodable hstack hblock
    exact hstored ((abbreviation_of_throws hthrows hread).trans hd')
  · have hsmall : stack < 15 := by omega
    exact hstored
      (abbreviation_of_throws (throws_readOpened_small hsmall) hread)

/-- The size of the types of the first block is computed on `int`. -/
theorem typeBytes_of_read_two
    (hread : readTimeZoneFile stack (some (f.encode 0x32)) .empty =
      .ok accepted d) (hstored : d.abbreviation ≠ []) (hstack : 15 ≤ stack)
    (hcount : f.first.Countable) : 6 * f.first.types.length < 2 ^ 31 := by
  by_contra hlarge
  have hsize := hcount.skipSize_overflows (by omega)
  exact hstored (abbreviation_of_throws
    (throws_readOpened_size f.first_encodable hstack hsize) hread)

/-- The version does not matter exactly if the second block repeats the first
one, which the program has room for. -/
theorem versionIndependent_iff (stack : ℕ) (f : TwoBlockFile) :
    f.VersionIndependent stack ↔
      f.second.Repeats f.first ∧ f.first.Skippable stack := by
  constructor
  · rintro ⟨accepted, d, d', htwo, hthree, hstored, hstored'⟩
    have hne : d.abbreviation ≠ [] :=
      hstored.abbreviation ▸ f.second.designations_ne
    have hne' : d'.abbreviation ≠ [] :=
      hstored'.abbreviation ▸ f.second.designations_ne
    obtain ⟨hstack, hcount, hdesig⟩ := first_of_read_three hthree hne'
    have hfirst := (read_three hcount hstack hdesig).symm.trans hthree
    injection hfirst with _ hd
    have hrepeats := WideZone.storedIn_data_iff.mp (hd ▸ hstored')
    have hbytes := typeBytes_of_read_two htwo hne hstack hcount
    exact ⟨hrepeats, hstack, hdesig, hcount, hbytes⟩
  · rintro ⟨hrepeats, hskip⟩
    have htwo := read_two hskip hrepeats hskip.countable hskip.designations
      leapBlock
    have hthree := read_three hskip.countable hskip.reserved hskip.designations
    exact ⟨true, _, _, htwo, hthree, hrepeats.storedIn_data_zone,
      WideZone.storedIn_data_iff.mpr hrepeats⟩

end TwoBlockFile

/-! ## A file with a minimal first block -/

/-- A second block with the last transitions of China behind a first block
without transitions, with a type and a designation byte. -/
def minimalFirst : TwoBlockFile where
  first := .uniform 0 1 1 (by decide) (by decide)
  second :=
    { transitions := prcZone.transitions.map ZoneTransition.widen
      types := prcZone.types
      designations := prcZone.designations
      isstd := prcZone.isstd
      isut := prcZone.isut
      footer := prcZone.footer
      time_isInt64 := by decide
      types_ne := prcZone.types_ne
      type_lt := by decide
      designations_ne := prcZone.designations_ne
      isstd_length := prcZone.isstd_length
      isut_length := prcZone.isut_length }
  first_fits := by
    intro tr htr
    simp [Zone.uniform] at htr
  first_footer := rfl
  first_encodable :=
    Zone.uniform_encodable (by decide) (by decide) (by decide)
  second_encodable := by
    constructor
    all_goals decide

/-- Under both versions the file is accepted, under version 3 as the zone of
its first block. -/
theorem minimalFirst_not_versionIndependent :
    readTimeZoneFile 4096 (some (minimalFirst.encode 0x32)) .empty =
        .ok true (prcZone.data (.two leapBlock)) ∧
      readTimeZoneFile 4096 (some (minimalFirst.encode 0x33)) .empty =
        .ok true ⟨[], [⟨0, false, 0⟩], [0], []⟩ ∧
      ¬ minimalFirst.VersionIndependent 4096 := by
  have hskip : minimalFirst.first.Skippable 4096 :=
    ⟨by decide, by decide, ⟨by decide, by decide, by decide⟩, by decide⟩
  have hrepeats : minimalFirst.second.Repeats prcZone := ⟨rfl, rfl, rfl⟩
  have hprc : prcZone.Countable := ⟨by decide, by decide, by decide⟩
  have htwo := TwoBlockFile.read_two hskip hrepeats hprc (by decide) leapBlock
  have hthree := TwoBlockFile.read_three hskip.countable hskip.reserved
    hskip.designations
  refine ⟨htwo, hthree, ?_⟩
  rintro ⟨accepted, d, d', -, hread, -, hstored⟩
  injection hthree.symm.trans hread with _ hd
  have hdesig := hstored.abbreviation
  rw [← hd] at hdesig
  exact absurd hdesig (by decide)

end EventServer.Common
