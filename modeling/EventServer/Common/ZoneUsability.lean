import EventServer.Common.ZoneFileSafety

/-!
# The zones of accepted files

Whatever the order of its transitions, a zone with at least one type, whose
transitions all refer to types, is searched without leaving its vectors.  Files
are accepted without any type, too, and then there is no type to fall back on.
-/

namespace EventServer.Common

open EventServer.Support EventServer.Support.ByteReader

/-! ## Searching a zone in any order -/

namespace Data

/-- There are types, and all transitions refer to one of them. -/
structure Indexed (d : Data) : Prop where
  types : d.localtimes ≠ []
  index : ∀ t ∈ d.transitions,
    0 ≤ t.localtimeIdx ∧ t.localtimeIdx < d.localtimes.length

variable {d : Data}

theorem Indexed.first (h : d.Indexed) :
    OnlyOverflows (vectorAt d.localtimes 0) := by
  have hpos := List.length_pos_iff.mpr h.types
  obtain ⟨lt, -, hlt⟩ := exists_vectorAt (le_refl 0) (Int.natCast_pos.mpr hpos)
  rw [hlt]
  exact .ok lt

theorem Indexed.typeOf (h : d.Indexed) {t : Transition}
    (ht : t ∈ d.transitions) :
    OnlyOverflows (vectorAt d.localtimes t.localtimeIdx) := by
  obtain ⟨hnonneg, hlt⟩ := h.index t ht
  obtain ⟨lt, -, hlt⟩ := exists_vectorAt hnonneg hlt
  rw [hlt]
  exact .ok lt

/-- A program that goes on with a transition inside the vector. -/
theorem onlyOverflows_transition {α : Type} {i : ℤ} (hi : 0 ≤ i)
    (hlt : i < d.transitions.length) {f : Transition → Except Fault α}
    (hf : ∀ t ∈ d.transitions, OnlyOverflows (f t)) :
    OnlyOverflows (vectorAt d.transitions i >>= f) := by
  obtain ⟨t, ht, hget⟩ := exists_vectorAt hi hlt
  rw [hget]
  exact hf t ht

/-- The search does not return the first position, although the transitions may
be in any order: only an element that is not `after` ends up in front. -/
theorem upperBound_pos {key : Transition → ℤ} {value : ℤ}
    (h : ¬ d.beforeFirst key value) :
    upperBound (fun t => decide (value < key t)) d.transitions ≠ 0 := by
  have hsep := upperBound_separates (fun t => decide (value < key t))
    d.transitions
  intro hzero
  apply h
  unfold beforeFirst
  cases htransitions : d.transitions with
  | nil => rfl
  | cons front rest =>
      have hbehind := hsep.behind front
      rw [hzero, htransitions] at hbehind
      exact hbehind rfl

theorem upperBound_le (after : Transition → Bool) :
    upperBound after d.transitions ≤ d.transitions.length :=
  (upperBound_separates after d.transitions).le_length

theorem Indexed.findLocalTime (h : d.Indexed) (utcTime : ℤ) :
    OnlyOverflows (d.findLocalTime utcTime) := by
  refine .ite (fun _ => h.first) (fun hfirst => ?_)
  have hpos := upperBound_pos hfirst
  have hle := upperBound_le (d := d) fun t => decide (utcTime < t.utctime)
  refine .bind (.ensure hpos) fun _ _ => ?_
  refine .ite (fun _ => ?_) (fun _ => ?_)
  · exact onlyOverflows_transition (by omega) (by omega) fun _ => h.typeOf
  · exact onlyOverflows_transition (by omega) (by omega) fun _ => h.typeOf

theorem Indexed.priorSecond (h : d.Indexed) (t : Transition)
    {prior : Transition} (hprior : prior ∈ d.transitions) :
    OnlyOverflows (d.priorSecond t prior) :=
  .bind (.int64 _) fun _ _ => .bind (h.typeOf hprior) fun _ _ => .int64 _

theorem onlyOverflows_fromUtcTime (dt : DateTime) :
    OnlyOverflows (fromUtcTime dt) := by
  unfold fromUtcTime getJulianDayNumber
  repeat' first | exact .int _ | exact .int64 _ | refine .bind ?_ fun _ _ => ?_

theorem Indexed.findLocalTimeOf (h : d.Indexed) (lt : DateTime)
    (postTransition : Bool) :
    OnlyOverflows (d.findLocalTimeOf lt postTransition) := by
  refine .bind (onlyOverflows_fromUtcTime lt) fun localtime _ => ?_
  refine .ite (fun _ => h.first) (fun hfirst => ?_)
  have hpos := upperBound_pos hfirst
  have hle := upperBound_le (d := d) fun t => decide (localtime < t.localtime)
  refine .bind (.ensure hpos) fun _ _ => ?_
  refine .ite (fun _ => ?_) (fun hlast => ?_)
  · exact onlyOverflows_transition (by omega) (by omega) fun _ => h.typeOf
  refine onlyOverflows_transition (by omega) (by omega) fun next hnext => ?_
  refine onlyOverflows_transition (by omega) (by omega) fun prior hprior => ?_
  refine .bind (h.priorSecond next hprior) fun prior_second _ => ?_
  refine .ite (fun _ => ?_) (fun _ => ?_)
  · exact .ite (fun _ => h.typeOf hnext) (fun _ => h.typeOf hprior)
  refine onlyOverflows_transition (by omega) (by omega) fun t ht => ?_
  have hrepeat {prior : Transition} (hprior : prior ∈ d.transitions)
      (prior_second : ℤ) :
      OnlyOverflows (if localtime ≤ prior_second then
          if postTransition then vectorAt d.localtimes t.localtimeIdx
          else vectorAt d.localtimes prior.localtimeIdx
        else vectorAt d.localtimes t.localtimeIdx) :=
    .ite (fun _ => .ite (fun _ => h.typeOf ht) (fun _ => h.typeOf hprior))
      (fun _ => h.typeOf ht)
  refine .ite (fun hsecond => ?_) (fun _ => ?_)
  · refine onlyOverflows_transition (by omega) (by omega) fun prior hprior => ?_
    refine .bind (h.priorSecond t hprior) fun second _ => ?_
    exact hrepeat hprior second
  · exact hrepeat hprior prior_second

end Data

/-! ## Converting with a zone -/

theorem onlyOverflows_BreakTime (t : ℤ) : OnlyOverflows (BreakTime t) := by
  have hdate (j : ℤ) : OnlyOverflows (getYearMonthDay j) := by
    unfold getYearMonthDay
    repeat' first | exact .int _ | exact .ok _ | refine .bind ?_ fun _ _ => ?_
  refine .ite (fun _ => ?_) (fun _ => ?_)
  · refine .bind (.int _) fun _ _ => .bind (.int _) fun _ _ => ?_
    refine .bind (.ok _) fun _ _ => .bind (.int _) fun _ _ => ?_
    exact .bind (hdate _) fun _ _ => .ok _
  · refine .bind (.ok _) fun _ _ => .bind (.int _) fun _ _ => ?_
    exact .bind (hdate _) fun _ _ => .ok _

/-- All element accesses of the conversions are in range, and their assertions
hold: only an overflow can end them early. -/
structure TimeZone.Usable (zone : TimeZone) : Prop where
  toLocalTime : ∀ seconds, OnlyOverflows (zone.toLocalTime seconds)
  fromLocalTime : ∀ localtime postTransition,
    OnlyOverflows (zone.fromLocalTime localtime postTransition)

theorem Data.Indexed.usable {d : Data} (h : d.Indexed) :
    TimeZone.Usable ⟨some d⟩ where
  toLocalTime seconds :=
    .bind (h.findLocalTime seconds) fun _ _ =>
      .bind (.int64 _) fun _ _ =>
        .bind (onlyOverflows_BreakTime _) fun _ _ => .ok _
  fromLocalTime localtime postTransition :=
    .bind (h.findLocalTimeOf localtime postTransition) fun _ _ =>
      .bind (onlyOverflows_fromUtcTime localtime) fun _ _ => .int64 _

/-- Without types there are no transitions to refer to them, and every
conversion falls back on the first type. -/
theorem not_usable_of_empty {d : Data} (htypes : d.localtimes = [])
    (htransitions : d.transitions = []) : ¬ TimeZone.Usable ⟨some d⟩ := by
  intro h
  have hfailure : TimeZone.toLocalTime ⟨some d⟩ 0 = .error .outOfRange := by
    simp [TimeZone.toLocalTime, Data.findLocalTime, Data.beforeFirst, htypes,
      htransitions, vectorAt]
  exact absurd (h.toLocalTime 0 _ hfailure) (by decide)

/-! ## Zones from files -/

/-- What an accepted file is stored as. -/
theorem counted_of_loadZoneFile {stack : ℕ} {bytes : List UInt8} {d : Data}
    (hload : TimeZone.loadZoneFile stack (some bytes) = .ok ⟨some d⟩) :
    ∃ b, blockOf bytes = .ok (some b) ∧ b.Counted d := by
  have hfails : FileFailsWithin stack bytes fun _ => True := by
    intro _
    cases blockOf bytes with
    | error fault => trivial
    | ok found =>
        cases found with
        | none => trivial
        | some b => exact fun _ => ⟨fun _ => trivial, fun _ _ _ => trivial⟩
  have hwp := (wp_readOpened trivial trivial).mpr hfails
  exact ((wp_readOpened_iff trivial).mp hwp).1 d
    (loadZoneFile_eq_some_iff.mp hload)

theorem Block.Counted.indexed {b : Block} {d : Data} (h : b.Counted d)
    (htypes : b.counters.typecnt ≠ 0) : d.Indexed where
  types := by
    intro hnil
    have hlength := h.localtimes
    rw [hnil, List.length_nil] at hlength
    exact htypes hlength.symm
  index t ht := by
    rw [h.localtimes]
    exact h.index_lt t ht

theorem Block.Counted.empty {b : Block} {d : Data} (h : b.Counted d)
    (htypes : b.counters.typecnt = 0) :
    d.localtimes = [] ∧ d.transitions = [] := by
  constructor
  · have hlength := h.localtimes
    rw [htypes] at hlength
    exact List.length_eq_zero_iff.mp (Int.natCast_eq_zero.mp hlength)
  · refine List.eq_nil_iff_forall_not_mem.mpr fun t ht => ?_
    obtain ⟨hnonneg, hlt⟩ := h.index_lt t ht
    omega

/-- The zone of an accepted file is usable if and only if the block that was
read has a type. -/
theorem usable_iff {stack : ℕ} {bytes : List UInt8} {d : Data}
    (hload : TimeZone.loadZoneFile stack (some bytes) = .ok ⟨some d⟩) :
    TimeZone.Usable ⟨some d⟩ ↔
      ∃ b, blockOf bytes = .ok (some b) ∧ b.counters.typecnt ≠ 0 := by
  obtain ⟨b, hblock, hcounted⟩ := counted_of_loadZoneFile hload
  constructor
  · intro husable
    refine ⟨b, hblock, fun htypes => ?_⟩
    obtain ⟨hlocaltimes, htransitions⟩ := hcounted.empty htypes
    exact not_usable_of_empty hlocaltimes htransitions husable
  · rintro ⟨b', hblock', htypes⟩
    obtain rfl : b = b' := by simpa [hblock] using hblock'
    exact (hcounted.indexed htypes).usable

/-- A header of version 1 with the given numbers of types and of designation
bytes. -/
def smallHeader (typecnt charcnt : UInt8) : List UInt8 :=
  magic ++ List.replicate 32 0 ++ [0, 0, 0, typecnt] ++ [0, 0, 0, charcnt]

theorem usable_one_type :
    TimeZone.Usable ⟨some ⟨[], [⟨3600, true, 0⟩], [0x41], []⟩⟩ := by
  have hload : TimeZone.loadZoneFile 8388608
      (some (smallHeader 1 1 ++ [0, 0, 0x0e, 0x10, 1, 0, 0x41])) =
        .ok ⟨some ⟨[], [⟨3600, true, 0⟩], [0x41], []⟩⟩ := by
    decide +kernel
  exact (usable_iff hload).mpr ⟨_, rfl, by decide⟩

/-- A file without types is accepted. -/
theorem not_usable_no_types :
    TimeZone.loadZoneFile 8388608 (some (smallHeader 0 1 ++ [0x41])) =
        .ok ⟨some ⟨[], [], [0x41], []⟩⟩ ∧
      ¬ TimeZone.Usable ⟨some ⟨[], [], [0x41], []⟩⟩ :=
  ⟨by decide +kernel, not_usable_of_empty rfl rfl⟩

end EventServer.Common
