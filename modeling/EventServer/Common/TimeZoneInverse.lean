import EventServer.Common.TimeZoneSearch

/-!
# From an instant to its local time and back

Converting an instant to local time and back returns it, for one of the two
answers about repeated local times, exactly when the next transition, if it is
the first or the last one, does not repeat the local time of the instant.
-/

namespace EventServer.Common

open EventServer.Support

/-! ## The property -/

namespace TimeZone

/-- The local time of the instant lies inside the calendar. -/
def InCalendarAt (zone : TimeZone) (t : ℤ) : Prop :=
  ∃ d lt, zone.data_ = some d ∧ d.findLocalTime t = .ok lt ∧
    SecondInCalendar (t + lt.utcOffset)

/-- `fromLocalTime(toLocalTime(t), postTransition)`. -/
def roundTrip (zone : TimeZone) (t : ℤ) (postTransition : Bool) :
    Except Fault ℤ := do
  let (localTime, _) ← zone.toLocalTime t
  zone.fromLocalTime localTime postTransition

/-- No other instant has the same local time. -/
def OnlyInstant (zone : TimeZone) (t : ℤ) : Prop :=
  ∀ t' localTime offset offset', zone.InCalendarAt t' →
    zone.toLocalTime t = .ok (localTime, offset) →
    zone.toLocalTime t' = .ok (localTime, offset') → t' = t

/-- The instant can be recovered from its local time. -/
def Recoverable (zone : TimeZone) (t : ℤ) : Prop :=
  (∃ postTransition, zone.roundTrip t postTransition = .ok t) ∧
    (zone.OnlyInstant t →
      ∀ postTransition, zone.roundTrip t postTransition = .ok t)

end TimeZone

namespace Data

/-- The next transition, if it is the first or the last one, does not repeat
the local time of the instant, and the second before the transition that
follows the local time does not overflow. -/
structure Distinguished (d : Data) (t : ℤ) : Prop where
  outer : ∀ k, d.timeline.InEra k t → k < d.timeline.count →
    k = 0 ∨ k + 1 = d.timeline.count →
    t + d.timeline.offset k < d.timeline.localChange k
  fits : ∀ k i, d.timeline.InEra k t →
    d.timeline.InLocalEra (i + 1) (t + d.timeline.offset k) →
    i + 1 < d.timeline.count →
    IsInt64 (d.timeline.change (i + 1) - 1 + d.timeline.offset (i + 1))

variable {d : Data}

/-! ## The round trip in terms of the time line -/

theorem exists_inEra (d : Data) (t : ℤ) : ∃ k, d.timeline.InEra k t :=
  ⟨_, upperBound_rank d.change_eq_utctime t⟩

theorem secondInCalendar_bounds {l : ℤ} (hl : SecondInCalendar l) :
    -2 ^ 62 < l ∧ l < 2 ^ 62 := by
  obtain ⟨hlow, hhigh⟩ := hl
  simp only [kSecondsPerDay, kJulianDayOf1970_01_01] at hlow hhigh
  omega

/-- The era of an instant, with its local second inside the calendar. -/
structure At (d : Data) (t : ℤ) (k : ℕ) : Prop where
  spaced : d.Spaced
  era : d.timeline.InEra k t
  calendar : SecondInCalendar (t + d.timeline.offset k)

theorem Spaced.exists_at (h : d.Spaced) {t : ℤ}
    (ht : TimeZone.InCalendarAt ⟨some d⟩ t) : ∃ k, d.At t k := by
  obtain ⟨d', lt, hdata, hfound, hcal⟩ := ht
  cases hdata
  obtain ⟨k, hk⟩ := d.exists_inEra t
  rw [h.findLocalTime_eq hk] at hfound
  cases hfound
  exact ⟨k, h, hk, hcal⟩

theorem At.inCalendarAt {t : ℤ} {k : ℕ} (h : d.At t k) :
    TimeZone.InCalendarAt ⟨some d⟩ t :=
  ⟨d, _, rfl, h.spaced.findLocalTime_eq h.era, h.calendar⟩

theorem At.int64_eq {t : ℤ} {k : ℕ} (h : d.At t k) :
    int64 (t + d.timeline.offset k) = .ok (t + d.timeline.offset k) := by
  have hbounds := secondInCalendar_bounds h.calendar
  exact int64_of (by omega) (by omega)

theorem At.toLocalTime_eq {t : ℤ} {k : ℕ} (h : d.At t k) {dt : DateTime}
    (hdt : BreakTime (t + d.timeline.offset k) = .ok dt) :
    TimeZone.toLocalTime ⟨some d⟩ t = .ok (dt, d.timeline.offset k) := by
  have hint := h.int64_eq
  unfold TimeZone.toLocalTime
  simp only [h.spaced.findLocalTime_eq h.era, ok_bind]
  change (int64 (t + d.timeline.offset k) >>= _) = _
  rw [hint, ok_bind, hdt]
  rfl

/-- The round trip searches the local second of the instant. -/
theorem At.roundTrip_eq {t : ℤ} {k : ℕ} (h : d.At t k) :
    ∃ dt, fromUtcTime dt = .ok (t + d.timeline.offset k) ∧
      ∀ postTransition,
        TimeZone.roundTrip ⟨some d⟩ t postTransition = (do
          let lt ← d.findLocalTimeOf dt postTransition
          int64 (t + d.timeline.offset k - lt.utcOffset)) := by
  obtain ⟨dt, hdt, hsecond⟩ := fromUtcTime_BreakTime h.calendar
  refine ⟨dt, hsecond, ?_⟩
  intro postTransition
  unfold TimeZone.roundTrip
  rw [h.toLocalTime_eq hdt, ok_bind]
  unfold TimeZone.fromLocalTime
  simp only [hsecond, ok_bind]

/-- Two instants with one local second have the same local time. -/
theorem At.eq_of_onlyInstant {t t' : ℤ} {k k' : ℕ} (h : d.At t k)
    (h' : d.timeline.InEra k' t')
    (hlocal : t' + d.timeline.offset k' = t + d.timeline.offset k)
    (honly : TimeZone.OnlyInstant ⟨some d⟩ t) : t' = t := by
  obtain ⟨dt, hdt, -⟩ := fromUtcTime_BreakTime h.calendar
  have hat : d.At t' k' := ⟨h.spaced, h', hlocal ▸ h.calendar⟩
  exact honly t' dt _ _ hat.inCalendarAt (h.toLocalTime_eq hdt)
    (hat.toLocalTime_eq (hlocal.symm ▸ hdt))

/-- What the round trip returns when the search finds the type of an era. -/
theorem At.roundTrip_of_found {t : ℤ} {k m : ℕ} (h : d.At t k)
    (hm : m ≤ d.timeline.count) {postTransition : Bool}
    (hfound : ∀ dt, fromUtcTime dt = .ok (t + d.timeline.offset k) →
      d.findLocalTimeOf dt postTransition = .ok (d.typeAt m)) :
    TimeZone.roundTrip ⟨some d⟩ t postTransition =
      .ok (t + d.timeline.offset k - d.timeline.offset m) := by
  obtain ⟨dt, hdt, hround⟩ := h.roundTrip_eq
  have hbounds := secondInCalendar_bounds h.calendar
  have hoffset := h.spaced.offset_bounds hm
  unfold IsInt at hoffset
  rw [hround, hfound dt hdt, ok_bind]
  exact int64_of (z := t + d.timeline.offset k - d.timeline.offset m)
    (by omega) (by omega)

/-- The search that finds the type of the instant's own era recovers it. -/
theorem At.roundTrip_of_own {t : ℤ} {k : ℕ} (h : d.At t k)
    {postTransition : Bool}
    (hfound : ∀ dt, fromUtcTime dt = .ok (t + d.timeline.offset k) →
      d.findLocalTimeOf dt postTransition = .ok (d.typeAt k)) :
    TimeZone.roundTrip ⟨some d⟩ t postTransition = .ok t := by
  rw [h.roundTrip_of_found h.era.le hfound]
  exact congrArg Except.ok (by omega)

/-! ## Local times that the next transition does not repeat -/

theorem At.roundTrip_first {t : ℤ} (h : d.At t 0)
    (hnext : 0 < d.timeline.count →
      t + d.timeline.offset 0 < d.timeline.localChange 0)
    (postTransition : Bool) :
    TimeZone.roundTrip ⟨some d⟩ t postTransition = .ok t := by
  apply h.roundTrip_of_own
  intro dt hdt
  exact h.spaced.findLocalTimeOf_first hdt (h.era.inLocalEra hnext)

theorem At.roundTrip_last {t : ℤ} {i : ℕ} (h : d.At t (i + 1))
    (hlast : i + 1 = d.timeline.count) (postTransition : Bool) :
    TimeZone.roundTrip ⟨some d⟩ t postTransition = .ok t := by
  apply h.roundTrip_of_own
  intro dt hdt
  have hlocal := h.era.inLocalEra (fun hlt => absurd hlast hlt.ne)
  exact h.spaced.findLocalTimeOf_last hdt hlocal hlast

section Between

variable {t : ℤ} {i : ℕ} (h : d.At t (i + 1))
  (hi : i + 1 < d.timeline.count)
  (hnext : t + d.timeline.offset (i + 1) < d.timeline.localChange (i + 1))
  (hfits : IsInt64
    (d.timeline.change (i + 1) - 1 + d.timeline.offset (i + 1)))

include h hi hnext hfits

theorem At.findLocalTimeOf_between {dt : DateTime} {postTransition : Bool}
    (hdt : fromUtcTime dt = .ok (t + d.timeline.offset (i + 1))) :
    d.findLocalTimeOf dt postTransition = .ok (
      if i ≠ 0 ∧ t + d.timeline.offset (i + 1) ≤
          d.timeline.change i - 1 + d.timeline.offset i ∧
          postTransition = false
      then d.typeAt i else d.typeAt (i + 1)) :=
  h.spaced.findLocalTimeOf_between hdt (secondInCalendar_bounds h.calendar).2
    (h.era.inLocalEra (fun _ => hnext)) hi hfits (h.era.lt_prior hi)

/-- Asking for the later occurrence recovers the instant. -/
theorem At.roundTrip_between :
    TimeZone.roundTrip ⟨some d⟩ t true = .ok t := by
  apply h.roundTrip_of_own
  intro dt hdt
  rw [h.findLocalTimeOf_between hi hnext hfits hdt, if_neg (by simp)]

/-- An unrepeated local time determines the instant. -/
theorem At.roundTrip_between_only
    (honly : TimeZone.OnlyInstant ⟨some d⟩ t) (postTransition : Bool) :
    TimeZone.roundTrip ⟨some d⟩ t postTransition = .ok t := by
  apply h.roundTrip_of_own
  intro dt hdt
  rw [h.findLocalTimeOf_between hi hnext hfits hdt, if_neg]
  rintro ⟨-, hrepeat, -⟩
  have hearlier := h.era.earlier h.spaced.timeline_spaced hrepeat
  have heq := h.eq_of_onlyInstant hearlier (by omega) honly
  have hahead := hearlier.ahead (by omega)
  have hreached := h.era.reached i rfl
  omega

end Between

/-! ## Local times that the next transition repeats -/

section Repeated

variable {t : ℤ} {k : ℕ} (h : d.At t k)
  (hrepeated : d.timeline.localChange k ≤ t + d.timeline.offset k)

include h hrepeated

/-- The offset behind the next transition does not recover the instant. -/
theorem At.ne_of_repeated (hk : k < d.timeline.count) :
    t + d.timeline.offset k - d.timeline.offset (k + 1) ≠ t := by
  have hahead := h.era.ahead hk
  unfold Timeline.localChange at hrepeated
  omega

theorem At.roundTrip_repeated_last (hk : k + 1 = d.timeline.count)
    (postTransition : Bool) :
    TimeZone.roundTrip ⟨some d⟩ t postTransition ≠ .ok t := by
  have hlt : k < d.timeline.count := by omega
  have hlocal :=
    h.era.inLocalEra_succ h.spaced.timeline_spaced hlt hrepeated
  rw [h.roundTrip_of_found hlt
    (fun dt hdt => h.spaced.findLocalTimeOf_last hdt hlocal hk)]
  intro heq
  exact h.ne_of_repeated hrepeated hlt (Except.ok.inj heq)

theorem At.findLocalTimeOf_repeated (hk : k + 1 < d.timeline.count)
    (hfits : IsInt64
      (d.timeline.change (k + 1) - 1 + d.timeline.offset (k + 1)))
    {dt : DateTime} {postTransition : Bool}
    (hdt : fromUtcTime dt = .ok (t + d.timeline.offset k)) :
    d.findLocalTimeOf dt postTransition = .ok (
      if k ≠ 0 ∧ postTransition = false
      then d.typeAt k else d.typeAt (k + 1)) := by
  have hlt : k < d.timeline.count := by omega
  have hprior := h.era.lt_prior hlt
  have hgap := h.spaced.timeline_spaced.gap (i := k) (k := k) (m := k + 1)
    hk hlt.le hk.le
  rw [h.spaced.findLocalTimeOf_between hdt
    (secondInCalendar_bounds h.calendar).2
    (h.era.inLocalEra_succ h.spaced.timeline_spaced hlt hrepeated) hk hfits
    (by omega)]
  simp [hprior]

/-- The first transition gives no access to the type before it. -/
theorem At.roundTrip_repeated_first (hzero : k = 0)
    (hk : k + 1 < d.timeline.count)
    (hfits : IsInt64
      (d.timeline.change (k + 1) - 1 + d.timeline.offset (k + 1)))
    (postTransition : Bool) :
    TimeZone.roundTrip ⟨some d⟩ t postTransition ≠ .ok t := by
  have hlt : k < d.timeline.count := by omega
  rw [h.roundTrip_of_found (m := k + 1) hlt]
  · intro heq
    exact h.ne_of_repeated hrepeated hlt (Except.ok.inj heq)
  · intro dt hdt
    rw [h.findLocalTimeOf_repeated hrepeated hk hfits hdt,
      if_neg (by simp [hzero])]

/-- Asking for the earlier occurrence recovers the instant. -/
theorem At.roundTrip_repeated (hzero : k ≠ 0)
    (hk : k + 1 < d.timeline.count)
    (hfits : IsInt64
      (d.timeline.change (k + 1) - 1 + d.timeline.offset (k + 1))) :
    TimeZone.roundTrip ⟨some d⟩ t false = .ok t := by
  apply h.roundTrip_of_own
  intro dt hdt
  rw [h.findLocalTimeOf_repeated hrepeated hk hfits hdt,
    if_pos ⟨hzero, rfl⟩]

theorem At.not_onlyInstant (hk : k < d.timeline.count) :
    ¬ TimeZone.OnlyInstant ⟨some d⟩ t := by
  intro honly
  have hlater := h.era.later h.spaced.timeline_spaced hk hrepeated
  have heq := h.eq_of_onlyInstant hlater (by omega) honly
  exact h.ne_of_repeated hrepeated hk heq

end Repeated

theorem At.roundTrip_overflow {t : ℤ} {k i : ℕ} (h : d.At t k)
    (hlocal : d.timeline.InLocalEra (i + 1) (t + d.timeline.offset k))
    (hi : i + 1 < d.timeline.count)
    (hover : ¬ IsInt64
      (d.timeline.change (i + 1) - 1 + d.timeline.offset (i + 1)))
    (postTransition : Bool) :
    TimeZone.roundTrip ⟨some d⟩ t postTransition ≠ .ok t := by
  obtain ⟨dt, hdt, hround⟩ := h.roundTrip_eq
  rw [hround, h.spaced.findLocalTimeOf_overflow hdt hlocal hi hover]
  nofun

/-! ## When the instant is recovered -/

theorem At.recoverable {t : ℤ} {k : ℕ} (h : d.At t k)
    (hdist : d.Distinguished t) : TimeZone.Recoverable ⟨some d⟩ t := by
  have hspaced := h.spaced.timeline_spaced
  by_cases hnext : k < d.timeline.count →
      t + d.timeline.offset k < d.timeline.localChange k
  · have hlocal := h.era.inLocalEra hnext
    cases k with
    | zero =>
        have hall := h.roundTrip_first hnext
        exact ⟨⟨false, hall false⟩, fun _ => hall⟩
    | succ i =>
        by_cases hlast : i + 1 = d.timeline.count
        · have hall := h.roundTrip_last hlast
          exact ⟨⟨false, hall false⟩, fun _ => hall⟩
        · have hi : i + 1 < d.timeline.count :=
            lt_of_le_of_ne h.era.le hlast
          have hfits := hdist.fits (i + 1) i h.era hlocal hi
          exact ⟨⟨true, h.roundTrip_between hi (hnext hi) hfits⟩,
            h.roundTrip_between_only hi (hnext hi) hfits⟩
  · push Not at hnext
    obtain ⟨hk, hrepeated⟩ := hnext
    have hlocal := h.era.inLocalEra_succ hspaced hk hrepeated
    have hinner : ¬ (k = 0 ∨ k + 1 = d.timeline.count) := by
      intro houter
      exact absurd (hdist.outer k h.era hk houter) (not_lt.mpr hrepeated)
    have hi : k + 1 < d.timeline.count := by omega
    have hfits := hdist.fits k k h.era hlocal hi
    exact ⟨⟨false, h.roundTrip_repeated hrepeated (by omega) hi hfits⟩,
      fun honly => absurd honly (h.not_onlyInstant hrepeated hk)⟩

theorem At.distinguished {t : ℤ} {k : ℕ} (h : d.At t k)
    {postTransition : Bool}
    (hround : TimeZone.roundTrip ⟨some d⟩ t postTransition = .ok t) :
    d.Distinguished t := by
  have hspaced := h.spaced.timeline_spaced
  have hera : ∀ k', d.timeline.InEra k' t → k' = k := fun k' hk' =>
    hk'.unique hspaced.change_increasing h.era
  constructor
  · intro k' hk' hlt houter
    obtain rfl := hera k' hk'
    by_contra hnot
    have hrepeated := not_lt.mp hnot
    by_cases hlast : k' + 1 = d.timeline.count
    · exact h.roundTrip_repeated_last hrepeated hlast _ hround
    · have hi : k' + 1 < d.timeline.count := by omega
      have hlocal := h.era.inLocalEra_succ hspaced hlt hrepeated
      by_cases hfits : IsInt64
          (d.timeline.change (k' + 1) - 1 + d.timeline.offset (k' + 1))
      · exact h.roundTrip_repeated_first hrepeated (by omega) hi hfits _
          hround
      · exact h.roundTrip_overflow hlocal hi hfits _ hround
  · intro k' i hk' hlocal hi
    obtain rfl := hera k' hk'
    by_contra hover
    exact h.roundTrip_overflow hlocal hi hover _ hround

end Data

/-- An instant whose local time lies inside the calendar is recovered from its
local time exactly when it is distinguished. -/
theorem recoverable_iff_distinguished {d : Data} (hd : d.Spaced) {t : ℤ}
    (ht : TimeZone.InCalendarAt ⟨some d⟩ t) :
    TimeZone.Recoverable ⟨some d⟩ t ↔ d.Distinguished t := by
  obtain ⟨k, hk⟩ := hd.exists_at ht
  constructor
  · rintro ⟨⟨postTransition, hround⟩, -⟩
    exact hk.distinguished hround
  · exact hk.recoverable

/-- The last transitions of China, from the table in the source. -/
def prc : Data where
  transitions := [⟨621968400, 621997200, 0⟩, ⟨640116000, 640148400, 1⟩,
    ⟨653418000, 653446800, 0⟩, ⟨671565600, 671598000, 1⟩,
    ⟨684867600, 684896400, 0⟩]
  localtimes := [⟨28800, false, 0⟩, ⟨32400, true, 4⟩]
  abbreviation := []
  tzstring := []

theorem prc_spaced : prc.Spaced := by
  constructor
  · decide
  · decide
  · decide
  · intro tr htr
    simp only [prc, List.mem_cons, List.not_mem_nil, or_false] at htr
    rcases htr with rfl | rfl | rfl | rfl | rfl
    all_goals exact ⟨_, rfl, rfl⟩
  · intro i a b ha hb lt hlt
    have hi : i + 1 < 5 := (List.getElem?_eq_some_iff.mp hb).1
    have hi' : i < 4 := by omega
    simp only [prc, List.mem_cons, List.not_mem_nil, or_false] at hlt
    interval_cases i
    all_goals
      cases ha
      cases hb
      rcases hlt with rfl | rfl
      all_goals decide

theorem prc_inCalendarAt {t : ℤ} (lt : LocalTime)
    (hfound : prc.findLocalTime t = .ok lt) (hlow : 0 ≤ t)
    (hhigh : t < 2 ^ 31) (hoffset : IsInt lt.utcOffset) :
    TimeZone.InCalendarAt ⟨some prc⟩ t := by
  refine ⟨prc, lt, rfl, hfound, ?_⟩
  unfold IsInt at hoffset
  unfold SecondInCalendar InCalendar kSecondsPerDay kJulianDayOf1970_01_01
  omega

/-- Half past one on 1990-09-16, for the first time. -/
theorem prc_recoverable_1990 :
    TimeZone.Recoverable ⟨some prc⟩ 653416200 := by
  apply (recoverable_iff_distinguished prc_spaced
    (prc_inCalendarAt ⟨32400, true, 4⟩ (by decide) (by decide)
      (by decide) (by decide))).mpr
  have hera : ∀ k, prc.timeline.InEra k 653416200 → k = 2 := by
    intro k hk
    refine hk.unique prc_spaced.timeline_spaced.change_increasing
      ⟨by decide, ?_, fun _ => by decide⟩
    intro i hi
    obtain rfl : i = 1 := by omega
    decide
  constructor
  · intro k hk _ houter
    obtain rfl := hera k hk
    exact absurd houter (by decide)
  · intro k i hk hlocal hi
    obtain rfl := hera k hk
    have hi' : i < 4 := Nat.succ_lt_succ_iff.mp hi
    interval_cases i
    all_goals decide

/-- Half past one on 1991-09-15, for the first time: the answer is one hour
late for both values of the flag. -/
theorem prc_lost_1991 :
    prc.Spaced ∧ TimeZone.InCalendarAt ⟨some prc⟩ 684865800 ∧
      (∀ postTransition, TimeZone.roundTrip ⟨some prc⟩ 684865800
        postTransition = .ok 684869400) ∧
      ¬ TimeZone.Recoverable ⟨some prc⟩ 684865800 := by
  have hlate : ∀ postTransition, TimeZone.roundTrip ⟨some prc⟩ 684865800
      postTransition = .ok 684869400 := by
    decide +kernel
  refine ⟨prc_spaced, ?_, hlate, ?_⟩
  · exact prc_inCalendarAt ⟨32400, true, 4⟩ (by decide) (by decide)
      (by decide) (by decide)
  · rintro ⟨⟨postTransition, hround⟩, -⟩
    rw [hlate postTransition] at hround
    exact absurd (Except.ok.inj hround) (by decide)

end EventServer.Common
