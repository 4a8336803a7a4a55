import EventServer.Common.TimeZoneInverse

/-!
# The meaning of the flag

Between the first and the last transition of a zone, the flag of
`fromLocalTime` chooses the first or the last instant with the given local
time, and, where a transition skips the local time, the offset before or after
it.
-/

namespace EventServer.Common

open EventServer.Support

namespace Data

variable {d : Data} {dt : DateTime} {l : ℤ}

/-- The flag chooses among the instants with the local second `l`, and between
the offsets at the transition that skips it. -/
structure FlagMeaning (d : Data) (dt : DateTime) (l : ℤ) : Prop where
  instants : (d.timeline.instants l).Nonempty → ∃ first last,
    IsLeast (d.timeline.instants l) first ∧
    IsGreatest (d.timeline.instants l) last ∧
    TimeZone.fromLocalTime ⟨some d⟩ dt false = .ok first ∧
    TimeZone.fromLocalTime ⟨some d⟩ dt true = .ok last
  skipped : d.timeline.instants l = ∅ → ∃ i, i + 1 < d.timeline.count ∧
    (∀ j, j + 1 < d.timeline.count →
      (d.timeline.Skips (j + 1) l ↔ j = i)) ∧
    TimeZone.fromLocalTime ⟨some d⟩ dt false =
      .ok (l - d.timeline.offset (i + 1)) ∧
    TimeZone.fromLocalTime ⟨some d⟩ dt true =
      .ok (l - d.timeline.offset (i + 1 + 1))

theorem FlagMeaning.exists_result (h : d.FlagMeaning dt l) :
    ∃ t, TimeZone.fromLocalTime ⟨some d⟩ dt false = .ok t := by
  by_cases hempty : d.timeline.instants l = ∅
  · obtain ⟨_, -, -, hfalse, -⟩ := h.skipped hempty
    exact ⟨_, hfalse⟩
  · obtain ⟨_, _, -, -, hfalse, -⟩ :=
      h.instants (Set.nonempty_iff_ne_empty.mpr hempty)
    exact ⟨_, hfalse⟩

/-- The second before the transition that follows the local second fits, in
the offset before this transition, into `int64_t`. -/
def PriorSecondFits (d : Data) (l : ℤ) : Prop :=
  ∀ i, d.timeline.InLocalEra (i + 1) l → i + 1 < d.timeline.count →
    IsInt64 (d.timeline.change (i + 1) - 1 + d.timeline.offset (i + 1))

/-- The local seconds of calendar times are far from the limits. -/
theorem fromUtcTime_bounds (h : fromUtcTime dt = .ok l) :
    -2 ^ 62 < l ∧ l < 2 ^ 62 := by
  unfold fromUtcTime at h
  obtain ⟨julianDayNumber, -, h⟩ := bind_eq_ok_iff.mp h
  simp only [bind_eq_ok_iff, int_eq_ok_iff, int64_eq_ok_iff] at h
  obtain ⟨_, -, _, -, _, -, secondsInDay, ⟨hseconds, hsum⟩, days,
    ⟨hdays, hdifference⟩, _, ⟨-, rfl⟩, -, rfl⟩ := h
  unfold IsInt kSecondsPerDay at *
  omega

/-- The type that the search finds is applied to the local second. -/
theorem Spaced.fromLocalTime_eq (h : d.Spaced) (hl : fromUtcTime dt = .ok l)
    {postTransition : Bool} {k : ℕ} (hk : k ≤ d.timeline.count)
    (hfound : d.findLocalTimeOf dt postTransition = .ok (d.typeAt k)) :
    TimeZone.fromLocalTime ⟨some d⟩ dt postTransition =
      .ok (l - d.timeline.offset k) := by
  have hbounds := fromUtcTime_bounds hl
  have hoffset := h.offset_bounds hk
  unfold IsInt at hoffset
  unfold TimeZone.fromLocalTime
  simp only [hfound, hl, ok_bind]
  exact int64_of (z := l - d.timeline.offset k) (by omega) (by omega)

section Between

variable (h : d.Spaced) (hl : fromUtcTime dt = .ok l) {i : ℕ}
  (hk : d.timeline.InLocalEra (i + 1) l) (hi : i + 1 < d.timeline.count)

include h hl hk hi

theorem Spaced.flagMeaning_of_skipped
    (hfits : IsInt64
      (d.timeline.change (i + 1) - 1 + d.timeline.offset (i + 1)))
    (hskip : d.timeline.change (i + 1) - 1 + d.timeline.offset (i + 1) < l) :
    d.FlagMeaning dt l where
  instants := by
    rintro ⟨t, ht⟩
    rw [hk.instants_eq_empty h.timeline_spaced hi hskip] at ht
    exact absurd ht (Set.notMem_empty t)
  skipped _ := by
    have hfound : ∀ postTransition,
        d.findLocalTimeOf dt postTransition =
          .ok (d.typeAt (if postTransition then i + 1 + 1 else i + 1)) :=
      fun _ => h.findLocalTimeOf_skipped hl hk hi hfits hskip
    exact ⟨i, hi, fun _ hj => hk.skips_iff h.timeline_spaced hi hskip hj,
      h.fromLocalTime_eq hl hi.le (hfound false),
      h.fromLocalTime_eq hl hi (hfound true)⟩

theorem Spaced.flagMeaning_of_not_skipped
    (hfits : IsInt64
      (d.timeline.change (i + 1) - 1 + d.timeline.offset (i + 1)))
    (hskip : l ≤ d.timeline.change (i + 1) - 1 + d.timeline.offset (i + 1)) :
    d.FlagMeaning dt l := by
  have hleast := hk.isLeast h.timeline_spaced fun _ => hskip
  have hgreatest := hk.isGreatest h.timeline_spaced fun _ => hskip
  have hfound : ∀ postTransition, d.findLocalTimeOf dt postTransition = .ok (
      if i ≠ 0 ∧ l ≤ d.timeline.change i - 1 + d.timeline.offset i ∧
          postTransition = false
      then d.typeAt i else d.typeAt (i + 1)) := fun _ =>
    h.findLocalTimeOf_between hl (fromUtcTime_bounds hl).2 hk hi hfits hskip
  constructor
  · intro _
    refine ⟨_, _, hleast, hgreatest, ?_, ?_⟩
    · by_cases hrepeat :
          i ≠ 0 ∧ l ≤ d.timeline.change i - 1 + d.timeline.offset i
      · rw [if_pos hrepeat]
        refine h.fromLocalTime_eq hl (by omega) ((hfound false).trans ?_)
        rw [if_pos ⟨hrepeat.1, hrepeat.2, rfl⟩]
      · rw [if_neg hrepeat]
        refine h.fromLocalTime_eq hl hi.le ((hfound false).trans ?_)
        rw [if_neg fun hboth => hrepeat ⟨hboth.1, hboth.2.1⟩]
    · refine h.fromLocalTime_eq hl hi.le ((hfound true).trans ?_)
      rw [if_neg (by simp)]
  · intro hempty
    rw [hempty] at hleast
    exact absurd hleast.1 (Set.notMem_empty _)

theorem Spaced.not_flagMeaning_of_overflow
    (hover : ¬ IsInt64
      (d.timeline.change (i + 1) - 1 + d.timeline.offset (i + 1))) :
    ¬ d.FlagMeaning dt l := by
  intro hmeaning
  obtain ⟨t, hresult⟩ := hmeaning.exists_result
  unfold TimeZone.fromLocalTime at hresult
  simp only [h.findLocalTimeOf_overflow hl hk hi hover] at hresult
  cases hresult

end Between

/-- A local second from the first transition on and before the last one. -/
theorem Spaced.exists_inLocalEra (h : d.Spaced) {front back : Transition}
    (hfront : d.transitions.head? = some front)
    (hback : d.transitions.getLast? = some back)
    (hlow : front.localtime ≤ l) (hhigh : l < back.localtime) :
    ∃ i, d.timeline.InLocalEra (i + 1) l ∧ i + 1 < d.timeline.count := by
  have hk := upperBound_rank h.localChange_eq l
  rw [List.head?_eq_getElem?] at hfront
  rw [List.getLast?_eq_getElem?] at hback
  have hfirst := h.localChange_eq 0 front hfront
  have hlast := h.localChange_eq _ back hback
  have hcount := (List.getElem?_eq_some_iff.mp hback).1
  generalize upperBound _ d.transitions = k at hk
  have hle := hk.le
  cases k with
  | zero =>
      have hahead := hk.ahead (by omega)
      omega
  | succ i =>
      refine ⟨i, hk, ?_⟩
      by_contra hnot
      obtain rfl : i = d.transitions.length - 1 := by
        change ¬ i + 1 < d.transitions.length at hnot
        omega
      have hreached := hk.reached _ rfl
      omega

end Data

/-- Between the first and the last transition of a zone whose transitions are
far enough apart, the flag has its meaning if and only if the second before the
following transition fits into `int64_t`. -/
theorem flagMeaning_iff {d : Data} (hd : d.Spaced) {dt : DateTime} {l : ℤ}
    (hl : fromUtcTime dt = .ok l) {front back : Transition}
    (hfront : d.transitions.head? = some front)
    (hback : d.transitions.getLast? = some back)
    (hlow : front.localtime ≤ l) (hhigh : l < back.localtime) :
    d.FlagMeaning dt l ↔ d.PriorSecondFits l := by
  obtain ⟨i, hk, hi⟩ := hd.exists_inLocalEra hfront hback hlow hhigh
  constructor
  · intro hmeaning j hj hcount
    by_contra hover
    exact hd.not_flagMeaning_of_overflow hl hj hcount hover hmeaning
  · intro hfits
    by_cases hskip :
        d.timeline.change (i + 1) - 1 + d.timeline.offset (i + 1) < l
    · exact hd.flagMeaning_of_skipped hl hk hi (hfits i hk hi) hskip
    · exact hd.flagMeaning_of_not_skipped hl hk hi (hfits i hk hi)
        (not_lt.mp hskip)

/-- Half past one on 1990-09-16, which the third transition of China repeats. -/
theorem prc_flagMeaning_1990 :
    prc.FlagMeaning ⟨1990, 9, 16, 1, 30, 0⟩ 653448600 := by
  refine (flagMeaning_iff prc_spaced (by decide) rfl rfl (by decide)
    (by decide)).mpr ?_
  intro i _ hi
  have hi' : i < 4 := Nat.succ_lt_succ_iff.mp hi
  interval_cases i
  all_goals decide

/-- A zone that gives its offset up at the very last second. -/
def lastSecond : Data where
  transitions := [⟨0, 3600, 0⟩, ⟨2 ^ 63 - 1, 2 ^ 63 - 1, 1⟩]
  localtimes := [⟨3600, false, 0⟩, ⟨0, false, 0⟩]
  abbreviation := []
  tzstring := []

theorem lastSecond_spaced : lastSecond.Spaced := by
  constructor
  · decide
  · decide
  · decide
  · intro tr htr
    simp only [lastSecond, List.mem_cons, List.not_mem_nil, or_false] at htr
    rcases htr with rfl | rfl
    all_goals exact ⟨_, rfl, rfl⟩
  · intro i a b ha hb lt hlt
    obtain rfl : i = 0 := by
      have hi : i + 1 < 2 := (List.getElem?_eq_some_iff.mp hb).1
      omega
    cases ha
    cases hb
    simp only [lastSecond, List.mem_cons, List.not_mem_nil, or_false] at hlt
    rcases hlt with rfl | rfl
    all_goals decide

/-- The second before its last transition overflows, and with it every search
between the transitions. -/
theorem lastSecond_overflows :
    lastSecond.Spaced ∧ fromUtcTime ⟨1970, 1, 2, 0, 0, 0⟩ = .ok 86400 ∧
      lastSecond.transitions.head? = some ⟨0, 3600, 0⟩ ∧
      lastSecond.transitions.getLast? = some ⟨2 ^ 63 - 1, 2 ^ 63 - 1, 1⟩ ∧
      (∀ postTransition, TimeZone.fromLocalTime ⟨some lastSecond⟩
        ⟨1970, 1, 2, 0, 0, 0⟩ postTransition = .error .signedOverflow) ∧
      ¬ lastSecond.FlagMeaning ⟨1970, 1, 2, 0, 0, 0⟩ 86400 := by
  have hfails : ∀ postTransition, TimeZone.fromLocalTime ⟨some lastSecond⟩
      ⟨1970, 1, 2, 0, 0, 0⟩ postTransition = .error .signedOverflow := by
    decide +kernel
  refine ⟨lastSecond_spaced, by decide, rfl, rfl, hfails, ?_⟩
  intro hmeaning
  obtain ⟨t, hresult⟩ := hmeaning.exists_result
  rw [hfails] at hresult
  cases hresult

end EventServer.Common
