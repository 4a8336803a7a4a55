import EventServer.Common.TimeZone
import EventServer.Support.Timeline

/-!
# The searches in a zone

The data of a zone as a time line, and what the two searches of `TimeZone.cc`
find in it: by the time in UTC the type of the era, by the local time the type
of the local era, or of the one before when the local time is repeated.
-/

namespace EventServer.Common.Data

open EventServer.Support

/-! ## A zone as a time line -/

/-- The type that holds after the first `k` transitions. -/
def typeAt (d : Data) : ℕ → LocalTime
  | 0 => d.localtimes.getD 0 default
  | k + 1 =>
      d.localtimes.getD (d.transitions.getD k default).localtimeIdx.toNat
        default

/-- The changes of the offset. -/
def timeline (d : Data) : Timeline where
  count := d.transitions.length
  change i := (d.transitions.getD i default).utctime
  offset k := (d.typeAt k).utcOffset

/-- Transitions that fit their types, further apart than twice the offset of
every type. -/
structure Spaced (d : Data) : Prop where
  types : d.localtimes ≠ []
  offset_isInt : ∀ lt ∈ d.localtimes, IsInt lt.utcOffset
  utctime_isInt64 : ∀ tr ∈ d.transitions, IsInt64 tr.utctime
  index : ∀ tr ∈ d.transitions, ∃ lt,
    vectorAt d.localtimes tr.localtimeIdx = .ok lt ∧
      tr.localtime = tr.utctime + lt.utcOffset
  gap : ∀ i a b, d.transitions[i]? = some a → d.transitions[i + 1]? = some b →
    ∀ lt ∈ d.localtimes, 2 * |lt.utcOffset| < b.utctime - a.utctime

/-- The `i`-th transition in terms of the time line. -/
structure TransitionAt (d : Data) (i : ℕ) (tr : Transition) : Prop where
  get : d.transitions[i]? = some tr
  utctime : tr.utctime = d.timeline.change i
  localtime : tr.localtime = d.timeline.localChange i
  type : vectorAt d.localtimes tr.localtimeIdx = .ok (d.typeAt (i + 1))

variable {d : Data}

theorem Spaced.transitionAt (h : d.Spaced) {i : ℕ}
    (hi : i < d.timeline.count) : ∃ tr, d.TransitionAt i tr := by
  have hget : d.transitions[i]? = some d.transitions[i] :=
    List.getElem?_eq_getElem hi
  obtain ⟨lt, htype, hlocal⟩ := h.index _ (List.mem_of_getElem? hget)
  have hlt : d.typeAt (i + 1) = lt := by
    simp [typeAt, List.getD_eq_getElem?_getD, hget, vectorAt_eq_ok htype]
  have hchange : d.timeline.change i = d.transitions[i].utctime := by
    simp [timeline, List.getD_eq_getElem?_getD, hget]
  refine ⟨_, hget, hchange.symm, ?_, hlt ▸ htype⟩
  rw [hlocal, Timeline.localChange, hchange, ← hlt]
  rfl

/-- The transition in front of an iterator. -/
theorem TransitionAt.back {i : ℕ} {tr : Transition}
    (htr : d.TransitionAt i tr) :
    vectorAt d.transitions (((i + 1 : ℕ) : ℤ) - 1) = .ok tr := by
  rw [show ((i + 1 : ℕ) : ℤ) - 1 = (i : ℕ) by push_cast; ring]
  exact vectorAt_natCast htr.get

theorem Spaced.front (h : d.Spaced) :
    vectorAt d.localtimes 0 = .ok (d.typeAt 0) := by
  apply vectorAt_natCast (i := 0)
  have hpos := List.length_pos_iff.mpr h.types
  simp [typeAt, List.getD_eq_getElem?_getD, List.getElem?_eq_getElem hpos]

theorem Spaced.typeAt_mem (h : d.Spaced) {k : ℕ}
    (hk : k ≤ d.timeline.count) : d.typeAt k ∈ d.localtimes := by
  cases k with
  | zero => exact List.mem_of_getElem? (vectorAt_eq_ok h.front)
  | succ i =>
      obtain ⟨tr, htr⟩ := h.transitionAt hk
      exact List.mem_of_getElem? (vectorAt_eq_ok htr.type)

theorem Spaced.timeline_spaced (h : d.Spaced) : d.timeline.Spaced := by
  intro i k hi hk
  obtain ⟨a, ha⟩ := h.transitionAt (i := i) (by omega)
  obtain ⟨b, hb⟩ := h.transitionAt hi
  rw [← ha.utctime, ← hb.utctime]
  exact h.gap i a b ha.get hb.get _ (h.typeAt_mem hk)

theorem Spaced.offset_bounds (h : d.Spaced) {k : ℕ}
    (hk : k ≤ d.timeline.count) : IsInt (d.timeline.offset k) :=
  h.offset_isInt _ (h.typeAt_mem hk)

theorem Spaced.change_bounds (h : d.Spaced) {i : ℕ}
    (hi : i < d.timeline.count) : IsInt64 (d.timeline.change i) := by
  obtain ⟨tr, htr⟩ := h.transitionAt hi
  rw [← htr.utctime]
  exact h.utctime_isInt64 tr (List.mem_of_getElem? htr.get)

/-! ## The search by the time in UTC -/

/-- The test in front of a search tells whether the rank is zero. -/
theorem beforeFirst_eq {key : Transition → ℤ} {f : ℕ → ℤ} {v : ℤ} {k : ℕ}
    (hf : ∀ i tr, d.transitions[i]? = some tr → f i = key tr)
    (hinc : Increasing f d.timeline.count)
    (hk : Rank f d.timeline.count v k) :
    d.beforeFirst key v = decide (k = 0) := by
  unfold beforeFirst
  split
  · rename_i hnil
    have hzero : k = 0 := by
      have hle := hk.le
      simpa [timeline, hnil] using hle
    simp [hzero]
  · rename_i front rest hcons
    have hfirst : f 0 = key front := hf 0 front (by simp [hcons])
    have hcount : 0 < d.timeline.count := by simp [timeline, hcons]
    rw [← hfirst, decide_eq_decide]
    constructor
    · intro hlt
      by_contra hne
      obtain ⟨i, rfl⟩ := Nat.exists_eq_succ_of_ne_zero hne
      have hreached := hk.reached i rfl
      have hle := hk.le
      have hmono := hinc.le_of_le (Nat.zero_le i) (by omega)
      omega
    · rintro rfl
      exact hk.ahead hcount

theorem change_eq_utctime (d : Data) (i : ℕ) (tr : Transition)
    (hget : d.transitions[i]? = some tr) :
    d.timeline.change i = tr.utctime := by
  simp [timeline, List.getD_eq_getElem?_getD, hget]

theorem Spaced.localChange_eq (h : d.Spaced) (i : ℕ) (tr : Transition)
    (hget : d.transitions[i]? = some tr) :
    d.timeline.localChange i = tr.localtime := by
  have hi : i < d.timeline.count := (List.getElem?_eq_some_iff.mp hget).1
  obtain ⟨tr', htr'⟩ := h.transitionAt hi
  obtain rfl : tr' = tr := Option.some.inj (htr'.get.symm.trans hget)
  exact htr'.localtime.symm

theorem Spaced.findLocalTime_eq (h : d.Spaced) {t : ℤ} {k : ℕ}
    (hk : d.timeline.InEra k t) : d.findLocalTime t = .ok (d.typeAt k) := by
  have hinc := h.timeline_spaced.change_increasing
  have hrank := upperBound_rank d.change_eq_utctime t
  have hfound := hrank.unique hinc hk
  unfold findLocalTime
  rw [beforeFirst_eq d.change_eq_utctime hinc hk]
  cases k with
  | zero =>
      rw [if_pos (by simp)]
      exact h.front
  | succ i =>
      obtain ⟨tr, htr⟩ := h.transitionAt hk.le
      rw [if_neg (by simp)]
      simp only [hfound, ensure_of (Nat.succ_ne_zero i), ok_bind]
      by_cases hlast : i + 1 = d.transitions.length
      · rw [if_neg (not_not.mpr hlast), ← hlast, htr.back, ok_bind]
        exact htr.type
      · rw [if_pos hlast, htr.back, ok_bind]
        exact htr.type

/-! ## The search by the local time -/

theorem Spaced.findLocalTimeOf_first (h : d.Spaced) {lt : DateTime} {l : ℤ}
    {postTransition : Bool} (hlt : fromUtcTime lt = .ok l)
    (hk : d.timeline.InLocalEra 0 l) :
    d.findLocalTimeOf lt postTransition = .ok (d.typeAt 0) := by
  have hinc := h.timeline_spaced.localChange_increasing
  unfold findLocalTimeOf
  rw [hlt, ok_bind, beforeFirst_eq h.localChange_eq hinc hk, if_pos (by simp)]
  exact h.front

theorem Spaced.findLocalTimeOf_last (h : d.Spaced) {lt : DateTime} {l : ℤ}
    {postTransition : Bool} {i : ℕ} (hlt : fromUtcTime lt = .ok l)
    (hk : d.timeline.InLocalEra (i + 1) l)
    (hlast : i + 1 = d.timeline.count) :
    d.findLocalTimeOf lt postTransition = .ok (d.typeAt (i + 1)) := by
  have hinc := h.timeline_spaced.localChange_increasing
  have hfound := (upperBound_rank h.localChange_eq l).unique hinc hk
  obtain ⟨tr, htr⟩ := h.transitionAt hk.le
  have hlen : d.transitions.length = i + 1 := hlast.symm
  unfold findLocalTimeOf
  rw [hlt, ok_bind, beforeFirst_eq h.localChange_eq hinc hk, if_neg (by simp)]
  simp only [hfound, hlen, ensure_of (Nat.succ_ne_zero i), ok_bind, if_true,
    htr.back]
  exact htr.type

/-- The second before a transition, in the offset of the type before. -/
theorem Spaced.priorSecond_eq (h : d.Spaced) {i : ℕ} {tr prior : Transition}
    (htr : d.TransitionAt (i + 1) tr) (hprior : d.TransitionAt i prior)
    (hi : i + 1 < d.timeline.count) :
    d.priorSecond tr prior =
      int64 (d.timeline.change (i + 1) - 1 + d.timeline.offset (i + 1)) := by
  have hbounds := h.change_bounds hi
  have hprev := h.change_bounds (i := i) (by omega)
  have hmono := h.timeline_spaced.change_increasing i hi
  unfold IsInt64 at hbounds hprev
  unfold priorSecond
  rw [htr.utctime, int64_of (by omega) (by omega), ok_bind, hprior.type,
    ok_bind]
  rfl

/-- The last second before a transition whose local time has been reached does
not overflow. -/
theorem Spaced.priorSecond_reached (h : d.Spaced) {tr prior : Transition}
    {l : ℤ} {m : ℕ} (htr : d.TransitionAt (m + 1) tr)
    (hprior : d.TransitionAt m prior) (hi : m + 1 + 1 < d.timeline.count)
    (hk : d.timeline.InLocalEra (m + 1 + 1) l) (hl : l < 2 ^ 62) :
    d.priorSecond tr prior = .ok
      (d.timeline.change (m + 1) - 1 + d.timeline.offset (m + 1)) := by
  refine (h.priorSecond_eq htr hprior (by omega)).trans (if_pos ?_)
  have hreached := hk.reached (m + 1) rfl
  have hoffset := h.offset_bounds (k := m + 1) (by omega)
  have hoffset' := h.offset_bounds (k := m + 1 + 1) (by omega)
  have hprev := h.change_bounds (i := m) (by omega)
  have hgap := h.timeline_spaced m (m + 1) (by omega) (by omega)
  have habs := neg_abs_le (d.timeline.offset (m + 1))
  have hnonneg := abs_nonneg (d.timeline.offset (m + 1))
  unfold Timeline.localChange at hreached
  unfold IsInt at hoffset hoffset'
  unfold IsInt64 at hprev ⊢
  omega

/-- The local time is not skipped by the next transition: the search returns
the type before the last transition when the local time is repeated there and
the first occurrence is asked for, but never for the first transition. -/
theorem Spaced.findLocalTimeOf_between (h : d.Spaced) {lt : DateTime} {l : ℤ}
    {postTransition : Bool} {i : ℕ} (hlt : fromUtcTime lt = .ok l)
    (hl : l < 2 ^ 62) (hk : d.timeline.InLocalEra (i + 1) l)
    (hi : i + 1 < d.timeline.count)
    (hfits : IsInt64
      (d.timeline.change (i + 1) - 1 + d.timeline.offset (i + 1)))
    (hskip : l ≤ d.timeline.change (i + 1) - 1 + d.timeline.offset (i + 1)) :
    d.findLocalTimeOf lt postTransition = .ok (
      if i ≠ 0 ∧ l ≤ d.timeline.change i - 1 + d.timeline.offset i ∧
          postTransition = false
      then d.typeAt i else d.typeAt (i + 1)) := by
  have hinc := h.timeline_spaced.localChange_increasing
  have hfound := (upperBound_rank h.localChange_eq l).unique hinc hk
  obtain ⟨next, hnext⟩ := h.transitionAt hi
  obtain ⟨tr, htr⟩ := h.transitionAt hk.le
  have hsecond : d.priorSecond next tr =
      .ok (d.timeline.change (i + 1) - 1 + d.timeline.offset (i + 1)) :=
    (h.priorSecond_eq hnext htr hi).trans (if_pos hfits)
  unfold findLocalTimeOf
  rw [hlt, ok_bind, beforeFirst_eq h.localChange_eq hinc hk, if_neg (by simp)]
  simp only [hfound, ensure_of (Nat.succ_ne_zero i), ok_bind,
    vectorAt_natCast hnext.get, htr.back, hsecond]
  rw [if_neg (show i + 1 ≠ d.transitions.length from Nat.ne_of_lt hi),
    if_neg (not_lt.mpr hskip)]
  cases i with
  | zero =>
      simp only [Nat.zero_add, Nat.sub_self, ne_eq, not_true, if_false,
        false_and, pure_eq_ok, ok_bind]
      rw [if_pos hskip]
      simp [htr.type]
  | succ m =>
      obtain ⟨prior, hprior⟩ := h.transitionAt (i := m) (by omega)
      have hat' : vectorAt d.transitions (((m + 1 + 1 : ℕ) : ℤ) - 2) =
          .ok prior := by
        rw [show ((m + 1 + 1 : ℕ) : ℤ) - 2 = (m : ℕ) by push_cast; ring]
        exact vectorAt_natCast hprior.get
      have hsecond' := h.priorSecond_reached htr hprior hi hk hl
      rw [if_pos (by simp)]
      simp only [hat', hsecond', pure_eq_ok, ok_bind]
      by_cases hrepeat :
          l ≤ d.timeline.change (m + 1) - 1 + d.timeline.offset (m + 1)
      · rw [if_pos hrepeat]
        cases postTransition with
        | true => simp [htr.type]
        | false => simp [hrepeat, hprior.type]
      · rw [if_neg hrepeat]
        simp [hrepeat, htr.type]

/-- The local time is skipped by the next transition: the flag chooses between
the types before and after it. -/
theorem Spaced.findLocalTimeOf_skipped (h : d.Spaced) {lt : DateTime} {l : ℤ}
    {postTransition : Bool} {i : ℕ} (hlt : fromUtcTime lt = .ok l)
    (hk : d.timeline.InLocalEra (i + 1) l) (hi : i + 1 < d.timeline.count)
    (hfits : IsInt64
      (d.timeline.change (i + 1) - 1 + d.timeline.offset (i + 1)))
    (hskip : d.timeline.change (i + 1) - 1 + d.timeline.offset (i + 1) < l) :
    d.findLocalTimeOf lt postTransition =
      .ok (d.typeAt (if postTransition then i + 1 + 1 else i + 1)) := by
  have hinc := h.timeline_spaced.localChange_increasing
  have hfound := (upperBound_rank h.localChange_eq l).unique hinc hk
  obtain ⟨next, hnext⟩ := h.transitionAt hi
  obtain ⟨tr, htr⟩ := h.transitionAt hk.le
  have hsecond : d.priorSecond next tr =
      .ok (d.timeline.change (i + 1) - 1 + d.timeline.offset (i + 1)) :=
    (h.priorSecond_eq hnext htr hi).trans (if_pos hfits)
  unfold findLocalTimeOf
  rw [hlt, ok_bind, beforeFirst_eq h.localChange_eq hinc hk, if_neg (by simp)]
  simp only [hfound, ensure_of (Nat.succ_ne_zero i), ok_bind,
    vectorAt_natCast hnext.get, htr.back, hsecond]
  rw [if_neg (show i + 1 ≠ d.transitions.length from Nat.ne_of_lt hi),
    if_pos hskip]
  cases postTransition with
  | true => exact hnext.type
  | false => exact htr.type

/-- The search fails when the second before the next transition overflows. -/
theorem Spaced.findLocalTimeOf_overflow (h : d.Spaced) {lt : DateTime} {l : ℤ}
    {postTransition : Bool} {i : ℕ} (hlt : fromUtcTime lt = .ok l)
    (hk : d.timeline.InLocalEra (i + 1) l) (hi : i + 1 < d.timeline.count)
    (hover : ¬ IsInt64
      (d.timeline.change (i + 1) - 1 + d.timeline.offset (i + 1))) :
    d.findLocalTimeOf lt postTransition = .error .signedOverflow := by
  have hinc := h.timeline_spaced.localChange_increasing
  have hfound := (upperBound_rank h.localChange_eq l).unique hinc hk
  obtain ⟨next, hnext⟩ := h.transitionAt hi
  obtain ⟨tr, htr⟩ := h.transitionAt hk.le
  have hsecond : d.priorSecond next tr = .error .signedOverflow :=
    (h.priorSecond_eq hnext htr hi).trans (if_neg hover)
  unfold findLocalTimeOf
  rw [hlt, ok_bind, beforeFirst_eq h.localChange_eq hinc hk, if_neg (by simp)]
  simp only [hfound, ensure_of (Nat.succ_ne_zero i), ok_bind,
    vectorAt_natCast hnext.get, htr.back, hsecond]
  rw [if_neg (show i + 1 ≠ d.transitions.length from Nat.ne_of_lt hi)]
  rfl

end EventServer.Common.Data
