import EventServer.Support.UpperBound

/-!
# Time lines with changing offsets

A clock is shifted by an offset that changes at finitely many instants.  When
the instants are further apart than twice every offset, the shifted instants
are increasing too, and the shifted time of an instant lies in the same era as
the instant or, after a backward change, in the next one.
-/

namespace EventServer.Support

/-- `offset k` holds after the first `k` of `count` changes. -/
structure Timeline where
  count : ℕ
  change : ℕ → ℤ
  offset : ℕ → ℤ

namespace Timeline

/-- The shifted time at which a change has taken place. -/
def localChange (c : Timeline) (i : ℕ) : ℤ := c.change i + c.offset (i + 1)

/-- The instant lies behind the first `k` changes and in front of the next. -/
def InEra (c : Timeline) (k : ℕ) (t : ℤ) : Prop :=
  Rank c.change c.count t k

/-- The shifted time lies behind the first `k` changes and in front of the
next. -/
def InLocalEra (c : Timeline) (k : ℕ) (l : ℤ) : Prop :=
  Rank c.localChange c.count l k

/-- The changes are further apart than twice every offset. -/
def Spaced (c : Timeline) : Prop :=
  ∀ i k, i + 1 < c.count → k ≤ c.count →
    2 * |c.offset k| < c.change (i + 1) - c.change i

variable {c : Timeline}

theorem Spaced.gap (h : c.Spaced) {i k m : ℕ} (hi : i + 1 < c.count)
    (hk : k ≤ c.count) (hm : m ≤ c.count) :
    c.offset k - c.offset m < c.change (i + 1) - c.change i := by
  have hgapk := h i k hi hk
  have hgapm := h i m hi hm
  have hupper := le_abs_self (c.offset k)
  have hlower := neg_abs_le (c.offset m)
  omega

theorem Spaced.change_increasing (h : c.Spaced) :
    Increasing c.change c.count := by
  intro i hi
  have hgap := h.gap hi (le_refl c.count) (le_refl c.count)
  omega

theorem Spaced.localChange_increasing (h : c.Spaced) :
    Increasing c.localChange c.count := by
  intro i hi
  have hgap := h.gap (k := i + 1) (m := i + 1 + 1) hi (by omega) (by omega)
  unfold localChange
  omega

/-- The shifted time in front of the next change is in the era of the
instant. -/
theorem InEra.inLocalEra {k : ℕ} {t : ℤ} (ht : c.InEra k t)
    (hnext : k < c.count → t + c.offset k < c.localChange k) :
    c.InLocalEra k (t + c.offset k) := by
  refine ⟨ht.le, ?_, hnext⟩
  rintro i rfl
  have hreached := ht.reached i rfl
  unfold localChange
  omega

/-- The shifted time that the next change repeats is in the next era. -/
theorem InEra.inLocalEra_succ {k : ℕ} {t : ℤ} (h : c.Spaced)
    (ht : c.InEra k t) (hk : k < c.count)
    (hrepeated : c.localChange k ≤ t + c.offset k) :
    c.InLocalEra (k + 1) (t + c.offset k) := by
  refine ⟨hk, ?_, ?_⟩
  · rintro i hi
    obtain rfl : i = k := by omega
    exact hrepeated
  · intro hnext
    have hahead := ht.ahead hk
    have hgap := h.gap (k := k) (m := k + 1 + 1) hnext (by omega) (by omega)
    unfold localChange
    omega

/-- The last instant before a change is still in its era. -/
theorem InEra.lt_prior {k : ℕ} {t : ℤ} (ht : c.InEra k t)
    (hk : k < c.count) : t + c.offset k ≤ c.change k - 1 + c.offset k := by
  have hahead := ht.ahead hk
  omega

/-- An instant whose shifted time a backward change has repeated has a second
instant in front of the change. -/
theorem InEra.earlier {k : ℕ} {t : ℤ} (h : c.Spaced)
    (ht : c.InEra (k + 1) t)
    (hrepeat : t + c.offset (k + 1) ≤ c.change k - 1 + c.offset k) :
    c.InEra k (t + c.offset (k + 1) - c.offset k) := by
  have hk := ht.le
  have hreached := ht.reached k rfl
  refine ⟨by omega, ?_, ?_⟩
  · rintro i rfl
    have hgap := h.gap (i := i) (k := i + 1) (m := i + 1 + 1) (by omega)
      (by omega) (by omega)
    omega
  · intro _
    omega

/-- An instant whose shifted time a backward change repeats has a second
instant behind the change. -/
theorem InEra.later {k : ℕ} {t : ℤ} (h : c.Spaced) (ht : c.InEra k t)
    (hk : k < c.count) (hrepeated : c.localChange k ≤ t + c.offset k) :
    c.InEra (k + 1) (t + c.offset k - c.offset (k + 1)) := by
  have hahead := ht.ahead hk
  unfold localChange at hrepeated
  refine ⟨hk, ?_, ?_⟩
  · rintro i hi
    obtain rfl : i = k := by omega
    omega
  · intro hnext
    have hgap := h.gap (k := k) (m := k + 1) hnext (by omega) (by omega)
    omega

/-! ## The instants with a given shifted time -/

/-- The instants behind the first change whose shifted time is `l`. -/
def instants (c : Timeline) (l : ℤ) : Set ℤ :=
  {t | ∃ k, c.InEra (k + 1) t ∧ t + c.offset (k + 1) = l}

/-- The change skips the shifted time. -/
def Skips (c : Timeline) (i : ℕ) (l : ℤ) : Prop :=
  c.change i + c.offset i ≤ l ∧ l < c.localChange i

/-- An instant with the shifted time is in the era of the shifted time, or in
the one before, where the change between them repeats the shifted time. -/
theorem InLocalEra.era_cases {i k : ℕ} {l t : ℤ} (h : c.Spaced)
    (hl : c.InLocalEra (i + 1) l) (hk : c.InEra (k + 1) t)
    (ht : t + c.offset (k + 1) = l) : k = i ∨ k + 1 = i := by
  subst ht
  have hinc := h.localChange_increasing
  by_cases hnext : k + 1 < c.count →
      t + c.offset (k + 1) < c.localChange (k + 1)
  · have heq := (hk.inLocalEra hnext).unique hinc hl
    omega
  · push Not at hnext
    obtain ⟨hlt, hrepeated⟩ := hnext
    have heq := (hk.inLocalEra_succ h hlt hrepeated).unique hinc hl
    omega

theorem InLocalEra.instants_cases {i : ℕ} {l t : ℤ} (h : c.Spaced)
    (hl : c.InLocalEra (i + 1) l) (ht : t ∈ c.instants l) :
    t = l - c.offset (i + 1) ∨
      i ≠ 0 ∧ t = l - c.offset i ∧ t < c.change i := by
  obtain ⟨k, hk, heq⟩ := ht
  have hle := hl.le
  rcases hl.era_cases h hk heq with rfl | rfl
  · exact Or.inl (by omega)
  · exact Or.inr ⟨by omega, by omega, hk.ahead (by omega)⟩

/-- The shifted time is in front of the next change in the offset before it:
its own era has an instant with the shifted time. -/
theorem InLocalEra.inEra {i : ℕ} {l : ℤ} (hl : c.InLocalEra (i + 1) l)
    (hnext : i + 1 < c.count → l ≤ c.change (i + 1) - 1 + c.offset (i + 1)) :
    c.InEra (i + 1) (l - c.offset (i + 1)) := by
  refine ⟨hl.le, ?_, ?_⟩
  · intro j hj
    obtain rfl : j = i := by omega
    have hreached := hl.reached j rfl
    unfold localChange at hreached
    omega
  · intro hlt
    have hahead := hnext hlt
    omega

/-- The last instant with a shifted time that the next change does not
skip. -/
theorem InLocalEra.isGreatest {i : ℕ} {l : ℤ} (h : c.Spaced)
    (hl : c.InLocalEra (i + 1) l)
    (hnext : i + 1 < c.count → l ≤ c.change (i + 1) - 1 + c.offset (i + 1)) :
    IsGreatest (c.instants l) (l - c.offset (i + 1)) := by
  have hera := hl.inEra hnext
  have hreached := hera.reached i rfl
  constructor
  · exact ⟨i, hera, by omega⟩
  · intro t ht
    rcases hl.instants_cases h ht with heq | ⟨-, heq, hlt⟩
    · omega
    · omega

/-- The first instant is in the era before, if the change between the eras
repeats the shifted time and is not the first one. -/
theorem InLocalEra.isLeast {i : ℕ} {l : ℤ} (h : c.Spaced)
    (hl : c.InLocalEra (i + 1) l)
    (hnext : i + 1 < c.count → l ≤ c.change (i + 1) - 1 + c.offset (i + 1)) :
    IsLeast (c.instants l)
      (if i ≠ 0 ∧ l ≤ c.change i - 1 + c.offset i then l - c.offset i
        else l - c.offset (i + 1)) := by
  have hera := hl.inEra hnext
  have hreached := hera.reached i rfl
  by_cases hrepeat : i ≠ 0 ∧ l ≤ c.change i - 1 + c.offset i
  · rw [if_pos hrepeat]
    obtain ⟨k, rfl⟩ : ∃ k, i = k + 1 := ⟨i - 1, by omega⟩
    have hearlier := hera.earlier h (by omega)
    rw [sub_add_cancel] at hearlier
    constructor
    · exact ⟨k, hearlier, by omega⟩
    · intro t ht
      rcases hl.instants_cases h ht with heq | ⟨-, heq, -⟩
      · omega
      · omega
  · rw [if_neg hrepeat]
    constructor
    · exact ⟨i, hera, by omega⟩
    · intro t ht
      rcases hl.instants_cases h ht with heq | ⟨hne, heq, hlt⟩
      · omega
      · exact absurd ⟨hne, by omega⟩ hrepeat

/-- No instant has a shifted time that the next change skips. -/
theorem InLocalEra.instants_eq_empty {i : ℕ} {l : ℤ} (h : c.Spaced)
    (hl : c.InLocalEra (i + 1) l) (hi : i + 1 < c.count)
    (hskip : c.change (i + 1) - 1 + c.offset (i + 1) < l) :
    c.instants l = ∅ := by
  refine Set.eq_empty_iff_forall_notMem.mpr ?_
  rintro t ⟨k, hk, heq⟩
  rcases hl.era_cases h hk heq with rfl | rfl
  · have hahead := hk.ahead hi
    omega
  · have hahead := hk.ahead (by omega)
    have hgap := h.gap (i := k + 1) (k := k + 1) (m := k + 1 + 1) hi
      (by omega) (by omega)
    omega

/-- The change that skips the shifted time is the next one. -/
theorem InLocalEra.skips_iff {i j : ℕ} {l : ℤ} (h : c.Spaced)
    (hl : c.InLocalEra (i + 1) l) (hi : i + 1 < c.count)
    (hskip : c.change (i + 1) - 1 + c.offset (i + 1) < l)
    (hj : j + 1 < c.count) : c.Skips (j + 1) l ↔ j = i := by
  have hinc := h.localChange_increasing
  have hreached := hl.reached i rfl
  have hahead := hl.ahead hi
  constructor
  · rintro ⟨hpassed, hbefore⟩
    rcases lt_trichotomy j i with hlt | heq | hgt
    · have hmono := hinc.le_of_le (show j + 1 ≤ i by omega) (by omega)
      omega
    · exact heq
    · have hmono := hinc.le_of_le (show i + 1 ≤ j by omega) (by omega)
      have hchange := h.change_increasing j hj
      unfold localChange at hmono hahead
      omega
  · rintro rfl
    exact ⟨by omega, hahead⟩

end Timeline

end EventServer.Support
