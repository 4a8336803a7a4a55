import Mathlib.Tactic

/-!
# Searching for a pattern

`std::search` on lists.  A search is resumed after a failure: nothing in front
of the last `pattern.length - 1` elements can become the beginning of an
occurrence when more elements are appended.
-/

namespace EventServer.Support

variable {α : Type}

/-- The pattern begins behind the first `i` elements. -/
def OccursAt (pattern xs : List α) (i : ℕ) : Prop :=
  pattern <+: xs.drop i

/-- The number of elements in front of the first occurrence, or the number of
all elements. -/
def search [DecidableEq α] (pattern : List α) : List α → ℕ
  | [] => 0
  | x :: xs => if pattern <+: x :: xs then 0 else search pattern xs + 1

/-! ## Occurrences -/

namespace OccursAt

variable {pattern xs ys : List α} {i k : ℕ}

/-- An occurrence lies inside the list. -/
theorem add_length_le (h : OccursAt pattern xs i) (hne : pattern ≠ []) :
    i + pattern.length ≤ xs.length := by
  have hle : pattern.length ≤ xs.length - i := by
    simpa using h.length_le
  have hpos := List.length_pos_iff.mpr hne
  omega

theorem append (h : OccursAt pattern xs i) (hne : pattern ≠ []) :
    OccursAt pattern (xs ++ ys) i := by
  have hle := h.add_length_le hne
  unfold OccursAt
  rw [List.drop_append_of_le_length (by omega)]
  exact h.trans (List.prefix_append _ _)

/-- An occurrence that lies inside the first part. -/
theorem of_append (h : OccursAt pattern (xs ++ ys) i)
    (hle : i + pattern.length ≤ xs.length) : OccursAt pattern xs i := by
  unfold OccursAt at h ⊢
  rw [List.drop_append_of_le_length (by omega)] at h
  refine List.prefix_of_prefix_length_le h (List.prefix_append _ _) ?_
  rw [List.length_drop]
  omega

theorem drop_iff :
    OccursAt pattern (xs.drop k) i ↔ OccursAt pattern xs (k + i) := by
  unfold OccursAt
  rw [List.drop_drop]

end OccursAt

/-! ## The search -/

variable [DecidableEq α] {pattern xs ys : List α}

/-- The search finds the first occurrence, or there is none. -/
theorem search_cases (hne : pattern ≠ []) (xs : List α) :
    IsLeast {i | OccursAt pattern xs i} (search pattern xs) ∨
      (search pattern xs = xs.length ∧ ∀ i, ¬ OccursAt pattern xs i) := by
  induction xs with
  | nil =>
      refine Or.inr ⟨rfl, fun i h => ?_⟩
      have hle := h.add_length_le hne
      have hpos := List.length_pos_iff.mpr hne
      simp only [List.length_nil] at hle
      omega
  | cons x xs ih =>
      unfold search
      by_cases hhere : pattern <+: x :: xs
      · rw [if_pos hhere]
        exact Or.inl ⟨hhere, fun i _ => Nat.zero_le i⟩
      · rw [if_neg hhere]
        rcases ih with ⟨hoccurs, hleast⟩ | ⟨hlength, hnone⟩
        · refine Or.inl ⟨hoccurs, fun i hi => ?_⟩
          cases i with
          | zero => exact absurd hi hhere
          | succ i => exact Nat.succ_le_succ (hleast hi)
        · refine Or.inr ⟨congrArg (· + 1) hlength, fun i hi => ?_⟩
          cases i with
          | zero => exact hhere hi
          | succ i => exact hnone i hi

theorem search_eq_length_iff (hne : pattern ≠ []) :
    search pattern xs = xs.length ↔ ∀ i, ¬ OccursAt pattern xs i := by
  rcases search_cases hne xs with ⟨hoccurs, -⟩ | ⟨hlength, hnone⟩
  · have hle := hoccurs.add_length_le hne
    have hpos := List.length_pos_iff.mpr hne
    exact iff_of_false (by omega) (fun hnone => hnone _ hoccurs)
  · exact iff_of_true hlength hnone

theorem isLeast_search_iff (hne : pattern ≠ []) :
    IsLeast {i | OccursAt pattern xs i} (search pattern xs) ↔
      search pattern xs ≠ xs.length := by
  rw [Ne, search_eq_length_iff hne]
  constructor
  · rintro ⟨hoccurs, -⟩ hnone
    exact hnone _ hoccurs
  · intro hsome
    rcases search_cases hne xs with hleast | ⟨-, hnone⟩
    · exact hleast
    · exact absurd hnone hsome

theorem search_eq_of_isLeast (hne : pattern ≠ []) {i : ℕ}
    (hfirst : IsLeast {i | OccursAt pattern xs i} i) :
    search pattern xs = i := by
  rcases search_cases hne xs with hsearch | ⟨-, hnone⟩
  · exact hsearch.unique hfirst
  · exact absurd hfirst.1 (hnone i)

/-- The search may begin anywhere up to the first occurrence. -/
theorem add_search_drop (hne : pattern ≠ []) {k : ℕ} (hk : k ≤ xs.length)
    (hnone : ∀ i < k, ¬ OccursAt pattern xs i) :
    k + search pattern (xs.drop k) = search pattern xs := by
  have hbehind : ∀ i, OccursAt pattern xs i →
      ∃ j, i = k + j ∧ OccursAt pattern (xs.drop k) j := by
    intro i hi
    have hle : k ≤ i := by
      by_contra hlt
      exact hnone i (by omega) hi
    obtain ⟨j, rfl⟩ := Nat.exists_eq_add_of_le hle
    exact ⟨j, rfl, OccursAt.drop_iff.mpr hi⟩
  rcases search_cases hne (xs.drop k) with ⟨hoccurs, hleast⟩ | ⟨hlength, hall⟩
  · have hfirst : IsLeast {i | OccursAt pattern xs i}
        (k + search pattern (xs.drop k)) := by
      refine ⟨OccursAt.drop_iff.mp hoccurs, fun i hi => ?_⟩
      obtain ⟨j, rfl, hj⟩ := hbehind i hi
      exact Nat.add_le_add_left (hleast hj) k
    exact (search_eq_of_isLeast hne hfirst).symm
  · have hnever : ∀ i, ¬ OccursAt pattern xs i := by
      intro i hi
      obtain ⟨j, -, hj⟩ := hbehind i hi
      exact hall j hj
    rw [hlength, (search_eq_length_iff hne).mpr hnever, List.length_drop]
    omega

/-- What has been found stays the first occurrence. -/
theorem search_append_of_found (hne : pattern ≠ [])
    (hfound : search pattern xs ≠ xs.length) (ys : List α) :
    search pattern (xs ++ ys) = search pattern xs := by
  obtain ⟨hoccurs, hleast⟩ := (isLeast_search_iff hne).mpr hfound
  have hfirst : IsLeast {i | OccursAt pattern (xs ++ ys) i}
      (search pattern xs) := by
    refine ⟨hoccurs.append hne, fun i hi => ?_⟩
    by_contra hlt
    have hle := hoccurs.add_length_le hne
    exact hlt (hleast (OccursAt.of_append hi (by omega)))
  exact search_eq_of_isLeast hne hfirst

/-- After a failure the search is resumed at the last place where an occurrence
can begin that reaches into what is appended. -/
theorem search_append_resumed (hne : pattern ≠ [])
    (hnone : search pattern xs = xs.length) (ys : List α) :
    (xs.length - (pattern.length - 1)) +
        search pattern ((xs ++ ys).drop (xs.length - (pattern.length - 1))) =
      search pattern (xs ++ ys) := by
  have hpos := List.length_pos_iff.mpr hne
  apply add_search_drop hne
  · rw [List.length_append]
    omega
  · intro i hi hoccurs
    refine (search_eq_length_iff hne).mp hnone i (hoccurs.of_append ?_)
    omega

end EventServer.Support
