import Mathlib.Tactic

/-!
# Work lists

A work list takes new entries at its back and gives them out at its front.
Entries may also be withdrawn.  An entry that is in the list already can be left
where it is.  `taken` counts the entries given out so far, and an entry is in
turn for a bound if it will be given out before the count gets there.
-/

namespace EventServer.Support

variable {α : Type*} {l : List α} {a x : α} {taken bound : ℕ}

section Enqueue

variable [DecidableEq α]

/-- `a` goes to the back of the list, unless it is in the list. -/
def enqueue (l : List α) (a : α) : List α := if a ∈ l then l else l ++ [a]

@[simp] theorem mem_enqueue : x ∈ enqueue l a ↔ x ∈ l ∨ x = a := by
  unfold enqueue
  split
  · rename_i hmem
    constructor
    · exact Or.inl
    · rintro (h | rfl)
      · exact h
      · exact hmem
  · simp

theorem enqueue_eq_append (l : List α) (a : α) : ∃ m, enqueue l a = l ++ m := by
  unfold enqueue
  split
  · exact ⟨[], (List.append_nil l).symm⟩
  · exact ⟨[a], rfl⟩

theorem length_enqueue_le (l : List α) (a : α) :
    (enqueue l a).length ≤ l.length + 1 := by
  unfold enqueue
  split
  · exact Nat.le_succ _
  · rw [List.length_append, List.length_singleton]

theorem count_enqueue_le (h : l.count x ≤ 1) :
    (enqueue l a).count x ≤ 1 := by
  unfold enqueue
  split
  · exact h
  · rename_i hmem
    rw [List.count_append]
    by_cases hx : x = a
    · subst hx
      simp [List.count_eq_zero_of_not_mem hmem]
    · simpa [List.count_singleton, Ne.symm hx] using h

end Enqueue

/-- `a` is in the list, behind so few others that it is given out while the
count is below the bound. -/
def InTurn (l : List α) (taken bound : ℕ) (a : α) : Prop :=
  ∃ front back, l = front ++ a :: back ∧ taken + front.length < bound

theorem inTurn_of_mem (h : a ∈ l) : InTurn l taken (taken + l.length) a := by
  obtain ⟨front, back, rfl⟩ := List.append_of_mem h
  refine ⟨front, back, rfl, ?_⟩
  rw [List.length_append, List.length_cons]
  omega

theorem InTurn.lt (h : InTurn l taken bound a) : taken < bound := by
  obtain ⟨front, back, -, hlt⟩ := h
  omega

/-- New entries do not come before `a`. -/
theorem InTurn.append (h : InTurn l taken bound a) (m : List α) :
    InTurn (l ++ m) taken bound a := by
  obtain ⟨front, back, rfl, hlt⟩ := h
  exact ⟨front, back ++ m, by simp, hlt⟩

/-- Withdrawing others brings `a` nearer to the front. -/
theorem InTurn.filter (h : InTurn l taken bound a) {p : α → Bool}
    (hp : p a = true) : InTurn (l.filter p) taken bound a := by
  obtain ⟨front, back, rfl, hlt⟩ := h
  refine ⟨front.filter p, back.filter p, ?_, ?_⟩
  · rw [List.filter_append, List.filter_cons_of_pos hp]
  · have hle := List.length_filter_le p front
    omega

/-- Another entry is given out. -/
theorem InTurn.tail (h : InTurn (x :: l) taken bound a) (hne : x ≠ a) :
    InTurn l (taken + 1) bound a := by
  obtain ⟨front, back, hlist, hlt⟩ := h
  cases front with
  | nil => exact absurd (List.cons.inj hlist).1 hne
  | cons y front =>
      refine ⟨front, back, (List.cons.inj hlist).2, ?_⟩
      rw [List.length_cons] at hlt
      omega

end EventServer.Support
