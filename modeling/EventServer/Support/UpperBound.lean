import Mathlib.Tactic

/-!
# `std::upper_bound`

The halving search of the standard library, on a list in any order.  The
predicate `after` tells that the sought value belongs in front of an element.
Whatever the order of the list, the search ends at a position with an element
in front of it that is not `after`, if there is one, and an element behind it
that is.
-/

namespace EventServer.Support

variable {α : Type*}

/-- The loop of the search on the `len` elements from `first` on.  The fuel is
only there for the recursion: `len` suffices. -/
def upperBoundLoop (after : α → Bool) (xs : List α) :
    (fuel first len : ℕ) → first + len ≤ xs.length → ℕ
  | 0, first, _, _ => first
  | fuel + 1, first, len, h =>
      if hlen : len = 0 then first
      else
        if after (xs.get ⟨first + len / 2, by omega⟩)
        then upperBoundLoop after xs fuel first (len / 2) (by omega)
        else upperBoundLoop after xs fuel (first + len / 2 + 1)
          (len - len / 2 - 1) (by omega)

/-- The position that `std::upper_bound` returns. -/
def upperBound (after : α → Bool) (xs : List α) : ℕ :=
  upperBoundLoop after xs xs.length 0 xs.length (by omega)

/-- The position separates an element that is not `after` from one that is,
unless it is at an end of the list. -/
structure Separates (after : α → Bool) (xs : List α) (r : ℕ) : Prop where
  le_length : r ≤ xs.length
  before : ∀ i x, i + 1 = r → xs[i]? = some x → after x = false
  behind : ∀ x, xs[r]? = some x → after x = true

theorem upperBoundLoop_separates {after : α → Bool} {xs : List α}
    (fuel first len : ℕ) (h : first + len ≤ xs.length) (hfuel : len ≤ fuel)
    (hbefore : ∀ i x, i + 1 = first → xs[i]? = some x → after x = false)
    (hbehind : ∀ x, xs[first + len]? = some x → after x = true) :
    Separates after xs (upperBoundLoop after xs fuel first len h) := by
  induction fuel generalizing first len with
  | zero =>
      have hlen : len = 0 := by omega
      subst hlen
      exact ⟨h, hbefore, hbehind⟩
  | succ fuel ih =>
      unfold upperBoundLoop
      by_cases hlen : len = 0
      · subst hlen
        rw [dif_pos rfl]
        exact ⟨h, hbefore, hbehind⟩
      · rw [dif_neg hlen]
        have hmid : first + len / 2 < xs.length := by omega
        split
        · rename_i hafter
          apply ih _ _ _ (by omega) hbefore
          intro x hx
          rw [List.getElem?_eq_getElem hmid] at hx
          have heq := Option.some.inj hx
          exact heq ▸ hafter
        · rename_i hafter
          apply ih _ _ _ (by omega)
          · intro i x hi hx
            have hmid' : i = first + len / 2 := by omega
            subst hmid'
            rw [List.getElem?_eq_getElem hmid] at hx
            have heq := Option.some.inj hx
            rw [← heq]
            simpa using hafter
          · intro x hx
            apply hbehind
            have hend : first + len / 2 + 1 + (len - len / 2 - 1) =
                first + len := by
              omega
            rw [← hend]
            exact hx

theorem upperBound_separates (after : α → Bool) (xs : List α) :
    Separates after xs (upperBound after xs) := by
  apply upperBoundLoop_separates
  · exact le_refl _
  · intro i x hi
    omega
  · intro x hx
    simp at hx

/-! ## Ranks in an increasing sequence -/

/-- The first `k` of the `n` values are at most `v`, the others exceed it. -/
structure Rank (f : ℕ → ℤ) (n : ℕ) (v : ℤ) (k : ℕ) : Prop where
  le : k ≤ n
  reached : ∀ i, i + 1 = k → f i ≤ v
  ahead : k < n → v < f k

/-- The first `n` values are increasing. -/
def Increasing (f : ℕ → ℤ) (n : ℕ) : Prop :=
  ∀ i, i + 1 < n → f i < f (i + 1)

theorem Increasing.le_of_le {f : ℕ → ℤ} {n : ℕ} (hf : Increasing f n)
    {i j : ℕ} (hij : i ≤ j) (hj : j < n) : f i ≤ f j := by
  induction j, hij using Nat.le_induction with
  | base => exact le_refl _
  | succ j hij ih =>
      have hstep := hf j hj
      have hprev := ih (by omega)
      omega

theorem Rank.not_lt {f : ℕ → ℤ} {n : ℕ} (hf : Increasing f n) {v : ℤ}
    {k m : ℕ} (hk : Rank f n v k) (hm : Rank f n v m) : ¬ k < m := by
  intro hlt
  obtain ⟨i, rfl⟩ : ∃ i, m = i + 1 := ⟨m - 1, by omega⟩
  have hle := hm.le
  have hahead := hk.ahead (by omega)
  have hreached := hm.reached i rfl
  have hmono := hf.le_of_le (show k ≤ i by omega) (by omega)
  omega

theorem Rank.unique {f : ℕ → ℤ} {n : ℕ} (hf : Increasing f n) {v : ℤ}
    {k m : ℕ} (hk : Rank f n v k) (hm : Rank f n v m) : k = m := by
  have hkm := hk.not_lt hf hm
  have hmk := hm.not_lt hf hk
  omega

/-- On keys the search returns the rank of the sought value. -/
theorem upperBound_rank {xs : List α} {key : α → ℤ} {f : ℕ → ℤ}
    (hf : ∀ i x, xs[i]? = some x → f i = key x) (v : ℤ) :
    Rank f xs.length v (upperBound (fun x => decide (v < key x)) xs) := by
  have hsep := upperBound_separates (fun x => decide (v < key x)) xs
  refine ⟨hsep.le_length, ?_, ?_⟩
  · intro i hi
    have hlt : i < xs.length := by
      have := hsep.le_length
      omega
    have hget := List.getElem?_eq_getElem hlt
    have hafter := hsep.before i _ hi hget
    rw [hf i _ hget]
    simpa using hafter
  · intro hlt
    have hget := List.getElem?_eq_getElem hlt
    have hafter := hsep.behind _ hget
    rw [hf _ _ hget]
    simpa using hafter

end EventServer.Support
