import Mathlib.Tactic

/-!
# Runs of a partial step function

A component is described by a step function `σ → α → Option σ`: the action
`a` can be taken in `s` exactly when `step s a` is some next state.  This file
contains what the rest of the development needs about finite runs of such a
function: the induction rule for invariants, and the same rule for runs whose
steps all meet a guard.
-/

namespace EventServer.Support

variable {σ α : Type*}

/-- Take the actions in order.  The result is `none` as soon as one of them
cannot be taken in the state that it meets. -/
def run (step : σ → α → Option σ) : σ → List α → Option σ
  | s, [] => some s
  | s, a :: as => (step s a).bind fun next => run step next as

/-- Every action of the run meets the guard in the state in which it is
taken. -/
def Guarded (step : σ → α → Option σ) (guard : σ → α → Prop) :
    σ → List α → Prop
  | _, [] => True
  | s, a :: as =>
      guard s a ∧ ∀ next, step s a = some next → Guarded step guard next as

instance decidableGuarded {step : σ → α → Option σ} {guard : σ → α → Prop}
    [∀ s a, Decidable (guard s a)] :
    ∀ s as, Decidable (Guarded step guard s as)
  | _, [] => isTrue trivial
  | s, a :: as =>
      match h : step s a with
      | none => decidable_of_iff (guard s a) (by simp [Guarded, h])
      | some next =>
          have : Decidable (Guarded step guard next as) :=
            decidableGuarded next as
          decidable_of_iff (guard s a ∧ Guarded step guard next as)
            (by simp [Guarded, h])

/-- `P` holds in every state that the run passes through, its first and its
last one included. -/
def Always (step : σ → α → Option σ) (P : σ → Prop) : σ → List α → Prop
  | s, [] => P s
  | s, a :: as =>
      P s ∧ ∀ next, step s a = some next → Always step P next as

section Runs

variable {step : σ → α → Option σ}

@[simp] theorem run_nil (s : σ) : run step s [] = some s := rfl

theorem run_cons_eq_some_iff {s t : σ} {a : α} {as : List α} :
    run step s (a :: as) = some t ↔
      ∃ next, step s a = some next ∧ run step next as = some t := by
  simp [run, Option.bind_eq_some_iff]

/-- A run continues where another one has ended. -/
theorem run_append {s t u : σ} {as bs : List α}
    (hfirst : run step s as = some t) (hrest : run step t bs = some u) :
    run step s (as ++ bs) = some u := by
  induction as generalizing s with
  | nil =>
      have heq : s = t := by simpa using hfirst
      exact heq ▸ hrest
  | cons a as ih =>
      obtain ⟨next, hstep, htail⟩ := run_cons_eq_some_iff.mp hfirst
      exact run_cons_eq_some_iff.mpr ⟨next, hstep, ih htail⟩

/-- Evaluating a run finds the state that it reaches. -/
theorem exists_run_of_eval {s : σ} {as : List α} {P : σ → Prop}
    [DecidablePred P]
    (heval : (run step s as).any (fun t => decide (P t)) = true) :
    ∃ t, run step s as = some t ∧ P t := by
  obtain ⟨t, hrun, hP⟩ := (Option.any_eq_true _ _).mp heval
  exact ⟨t, hrun, of_decide_eq_true hP⟩

/-- The induction rule for invariants of guarded runs. -/
theorem run_invariant_of_guarded {I : σ → Prop} {guard : σ → α → Prop}
    (hpreserve : ∀ s a t, I s → guard s a → step s a = some t → I t)
    {s t : σ} {as : List α} (hs : I s)
    (hguard : Guarded step guard s as) (hrun : run step s as = some t) :
    I t := by
  induction as generalizing s with
  | nil =>
      have heq : s = t := by simpa using hrun
      exact heq ▸ hs
  | cons a as ih =>
      obtain ⟨next, hstep, hrest⟩ := run_cons_eq_some_iff.mp hrun
      exact ih (hpreserve s a next hs hguard.1 hstep)
        (hguard.2 next hstep) hrest

/-- On a run that goes through, a guard on the actions alone is met when all
of them meet it. -/
theorem guarded_iff_forall {guard : α → Prop} {s t : σ} {as : List α}
    (hrun : run step s as = some t) :
    Guarded step (fun _ a => guard a) s as ↔ ∀ a ∈ as, guard a := by
  induction as generalizing s with
  | nil => simp [Guarded]
  | cons a as ih =>
      obtain ⟨next, hstep, hrest⟩ := run_cons_eq_some_iff.mp hrun
      simp [Guarded, hstep, ih hrest]

theorem guarded_of_forall {guard : σ → α → Prop}
    (hguard : ∀ s a, guard s a) (s : σ) (as : List α) :
    Guarded step guard s as := by
  induction as generalizing s with
  | nil => trivial
  | cons a as ih => exact ⟨hguard s a, fun next _ => ih next⟩

/-- The induction rule for invariants: what every step preserves holds in
every state that a run reaches. -/
theorem run_invariant {I : σ → Prop}
    (hpreserve : ∀ s a t, I s → step s a = some t → I t)
    {s t : σ} {as : List α} (hs : I s) (hrun : run step s as = some t) :
    I t :=
  have hguard : Guarded step (fun _ _ => True) s as :=
    guarded_of_forall (fun _ _ => trivial) s as
  run_invariant_of_guarded
    (fun s a t hI _ hstep => hpreserve s a t hI hstep) hs hguard hrun

/-- The induction rule for what a state says about the actions that have led
to it. -/
theorem run_history {H : List α → σ → Prop}
    (hpreserve : ∀ before s a t, H before s → step s a = some t →
      H (before ++ [a]) t)
    {s t : σ} {before as : List α} (hs : H before s)
    (hrun : run step s as = some t) : H (before ++ as) t := by
  induction as generalizing s before with
  | nil =>
      have heq : s = t := by simpa using hrun
      rw [List.append_nil]
      exact heq ▸ hs
  | cons a as ih =>
      obtain ⟨next, hstep, hrest⟩ := run_cons_eq_some_iff.mp hrun
      have hnext := ih (hpreserve before s a next hs hstep) hrest
      rwa [List.append_assoc] at hnext

/-- Take a run whose steps all meet `base`.  If a step keeps `P` exactly when
it meets the guard, then `P` holds all along the run exactly when all its
steps meet the guard. -/
theorem always_iff_guarded_of_guarded {I P : σ → Prop}
    {base guard : σ → α → Prop}
    (hpreserve : ∀ s a t, I s → base s a → guard s a → step s a = some t → I t)
    (hexact : ∀ s a t, I s → P s → base s a → step s a = some t →
      (P t ↔ guard s a))
    {s t : σ} {as : List α} (hI : I s) (hP : P s)
    (hbase : Guarded step base s as) (hrun : run step s as = some t) :
    Always step P s as ↔ Guarded step guard s as := by
  induction as generalizing s with
  | nil => simpa [Always, Guarded] using hP
  | cons a as ih =>
      obtain ⟨next, hstep, hrest⟩ := run_cons_eq_some_iff.mp hrun
      have hnext : P next ↔ guard s a := hexact s a next hI hP hbase.1 hstep
      have htail := hbase.2 next hstep
      have honly : ∀ other, step s a = some other → other = next := by
        intro other hother
        simpa [hstep] using hother.symm
      constructor
      · intro halways
        have hrestAlways : Always step P next as := halways.2 next hstep
        have hPnext : P next := by
          cases as with
          | nil => exact hrestAlways
          | cons b bs => exact hrestAlways.1
        have hguard : guard s a := hnext.mp hPnext
        have hInext : I next := hpreserve s a next hI hbase.1 hguard hstep
        refine ⟨hguard, ?_⟩
        intro other hother
        rw [honly other hother]
        exact (ih hInext hPnext htail hrest).mp hrestAlways
      · intro hguard
        have hInext : I next := hpreserve s a next hI hbase.1 hguard.1 hstep
        refine ⟨hP, ?_⟩
        intro other hother
        rw [honly other hother]
        exact (ih hInext (hnext.mpr hguard.1) htail hrest).mpr
          (hguard.2 next hstep)

/-- If each step keeps `P` exactly when it meets the guard, then `P` holds all
along a run exactly when all its steps meet the guard. -/
theorem always_iff_guarded {I P : σ → Prop} {guard : σ → α → Prop}
    (hpreserve : ∀ s a t, I s → step s a = some t → I t)
    (hexact : ∀ s a t, I s → P s → step s a = some t → (P t ↔ guard s a))
    {s t : σ} {as : List α} (hI : I s) (hP : P s)
    (hrun : run step s as = some t) :
    Always step P s as ↔ Guarded step guard s as :=
  have hbase : Guarded step (fun _ _ => True) s as :=
    guarded_of_forall (fun _ _ => trivial) s as
  always_iff_guarded_of_guarded
    (fun s a t hI _ _ hstep => hpreserve s a t hI hstep)
    (fun s a t hI hP _ hstep => hexact s a t hI hP hstep) hI hP hbase hrun

/-- If each step keeps `P` exactly when it meets the guard, with no help of
another invariant, then `P` holds all along a run exactly when all its steps
meet the guard. -/
theorem always_iff_guarded_of_exact {P : σ → Prop} {guard : σ → α → Prop}
    (hexact : ∀ s a t, P s → step s a = some t → (P t ↔ guard s a))
    {s t : σ} {as : List α} (hP : P s) (hrun : run step s as = some t) :
    Always step P s as ↔ Guarded step guard s as :=
  have hbase : Guarded step (fun _ _ => True) s as :=
    guarded_of_forall (fun _ _ => trivial) s as
  always_iff_guarded_of_guarded
    (fun s a t h _ hguard hstep => (hexact s a t h hstep).mpr hguard)
    (fun s a t h _ _ hstep => hexact s a t h hstep) hP hP hbase hrun

end Runs

section Reaches

variable (step : σ → α → Option σ) (allowed : α → Prop)

/-- `t` can be reached from `s` by actions that are all allowed. -/
def Reaches (s t : σ) : Prop :=
  ∃ as, run step s as = some t ∧ ∀ a ∈ as, allowed a

variable {step allowed} {s t u : σ}

theorem Reaches.refl (s : σ) : Reaches step allowed s s :=
  ⟨[], rfl, fun _ ha => absurd ha List.not_mem_nil⟩

theorem Reaches.of_step {a : α} (hstep : step s a = some t) (ha : allowed a) :
    Reaches step allowed s t :=
  ⟨[a], run_cons_eq_some_iff.mpr ⟨t, hstep, rfl⟩, by simpa using ha⟩

theorem Reaches.trans (hst : Reaches step allowed s t)
    (htu : Reaches step allowed t u) : Reaches step allowed s u := by
  obtain ⟨as, hrun, has⟩ := hst
  obtain ⟨bs, hrest, hbs⟩ := htu
  refine ⟨as ++ bs, run_append hrun hrest, fun a ha => ?_⟩
  rcases List.mem_append.mp ha with ha | ha
  · exact has a ha
  · exact hbs a ha

/-- The induction rule for progress: if an allowed step lowers the measure
wherever the goal is not met, the goal can be reached. -/
theorem reaches_of_measure {I G : σ → Prop} (measure : σ → ℕ)
    (hprogress : ∀ s, I s → ¬ G s →
      ∃ a t, allowed a ∧ step s a = some t ∧ I t ∧ measure t < measure s)
    (hI : I s) : ∃ t, Reaches step allowed s t ∧ I t ∧ G t := by
  induction hn : measure s using Nat.strong_induction_on generalizing s with
  | _ n ih =>
      subst hn
      by_cases hgoal : G s
      · exact ⟨s, .refl s, hI, hgoal⟩
      · obtain ⟨a, next, ha, hstep, hnext, hlt⟩ := hprogress s hI hgoal
        obtain ⟨t, hreach, hIt, hgoalt⟩ := ih (measure next) hlt hnext rfl
        exact ⟨t, (Reaches.of_step hstep ha).trans hreach, hIt, hgoalt⟩

end Reaches

end EventServer.Support
