import EventServer.Common.MutexLock

/-!
# Where the threads of a mutex can be stuck

A thread that is in one of the lock functions can go on by itself, unless the
mutex is taken or it waits for a signal.
-/

namespace EventServer.Common.MutexLock

open EventServer.Support

variable {κ : Type} [DecidableEq κ] {s : MutexLock κ} {t : Tid}

/-- A step that goes on inside a lock function, and not by a wake-up without
a signal, which nothing makes happen. -/
def Step.goesOn (a : Step κ) : Bool :=
  a.isInternal && (match a with | .wake _ => false | _ => true)

/-- Before it goes on in a lock function a thread is in one, unless all that is
left is the release. -/
theorem isOut_of_internal {s' : MutexLock κ} {a : Step κ}
    (hinternal : a.isInternal = true) (hrelease : a ≠ .release)
    (hstep : s.step (t, a) = some s') : (s.position t).isOut = false := by
  cases a with
  | release => exact absurd rfl hrelease
  | lock | unassign | guard c | notify c who | notifyAll c => cases hinternal
  | acquire | assign | block c | wake c | resume c | unguard =>
      obtain ⟨hpos, -⟩ := Option.ite_none_right_eq_some.mp hstep
      simp [hpos, LockPosition.isOut]

/-- The thread can go on inside a lock function. -/
def CanGoOn (s : MutexLock κ) (t : Tid) : Prop :=
  ∃ a : Step κ, a.goesOn = true ∧ (s.step (t, a)).isSome = true

/-- The thread that has the mutex goes on until it is inside or outside. -/
theorem canGoOn_of_owns (hwaiters : s.Waiters)
    (howns : (s.position t).owns = true) (hout : s.position t ≠ .inside) :
    s.CanGoOn t := by
  cases hpos : s.position t with
  | outside | locking | waiting c =>
      rw [hpos] at howns
      cases howns
  | inside => exact absurd hpos hout
  | locked => exact ⟨.assign, rfl, by simp [step, hpos]⟩
  | unlocking => exact ⟨.release, rfl, by simp [step, hpos]⟩
  | woken => exact ⟨.unguard, rfl, by simp [step, hpos]⟩
  | unassigned c => exact ⟨.block c, rfl, hwaiters.block_isSome hpos⟩

/-- A thread that has been woken goes on when the mutex is free. -/
theorem canGoOn_of_woken (hwaiters : s.Waiters) (hfree : s.mutex_ = none)
    {c : κ} (hpos : s.position t = .waiting c)
    (hwoken : t ∉ (s.conditions c).waiting) : s.CanGoOn t := by
  have hblocked : t ∈ (s.conditions c).blocked := (hwaiters c t).mpr hpos
  refine ⟨.resume c, rfl, ?_⟩
  simp only [Condition.blocked, List.mem_append] at hblocked
  have hor : t ∈ (s.conditions c).notified ∨ t ∈ (s.conditions c).woken := by
    tauto
  unfold step Condition.resume
  by_cases hmem : t ∈ (s.conditions c).notified
  · simp [hpos, hfree, hmem]
  · simp [hpos, hfree, hmem, hor.resolve_left hmem]

/-- When nobody can go on and nobody is inside, the mutex is free, and every
thread is outside or waits for a signal that has not come. -/
theorem stuck_cases (h : s.Owned) (hwaiters : s.Waiters)
    (hstuck : ∀ t, ¬ s.CanGoOn t) (hout : ∀ t, s.position t ≠ .inside) :
    s.mutex_ = none ∧ ∀ t, s.position t = .outside ∨
      ∃ c, s.position t = .waiting c ∧ t ∈ (s.conditions c).waiting := by
  have hnone : ∀ t, (s.position t).owns ≠ true :=
    fun t howns => hstuck t (canGoOn_of_owns hwaiters howns (hout t))
  have hfree : s.mutex_ = none := by
    cases hmutex : s.mutex_ with
    | none => rfl
    | some t => exact absurd ((h.mutex_iff t).mp hmutex) (hnone t)
  refine ⟨hfree, fun t => ?_⟩
  cases hpos : s.position t with
  | outside => exact Or.inl rfl
  | locking =>
      exact absurd ⟨.acquire, rfl, by simp [step, hpos, hfree]⟩ (hstuck t)
  | waiting c =>
      refine Or.inr ⟨c, rfl, ?_⟩
      by_contra hwoken
      exact hstuck t (canGoOn_of_woken hwaiters hfree hpos hwoken)
  | locked | inside | unlocking | unassigned c | woken =>
      exact absurd (by rw [hpos]; rfl) (hnone t)

end EventServer.Common.MutexLock
