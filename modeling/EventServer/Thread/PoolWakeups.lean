import EventServer.Common.MutexProgress
import EventServer.Thread.PoolSteps

/-!
# The wake-ups of the thread pool

No signal is lost between the lines of `run`, `take` and `stop`: as long as
some thread waits for a signal, as many threads as there are tasks, or free
places, have been signalled or are about to find them.  Therefore the pool is
stuck only when there is nothing to do.
-/

namespace EventServer.Thread

open EventServer.Support EventServer.Common

/-! ## The lines of the thread that has the mutex -/

/-- The thread at the line waits on the condition variable. -/
def PoolLine.waitsOn {α : Type} : PoolLine α → PoolCondition → Bool
  | .takeLoop, .notEmpty | .runLoop _, .notFull => true
  | _, _ => false

/-- The thread at the line is about to use up, or to announce, one task
(`notEmpty`) or one free place (`notFull`). -/
def PoolLine.credit {α : Type} : PoolLine α → PoolCondition → ℕ
  | .takeLoop, .notEmpty | .takePop, .notEmpty | .runNotify, .notEmpty => 1
  | .runLoop _, .notFull | .runTest _, .notFull | .runAssert _, .notFull
  | .runPush _, .notFull | .takeNotify _, .notFull => 1
  | _, _ => 0

/-- The thread at the line is about to wake everybody. -/
def PoolLine.wakesAll {α : Type} : PoolLine α → PoolCondition → Bool
  | .stopNotifyEmpty, _ | .stopNotifyFull, .notFull => true
  | _, _ => false

theorem PoolLine.credit_of_waitsOn {α : Type} {l : PoolLine α}
    {c : PoolCondition} (hon : l.waitsOn c = true) (e : PoolCondition) :
    l.credit e = if e = c then 1 else 0 := by
  cases l with
  | takeLoop | runLoop task =>
      cases c with
      | notEmpty | notFull =>
          cases e with
          | notEmpty | notFull => first | rfl | cases hon
  | _ => cases hon

namespace LockedPool

variable {α : Type}

/-- What the threads that wait on the condition variable wait for: the tasks
in the queue, or the free places. -/
def supply (s : LockedPool α) : PoolCondition → ℕ
  | .notEmpty => s.queue_.length
  | .notFull => s.maxQueueSize_ - s.queue_.length

/-- A thread has to wait on the condition variable. -/
def Blocks (s : LockedPool α) : PoolCondition → Prop
  | .notEmpty => s.queue_ = []
  | .notFull => s.AtBound

/-- The line of the thread that has the mutex. -/
def ownerLine (s : LockedPool α) : PoolLine α :=
  match s.mutex_.mutex_ with
  | some t => s.line t
  | none => .idle

/-! ## The invariant -/

/-- Where a thread may be in `wait()`. -/
def Placed (s : LockedPool α) (l : PoolLine α) :
    LockPosition PoolCondition → Prop
  | .unassigned c => l.waitsOn c = true ∧ s.running_ = true ∧ s.Blocks c
  | .waiting c => l.waitsOn c = true ∧ (c = .notFull → 0 < s.maxQueueSize_)
  | _ => True

/-- Nobody waits in vain on the condition variable, when the thread that has
the mutex is at the line `l`. -/
def Served (s : LockedPool α) (c : PoolCondition) (d : Condition Tid)
    (l : PoolLine α) : Prop :=
  d.waiting = [] ∨ if s.running_ = true
    then s.supply c ≤ d.notified.length + l.credit c
    else l.wakesAll c = true

structure Supplied (s : LockedPool α) : Prop where
  waiters : s.mutex_.Waiters
  placed : ∀ t, s.Placed (s.line t) (s.mutex_.position t)
  served : ∀ c, s.Served c (s.mutex_.conditions c) s.ownerLine

theorem started_supplied (numThreads maxQueueSize : ℕ) :
    (started numThreads maxQueueSize : LockedPool α).Supplied where
  waiters := MutexLock.create_waiters
  placed := fun _ => trivial
  served := fun _ => Or.inl rfl

section Steps

variable {s s' : LockedPool α} {t who : Tid} {l : PoolLine α}
  {c : PoolCondition} {d : Condition Tid}

theorem ownerLine_of_owns (h : s.Sound)
    (howns : (s.mutex_.position t).owns = true) : s.ownerLine = s.line t := by
  simp [ownerLine, (h.owned.mutex_iff t).mpr howns]

/-- Served, when there is no more to be served than before. -/
theorem Served.mono (h : s.Served c d l) {l' : PoolLine α}
    (hrunning : s'.running_ = s.running_) (hsupply : s'.supply c = s.supply c)
    (hcredit : s.running_ = true → l.credit c ≤ l'.credit c)
    (hwakes : s.running_ = false → l.wakesAll c = true →
      l'.wakesAll c = true) : s'.Served c d l' := by
  refine h.imp id fun hserved => ?_
  rw [hrunning, hsupply]
  cases hr : s.running_ with
  | true =>
      rw [hr, if_pos rfl] at hserved
      rw [if_pos rfl]
      exact hserved.trans (Nat.add_le_add_left (hcredit hr) _)
  | false =>
      rw [hr, if_neg Bool.false_ne_true] at hserved
      rw [if_neg Bool.false_ne_true]
      exact hwakes hr hserved

namespace Supplied

/-- The thread that is inside goes on to another line, and may change the data;
the lock stays as it is. -/
theorem advance (hw : s.Supplied) (h : s.Sound)
    (hin : s.mutex_.position t = .inside)
    (hline : s'.line = Function.update s.line t l)
    (hmutex : s'.mutex_ = s.mutex_)
    (hmax : s'.maxQueueSize_ = s.maxQueueSize_)
    (hserved : ∀ c d, s.Served c d (s.line t) → s'.Served c d l) :
    s'.Supplied where
  waiters := hmutex ▸ hw.waiters
  placed := by
    intro x
    rw [hmutex, hline]
    by_cases hx : x = t
    · rw [hx, hin]
      trivial
    · rw [Function.update_of_ne hx]
      have hplaced := hw.placed x
      cases hpos : s.mutex_.position x with
      | unassigned c =>
          exact absurd (h.owned.owns_unique (by rw [hpos]; rfl)
            (MutexLock.owns_of_inside hin)) hx
      | waiting c =>
          rw [hpos] at hplaced
          exact ⟨hplaced.1, hmax ▸ hplaced.2⟩
      | _ => trivial
  served := by
    intro c
    have howner : (s.mutex_.position t).owns = true :=
      MutexLock.owns_of_inside hin
    have hserved' := hw.served c
    rw [ownerLine_of_owns h howner] at hserved'
    have hafter : s'.ownerLine = l := by
      simp [ownerLine, hmutex, (h.owned.mutex_iff t).mpr howner, hline]
    rw [hmutex, hafter]
    exact hserved c _ hserved'

/-- The thread that is inside signals, and goes on to another line. -/
theorem signal (hw : s.Supplied) (h : s.Sound)
    (hin : s.mutex_.position t = .inside)
    (hblocked : ∀ x, x ∈ d.blocked ↔ x ∈ (s.mutex_.conditions c).blocked)
    (hself : s.Served c (s.mutex_.conditions c) (s.line t) → s.Served c d l)
    (hothers : ∀ e d, e ≠ c → s.Served e d (s.line t) → s.Served e d l) :
    ((s.goto t l).setCondition c d).Supplied where
  waiters := hw.waiters.setCondition hblocked
  placed := by
    intro x
    change s.Placed (Function.update s.line t l x) (s.mutex_.position x)
    by_cases hx : x = t
    · rw [hx, hin]
      trivial
    · rw [Function.update_of_ne hx]
      exact hw.placed x
  served := by
    intro e
    have howner : (s.mutex_.position t).owns = true :=
      MutexLock.owns_of_inside hin
    have hserved := hw.served e
    rw [ownerLine_of_owns h howner] at hserved
    have hafter : ((s.goto t l).setCondition c d).ownerLine = l := by
      simp [ownerLine, goto, setCondition, MutexLock.setCondition,
        (h.owned.mutex_iff t).mpr howner]
    rw [hafter]
    change s.Served e (Function.update s.mutex_.conditions c d e) l
    by_cases he : e = c
    · subst he
      rw [Function.update_self]
      exact hself hserved
    · rw [Function.update_of_ne he]
      exact hothers e _ he hserved

/-- The thread only goes on to another line. -/
theorem goto (hw : s.Supplied) (h : s.Sound)
    (hin : s.mutex_.position t = .inside)
    (hcredit : s.running_ = true →
      ∀ c, (s.line t).credit c ≤ l.credit c)
    (hwakes : ∀ c, (s.line t).wakesAll c = true → l.wakesAll c = true) :
    (s.goto t l).Supplied :=
  hw.advance h hin rfl rfl rfl fun c _ hserved =>
    hserved.mono rfl rfl (fun hr => hcredit hr c) fun _ => hwakes c

/-- The thread that is inside is about to leave the mutex. -/
theorem leave (hw : s.Supplied) (h : s.Sound)
    (hin : s.mutex_.position t = .inside) {p : LockPosition PoolCondition}
    (hline : s'.line = Function.update s.line t l)
    (hmutex : s'.mutex_ = s.mutex_.unassignHolder.goto t p)
    (hqueue : s'.queue_ = s.queue_) (hmax : s'.maxQueueSize_ = s.maxQueueSize_)
    (hrunning : s'.running_ = s.running_) (hplaced : s'.Placed l p)
    (hwaiting : ∀ c, p ≠ .waiting c)
    (hcredit : ∀ c, (s.line t).credit c ≤ l.credit c)
    (hwakes : ∀ c, (s.line t).wakesAll c = true → l.wakesAll c = true) :
    s'.Supplied where
  waiters := by
    rw [hmutex]
    exact hw.waiters.goto rfl rfl (by simp [hin]) hwaiting
  placed := by
    intro x
    rw [hmutex, hline]
    change s'.Placed (Function.update s.line t l x)
      (Function.update s.mutex_.position t p x)
    by_cases hx : x = t
    · rw [hx, Function.update_self, Function.update_self]
      exact hplaced
    · rw [Function.update_of_ne hx, Function.update_of_ne hx]
      have hbefore := hw.placed x
      cases hpos : s.mutex_.position x with
      | unassigned c =>
          exact absurd (h.owned.owns_unique (by rw [hpos]; rfl)
            (MutexLock.owns_of_inside hin)) hx
      | waiting c =>
          rw [hpos] at hbefore
          exact ⟨hbefore.1, hmax ▸ hbefore.2⟩
      | _ => trivial
  served := by
    intro c
    have howner : (s.mutex_.position t).owns = true :=
      MutexLock.owns_of_inside hin
    have hserved := hw.served c
    rw [ownerLine_of_owns h howner] at hserved
    have hafter : s'.ownerLine = l := by
      simp [ownerLine, hmutex, MutexLock.goto, MutexLock.unassignHolder,
        (h.owned.mutex_iff t).mpr howner, hline]
    have hsupply : s'.supply c = s.supply c := by
      cases c <;> simp [supply, hqueue, hmax]
    rw [hafter, hmutex]
    exact hserved.mono hrunning hsupply (fun _ => hcredit c)
      fun _ => hwakes c

/-! ## The lines -/

theorem runPush (hw : s.Supplied) (h : s.Sound) {task : α}
    (hin : s.mutex_.position t = .inside) (hat : s.line t = .runPush task)
    (hrunning : s.running_ = true) : (s.runPush t task).Supplied := by
  refine hw.advance h hin rfl rfl rfl fun c d hserved => ?_
  rw [hat] at hserved
  refine hserved.imp id fun hmore => ?_
  rw [hrunning, if_pos rfl] at hmore
  have hafter : (s.runPush t task).running_ = true := hrunning
  rw [hafter, if_pos rfl]
  cases c with
  | notEmpty =>
      change (s.queue_ ++ [task]).length ≤ d.notified.length + 1
      rw [List.length_append, List.length_singleton]
      exact Nat.add_le_add_right hmore 1
  | notFull =>
      change s.maxQueueSize_ - s.queue_.length ≤ d.notified.length + 1 at hmore
      change s.maxQueueSize_ - (s.queue_ ++ [task]).length ≤
        d.notified.length + 0
      rw [List.length_append, List.length_singleton]
      omega

theorem takePop (hw : s.Supplied) (h : s.Sound)
    (hin : s.mutex_.position t = .inside) (hat : s.line t = .takePop)
    {task : α} {rest : List α} (hqueue : s.queue_ = task :: rest)
    (hline : s'.line = Function.update s.line t l)
    (hmutex : s'.mutex_ = s.mutex_)
    (hmax : s'.maxQueueSize_ = s.maxQueueSize_)
    (hrunning : s'.running_ = s.running_) (hrest : s'.queue_ = rest)
    (hfull : 0 < s.maxQueueSize_ → l.credit .notFull = 1) :
    s'.Supplied := by
  refine hw.advance h hin hline hmutex hmax fun c d hserved => ?_
  rw [hat] at hserved
  refine hserved.imp id fun hmore => ?_
  rw [hrunning]
  cases hr : s.running_ with
  | false =>
      rw [hr, if_neg Bool.false_ne_true] at hmore
      cases c <;> cases hmore
  | true =>
      rw [hr, if_pos rfl] at hmore
      rw [if_pos rfl]
      cases c with
      | notEmpty =>
          change s.queue_.length ≤ d.notified.length + 1 at hmore
          change s'.queue_.length ≤ d.notified.length + l.credit .notEmpty
          rw [hqueue, List.length_cons] at hmore
          rw [hrest]
          omega
      | notFull =>
          change s.maxQueueSize_ - s.queue_.length ≤
            d.notified.length + 0 at hmore
          change s'.maxQueueSize_ - s'.queue_.length ≤
            d.notified.length + l.credit .notFull
          rw [hqueue, List.length_cons] at hmore
          rw [hrest, hmax]
          omega

/-- A signal makes up for the credit of the thread that sends it. -/
theorem signal_one (hw : s.Supplied) (h : s.Sound)
    (hin : s.mutex_.position t = .inside)
    (hd : (s.mutex_.conditions c).notify who = some d)
    (hself : (s.line t).credit c ≤ 1)
    (hothers : ∀ e, e ≠ c → (s.line t).credit e = 0)
    (hwakes : ∀ e, (s.line t).wakesAll e = false) :
    ((s.goto t l).setCondition c d).Supplied := by
  obtain ⟨hblocked, hcases⟩ := Condition.notify_spec hd
  refine hw.signal h hin hblocked (fun hserved => ?_) fun e d' he hserved => ?_
  · rcases hserved with hnone | hmore
    · rcases hcases with ⟨-, rfl⟩ | ⟨hsome, -⟩
      · exact Or.inl hnone
      · exact absurd hnone hsome
    · rcases hcases with ⟨hnone, rfl⟩ | ⟨-, hlength⟩
      · exact Or.inl hnone
      · refine Or.inr ?_
        split
        next hr =>
          rw [hr, if_pos rfl] at hmore
          omega
        next hr =>
          rw [if_neg hr, hwakes] at hmore
          cases hmore
  · refine hserved.mono rfl rfl (fun _ => ?_) fun _ hall => ?_
    · rw [hothers e he]
      exact Nat.zero_le _
    · rw [hwakes] at hall
      cases hall

/-- A broadcast of `stop`. -/
theorem signal_all (hw : s.Supplied) (h : s.Sound)
    (hin : s.mutex_.position t = .inside)
    (hcredit : ∀ e, (s.line t).credit e ≤ l.credit e)
    (hothers : ∀ e, e ≠ c → (s.line t).wakesAll e = true →
      l.wakesAll e = true) :
    ((s.goto t l).setCondition c
      (s.mutex_.conditions c).notifyAll).Supplied := by
  obtain ⟨hnone, hblocked⟩ := Condition.notifyAll_spec (s.mutex_.conditions c)
  refine hw.signal h hin hblocked (fun _ => Or.inl hnone) ?_
  intro e d he hserved
  exact hserved.mono rfl rfl (fun _ => hcredit e) fun _ => hothers e he

theorem takeNothing (hw : s.Supplied) (h : s.Sound)
    (hin : s.mutex_.position t = .inside) (hat : s.line t = .takePop)
    (hempty : s.queue_ = []) :
    (s.goto t (.unlock (.task none))).Supplied := by
  refine hw.advance h hin rfl rfl rfl fun c d hserved => ?_
  rw [hat] at hserved
  cases c with
  | notFull => exact hserved.mono rfl rfl (fun _ => le_refl 0) fun _ => id
  | notEmpty =>
      refine hserved.imp id fun hmore => ?_
      change if s.running_ = true then s.queue_.length ≤ _ else _
      split
      next => simp [hempty]
      next hr =>
        rw [if_neg hr] at hmore
        cases hmore

theorem lineStep (hw : s.Supplied) (h : s.Sound) (hknown : s.Known (s.line t))
    (hin : s.mutex_.position t = .inside)
    (hstep : LineStep s t who (s.line t) s') : s'.Supplied := by
  generalize hat : s.line t = l at hstep hknown
  cases hstep with
  | runWait task hfull hrunning =>
      refine hw.leave h hin (l := s.line t)
        (Function.update_eq_self t s.line).symm rfl rfl rfl rfl ?_ nofun
        (fun _ => le_refl _) fun _ => id
      rw [hat]
      exact ⟨rfl, hrunning, hfull⟩
  | takeWait hempty hrunning =>
      refine hw.leave h hin (l := s.line t)
        (Function.update_eq_self t s.line).symm rfl rfl rfl rfl ?_ nofun
        (fun _ => le_refl _) fun _ => id
      rw [hat]
      exact ⟨rfl, hrunning, hempty⟩
  | unlock value =>
      refine hw.leave h hin (l := .idle) rfl rfl rfl rfl rfl trivial nofun
        (fun c => ?_) fun c => ?_
      · rw [hat]
        exact le_refl 0
      · rw [hat]
        exact id
  | runGo task hgo | runRunning task hrunning | runAssert task hroom
  | takeGo hgo | sizeRead =>
      refine hw.goto h hin (fun _ c => ?_) fun c => ?_
      · rw [hat]
        cases c <;> exact le_refl _
      · rw [hat]
        cases c <;> exact id
  | runStopped task hstopped =>
      refine hw.goto h hin (fun hr => ?_) fun c => ?_
      · rw [hstopped] at hr
        cases hr
      · rw [hat]
        cases c <;> exact id
  | runPush task hroom => exact hw.runPush h hin hat hknown
  | takeNothing hempty => exact hw.takeNothing h hin hat hempty
  | takeBounded task rest hqueue hbound =>
      exact hw.takePop h hin hat hqueue rfl rfl rfl rfl rfl fun _ => rfl
  | takeUnbounded task rest hqueue hbound =>
      exact hw.takePop h hin hat hqueue rfl rfl rfl rfl rfl
        fun hpos => absurd hpos hbound
  | runNotify d hd =>
      refine hw.signal_one h hin hd ?_ (fun e he => ?_) fun e => ?_
      · rw [hat]
        exact le_refl 1
      · rw [hat]
        cases e with
        | notEmpty => exact absurd rfl he
        | notFull => rfl
      · rw [hat]
        cases e <;> rfl
  | takeNotify task d hd =>
      refine hw.signal_one h hin hd ?_ (fun e he => ?_) fun e => ?_
      · rw [hat]
        exact le_refl 1
      · rw [hat]
        cases e with
        | notEmpty => rfl
        | notFull => exact absurd rfl he
      · rw [hat]
        cases e <;> rfl
  | stopClear =>
      refine hw.advance h hin rfl rfl rfl fun c d _ => Or.inr ?_
      exact (if_neg Bool.false_ne_true).mpr rfl
  | stopNotifyEmpty =>
      refine hw.signal_all h hin (fun e => ?_) fun e he _ => ?_
      · rw [hat]
        cases e <;> exact le_refl 0
      · cases e with
        | notEmpty => exact absurd rfl he
        | notFull => rfl
  | stopNotifyFull =>
      refine hw.signal_all h hin (fun e => ?_) fun e he hall => ?_
      · rw [hat]
        cases e <;> exact le_refl 0
      · rw [hat] at hall
        cases e with
        | notEmpty => cases hall
        | notFull => exact absurd rfl he

/-! ## The lock functions -/

/-- A thread gets the mutex: its line can only add to the credit. -/
theorem served_acquired (hw : s.Supplied) (hfree : s.mutex_.mutex_ = none)
    (l : PoolLine α) (c : PoolCondition) :
    s.Served c (s.mutex_.conditions c) l := by
  have hserved := hw.served c
  have hidle : s.ownerLine = .idle := by simp [ownerLine, hfree]
  rw [hidle] at hserved
  refine hserved.mono rfl rfl (fun _ => ?_) fun _ hall => ?_
  · exact Nat.zero_le _
  · cases c <;> cases hall

/-- A step in a lock function, from what it does to the condition variables
and to the mutex. -/
theorem proceed_of_served (hw : s.Supplied)
    {a : MutexLock.Step PoolCondition} {m : MutexLock PoolCondition}
    (hm : s.mutex_.step (t, a) = some m)
    (hplaced : s.Placed (s.line t) (a.target (s.mutex_.position t)))
    (hserved : ∀ c, s.Served c (m.conditions c)
      (ownerLine { s with mutex_ := m })) :
    Supplied { s with mutex_ := m } where
  waiters := hw.waiters.step hm
  placed := by
    intro x
    obtain ⟨hposition, -⟩ := MutexLock.step_effect hm
    change s.Placed (s.line x) (m.position x)
    rw [hposition]
    by_cases hx : x = t
    · rw [hx, Function.update_self]
      exact hplaced
    · rw [Function.update_of_ne hx]
      exact hw.placed x
  served := hserved

theorem proceed_block (hw : s.Supplied) (h : s.Sound)
    {m : MutexLock PoolCondition}
    (hm : s.mutex_.step (t, .block c) = some m) :
    Supplied { s with mutex_ := m } := by
  obtain ⟨hpos, hwait⟩ := Option.ite_none_right_eq_some.mp hm
  obtain ⟨d, hd, heq⟩ := Option.map_eq_some_iff.mp hwait
  obtain ⟨hon, hrunning, hblocks⟩ :
      (s.line t).waitsOn c = true ∧ s.running_ = true ∧ s.Blocks c := by
    have hplaced := hw.placed t
    rwa [hpos] at hplaced
  have howner : (s.mutex_.position t).owns = true := by
    rw [hpos]
    rfl
  refine hw.proceed_of_served hm ?_ fun e => ?_
  · refine ⟨hon, ?_⟩
    rintro rfl
    exact hblocks.1
  · have hidle : ownerLine { s with mutex_ := m } = .idle := by
      simp [ownerLine, ← heq]
    rw [hidle, ← heq]
    change s.Served e (Function.update s.mutex_.conditions c d e) .idle
    by_cases he : e = c
    · -- Nothing is left for the thread that goes to sleep.
      refine Or.inr ?_
      rw [hrunning, if_pos rfl, he]
      have hsupply : s.supply c = 0 := by
        cases c with
        | notEmpty =>
            have hempty : s.queue_ = [] := hblocks
            simp [supply, hempty]
        | notFull =>
            have hfull : s.maxQueueSize_ ≤ s.queue_.length := hblocks.2
            exact Nat.sub_eq_zero_of_le hfull
      rw [hsupply]
      exact Nat.zero_le _
    · rw [Function.update_of_ne he]
      have hserved := hw.served e
      rw [ownerLine_of_owns h howner] at hserved
      have hother : (s.line t).credit e = 0 := by
        rw [PoolLine.credit_of_waitsOn hon, if_neg he]
      refine hserved.mono rfl rfl (fun _ => hother.le) fun hr => ?_
      rw [hrunning] at hr
      cases hr

theorem proceed_resume (hw : s.Supplied) {m : MutexLock PoolCondition}
    (hm : s.mutex_.step (t, .resume c) = some m) :
    Supplied { s with mutex_ := m } := by
  obtain ⟨⟨hpos, hfree⟩, hresume⟩ := Option.ite_none_right_eq_some.mp hm
  obtain ⟨d, hd, heq⟩ := Option.map_eq_some_iff.mp hresume
  obtain ⟨hwaiting, hnotified⟩ := Condition.resume_waiting hd
  have hon : (s.line t).waitsOn c = true := by
    have hplaced := hw.placed t
    rw [hpos] at hplaced
    exact hplaced.1
  refine hw.proceed_of_served hm trivial fun e => ?_
  have howner : ownerLine { s with mutex_ := m } = s.line t := by
    simp [ownerLine, ← heq]
  rw [howner, ← heq]
  change s.Served e (Function.update s.mutex_.conditions c d e) (s.line t)
  by_cases he : e = c
  · subst he
    rw [Function.update_self]
    -- The notification that is used up becomes the credit of the thread.
    have hcredit : (s.line t).credit e = 1 := by
      rw [PoolLine.credit_of_waitsOn hon, if_pos rfl]
    have hserved := hw.served_acquired hfree .idle e
    rw [Served, hwaiting, hcredit]
    refine hserved.imp id fun hmore => ?_
    split
    next hr =>
      rw [if_pos hr] at hmore
      have hidle : (PoolLine.idle : PoolLine α).credit e = 0 := by
        cases e <;> rfl
      omega
    next hr =>
      rw [if_neg hr] at hmore
      cases e <;> cases hmore
  · rw [Function.update_of_ne he]
    exact hw.served_acquired hfree (s.line t) e

theorem proceed (hw : s.Supplied) (h : s.Sound)
    {a : MutexLock.Step PoolCondition} (hinternal : a.isInternal = true)
    (hstep : s.lockStep t a = some s') : s'.Supplied := by
  obtain ⟨m, hm, rfl⟩ := Option.map_eq_some_iff.mp hstep
  cases a with
  | lock | unassign | guard c | notify c who | notifyAll c => cases hinternal
  | block c => exact hw.proceed_block h hm
  | resume c => exact hw.proceed_resume hm
  | acquire =>
      obtain ⟨⟨-, hfree⟩, heq⟩ := Option.ite_none_right_eq_some.mp hm
      refine hw.proceed_of_served hm trivial fun c => ?_
      rw [← Option.some_inj.mp heq]
      exact hw.served_acquired hfree _ c
  | assign | unguard =>
      obtain ⟨-, heq⟩ := Option.ite_none_right_eq_some.mp hm
      refine hw.proceed_of_served hm trivial fun c => ?_
      rw [← Option.some_inj.mp heq]
      exact hw.served c
  | release =>
      obtain ⟨hpos, heq⟩ := Option.ite_none_right_eq_some.mp hm
      refine hw.proceed_of_served hm trivial fun c => ?_
      have hout : s.ownerLine = .idle := by
        rw [ownerLine_of_owns h (by rw [hpos]; rfl)]
        exact h.idle_of_isOut (by rw [hpos]; rfl)
      have hserved := hw.served c
      rw [hout] at hserved
      exact Option.some_inj.mp heq ▸ hserved
  | wake c =>
      obtain ⟨-, hwake⟩ := Option.ite_none_right_eq_some.mp hm
      obtain ⟨d, hd, heq⟩ := Option.map_eq_some_iff.mp hwake
      obtain ⟨hsome, hnotified, -⟩ := Condition.wake_spec hd
      refine hw.proceed_of_served hm (hw.placed t) fun e => ?_
      rw [← heq]
      change s.Served e (Function.update s.mutex_.conditions c d e) s.ownerLine
      by_cases he : e = c
      · subst he
        rw [Function.update_self]
        have hmore := (hw.served e).resolve_left hsome
        exact Or.inr (by rwa [hnotified])
      · rw [Function.update_of_ne he]
        exact hw.served e

/-- A call changes nothing for the thread that has the mutex. -/
theorem begin (hw : s.Supplied) (h : s.Sound) {f : PoolFunction α}
    (hpos : s.mutex_.position t = .outside) :
    (s.begin t f).Supplied where
  waiters := hw.waiters.goto rfl rfl (by simp [hpos]) (by simp)
  placed := by
    intro x
    change s.Placed (Function.update s.line t f.entry x)
      (Function.update s.mutex_.position t .locking x)
    by_cases hx : x = t
    · rw [hx, Function.update_self, Function.update_self]
      trivial
    · rw [Function.update_of_ne hx, Function.update_of_ne hx]
      exact hw.placed x
  served := by
    intro c
    have howner : (s.begin t f).ownerLine = s.ownerLine := by
      unfold ownerLine
      change (match s.mutex_.mutex_ with
        | some x => Function.update s.line t f.entry x
        | none => PoolLine.idle) = _
      cases hmutex : s.mutex_.mutex_ with
      | none => rfl
      | some x =>
          have hx : x ≠ t := by
            rintro rfl
            have howns := (h.owned.mutex_iff x).mp hmutex
            rw [hpos] at howns
            cases howns
          exact Function.update_of_ne hx _ _
    rw [howner]
    exact hw.served c

theorem step (hw : s.Supplied) (h : s.Sound) (hi : s.Informed)
    {act : Tid × Action α} (hstep : s.step act = some s') : s'.Supplied := by
  obtain ⟨t, act⟩ := act
  obtain ⟨-, hstep⟩ := Option.ite_none_right_eq_some.mp hstep
  cases act with
  | call f =>
      rcases call_cases hstep with ⟨-, -, rfl⟩ | ⟨-, -, hpos, rfl⟩
      · exact hw
      · exact hw.begin h hpos
  | proceed a =>
      obtain ⟨hinternal, hstep⟩ := Option.ite_none_right_eq_some.mp hstep
      exact hw.proceed h hinternal hstep
  | execute who =>
      obtain ⟨hin, hline⟩ := h.lineStep hstep
      exact hw.lineStep h (hi t) hin hline

end Supplied

/-- The invariants of the pool together. -/
theorem run_supplied {numThreads maxQueueSize : ℕ}
    {acts : List (Tid × Action α)}
    (hrun : run step (started numThreads maxQueueSize) acts = some s) :
    s.Sound ∧ s.Informed ∧ s.Supplied := by
  refine run_invariant (I := fun s => s.Sound ∧ s.Informed ∧ s.Supplied)
    (fun s a t h hstep => ?_) ?_ hrun
  · obtain ⟨hsound, hinformed, hsupplied⟩ := h
    exact ⟨hsound.step hstep, hinformed.step hsound hstep,
      hsupplied.step hsound hinformed hstep⟩
  · exact ⟨started_sound numThreads maxQueueSize,
      started_informed numThreads maxQueueSize,
      started_supplied numThreads maxQueueSize⟩

/-! ## Where the pool is stuck -/

theorem exists_notify (c : Condition Tid) (t : Tid) :
    ∃ who d, c.notify who = some d := by
  cases hwaiting : c.waiting with
  | nil => exact ⟨t, c, Condition.notify_nil hwaiting t⟩
  | cons x rest => exact ⟨x, by simp [Condition.notify, hwaiting]⟩

theorem isSome_lockStep {a : MutexLock.Step PoolCondition} :
    (s.lockStep t a).isSome = (s.mutex_.step (t, a)).isSome :=
  Option.isSome_map

/-- A thread that is inside can leave, or wake everybody. -/
theorem isSome_of_inside (hin : s.mutex_.position t = .inside) :
    (s.mutex_.step (t, .unassign)).isSome = true ∧
      (∀ c, (s.mutex_.step (t, .guard c)).isSome = true) ∧
      ∀ c, (s.mutex_.step (t, .notifyAll c)).isSome = true := by
  simp [MutexLock.step, hin]

/-- And it can signal, whoever is waiting. -/
theorem exists_notify_isSome (hin : s.mutex_.position t = .inside)
    (c : PoolCondition) :
    ∃ who, (s.mutex_.step (t, .notify c who)).isSome = true := by
  obtain ⟨who, d, hd⟩ := exists_notify (s.mutex_.conditions c) t
  exact ⟨who, by simp [MutexLock.step, hin, hd]⟩

/-- A thread that is inside can execute its next line. -/
theorem Sound.exists_execute (h : s.Sound)
    (hin : s.mutex_.position t = .inside) :
    ∃ who, (s.execute t who).isSome = true := by
  obtain ⟨hleave, hguard, hall⟩ := isSome_of_inside hin
  have hchecked : ∀ next : Bool → Option (LockedPool α),
      s.checked (s.isFull t) next = next (decide s.AtBound) :=
    fun _ => by simp [checked, h.isFull_ok hin]
  simp only [LockedPool.execute, if_pos hin]
  cases hline : s.line t with
  | idle =>
      have hfits := h.fits t
      rw [hline, hin] at hfits
      cases hfits
  | runNotify =>
      obtain ⟨who, hwho⟩ := exists_notify_isSome hin .notEmpty
      exact ⟨who, isSome_lockStep.trans hwho⟩
  | takeNotify task =>
      obtain ⟨who, hwho⟩ := exists_notify_isSome hin .notFull
      exact ⟨who, isSome_lockStep.trans hwho⟩
  | runTest task | runPush task | takePop | stopClear | sizeRead =>
      exact ⟨t, rfl⟩
  | stopNotifyEmpty => exact ⟨t, isSome_lockStep.trans (hall .notEmpty)⟩
  | stopNotifyFull => exact ⟨t, isSome_lockStep.trans (hall .notFull)⟩
  | unlock value => exact ⟨t, isSome_lockStep.trans hleave⟩
  | takeLoop =>
      refine ⟨t, ?_⟩
      change (s.takeLoop t).isSome = true
      unfold LockedPool.takeLoop
      split
      · exact isSome_lockStep.trans (hguard .notEmpty)
      · rfl
  | runLoop task =>
      refine ⟨t, ?_⟩
      change (s.checked (s.isFull t) _).isSome = true
      rw [hchecked]
      split
      · exact isSome_lockStep.trans (hguard .notFull)
      · rfl
  | runAssert task =>
      have hroom : ¬ s.AtBound := h.established_at hline
      refine ⟨t, ?_⟩
      change (s.checked (s.isFull t) _).isSome = true
      rw [hchecked, decide_eq_false hroom, ensure_of rfl]
      rfl

/-- A step by which the pool goes on by itself: neither a call nor a wake-up
without a signal. -/
def Action.goesOn : Action α → Bool
  | .call _ => false
  | .proceed a => a.goesOn
  | .execute _ => true

variable (s) in
/-- Some thread can go on in one of the functions of the pool. -/
def CanGoOn : Prop :=
  ∃ t a, Action.goesOn a = true ∧ (s.step (t, a)).isSome = true

variable (s t) in
/-- The thread is in no function of the pool, or it has to wait in `take` for
a task, or in `run` for a free place. -/
def Rests : Prop :=
  (s.line t = .idle ∧ s.mutex_.position t = .outside) ∨
    ∃ c, (s.line t).waitsOn c = true ∧ s.mutex_.position t = .waiting c ∧
      s.Blocks c ∧ s.running_ = true

theorem canGoOn_of_mutex (h : s.Sound) (hgo : s.mutex_.CanGoOn t) :
    s.CanGoOn := by
  obtain ⟨a, ha, hsome⟩ := hgo
  have hinternal : a.isInternal = true := by
    cases hi : a.isInternal with
    | true => rfl
    | false => simp [MutexLock.Step.goesOn, hi] at ha
  refine ⟨t, .proceed a, ha, ?_⟩
  simp only [step, h.no_fault, if_true, hinternal]
  exact isSome_lockStep.trans hsome

theorem canGoOn_of_inside (h : s.Sound)
    (hin : s.mutex_.position t = .inside) : s.CanGoOn := by
  obtain ⟨who, hsome⟩ := h.exists_execute hin
  exact ⟨t, .execute who, rfl, by simpa [step, h.no_fault] using hsome⟩

namespace Supplied

/-- While nobody has the mutex, the waiting threads have been provided for. -/
theorem served_free (hw : s.Supplied) (hfree : s.mutex_.mutex_ = none)
    (hwaiting : (s.mutex_.conditions c).waiting ≠ []) :
    s.running_ = true ∧
      s.supply c ≤ (s.mutex_.conditions c).notified.length := by
  have hserved := (hw.served_acquired hfree .idle c).resolve_left hwaiting
  split at hserved
  next hr =>
    refine ⟨hr, ?_⟩
    cases c <;> exact hserved
  next => cases c <;> cases hserved

/-- A thread that waits while nobody goes on has nothing to do. -/
theorem rests_of_waiting (hw : s.Supplied) (hfree : s.mutex_.mutex_ = none)
    (hall : ∀ x, s.mutex_.position x = .waiting c →
      x ∈ (s.mutex_.conditions c).waiting)
    (hpos : s.mutex_.position t = .waiting c) : s.Rests t := by
  obtain ⟨hon, hbound⟩ :
      (s.line t).waitsOn c = true ∧ (c = .notFull → 0 < s.maxQueueSize_) := by
    have hplaced := hw.placed t
    rwa [hpos] at hplaced
  obtain ⟨hrunning, hsupply⟩ :=
    hw.served_free hfree (List.ne_nil_of_mem (hall t hpos))
  have hnone : (s.mutex_.conditions c).notified = [] := by
    refine List.eq_nil_iff_forall_not_mem.mpr fun x hx => ?_
    have hblocked : x ∈ (s.mutex_.conditions c).blocked := by
      simp [Condition.blocked, hx]
    have hnodup := (List.nodup_append.mp (s.mutex_.conditions c).nodup).1
    exact (List.nodup_append.mp hnodup).2.2 x
      (hall x ((hw.waiters c x).mp hblocked)) x hx rfl
  rw [hnone, List.length_nil, Nat.le_zero] at hsupply
  refine Or.inr ⟨c, hon, hpos, ?_, hrunning⟩
  cases c with
  | notEmpty => exact List.length_eq_zero_iff.mp hsupply
  | notFull => exact ⟨hbound rfl, Nat.sub_eq_zero_iff_le.mp hsupply⟩

end Supplied

end Steps

/-- No wake-up is lost.  Whatever the order of the lines of the threads, a pool
in which no thread can go on has nothing to do: its threads wait in `take` and
the queue is empty, or they wait in `run` and the queue is full, and `stop` has
not been called.  And whenever the mutex is free, there are no more tasks, or
free places, than signals on their way to the threads that wait. -/
theorem wakeups_sufficient (numThreads maxQueueSize : ℕ)
    (acts : List (Tid × Action α)) (s : LockedPool α)
    (hrun : run step (started numThreads maxQueueSize) acts = some s) :
    (¬ s.CanGoOn → ∀ t, s.Rests t) ∧
      ∀ c, s.mutex_.mutex_ = none → (s.mutex_.conditions c).waiting ≠ [] →
        s.running_ = true ∧
          s.supply c ≤ (s.mutex_.conditions c).notified.length := by
  obtain ⟨hsound, -, hsupplied⟩ := run_supplied hrun
  refine ⟨fun hstuck t => ?_, fun c hfree => hsupplied.served_free hfree⟩
  obtain ⟨hfree, hcases⟩ :=
    MutexLock.stuck_cases hsound.owned hsupplied.waiters
      (fun t hgo => hstuck (canGoOn_of_mutex hsound hgo))
      fun t hin => hstuck (canGoOn_of_inside hsound hin)
  rcases hcases t with hpos | ⟨c, hpos, -⟩
  · exact Or.inl ⟨hsound.idle_of_isOut (by rw [hpos]; rfl), hpos⟩
  · refine hsupplied.rests_of_waiting hfree (fun x hx => ?_) hpos
    rcases hcases x with hout | ⟨e, he, hmem⟩
    · rw [hx] at hout
      cases hout
    · obtain rfl : c = e := LockPosition.waiting.inj (hx.symm.trans he)
      exact hmem

def secondWorker : Tid := ⟨3, three_pos⟩

/-- `take` up to the point at which it waits for a task. -/
def fallsAsleep (t : Tid) : List (Tid × Action ℕ) :=
  [(t, .call .take), (t, .proceed .acquire), (t, .proceed .assign),
    (t, .execute t), (t, .proceed (.block .notEmpty))]

/-- Two workers wait, and one of them is signalled. -/
def oneTask : List (Tid × Action ℕ) :=
  fallsAsleep worker ++ fallsAsleep secondWorker ++
    [(producer, .call (.run 7)), (producer, .proceed .acquire),
      (producer, .proceed .assign), (producer, .execute worker),
      (producer, .execute worker), (producer, .execute worker),
      (producer, .execute worker), (producer, .execute worker),
      (producer, .execute worker), (producer, .proceed .release)]

theorem wakeups_sufficient_oneTask :
    ∃ s, run step (started 2 1) oneTask = some s ∧
      (s.mutex_.conditions .notEmpty).waiting = [secondWorker] ∧
      s.running_ = true ∧
      s.supply .notEmpty ≤ (s.mutex_.conditions .notEmpty).notified.length := by
  obtain ⟨s, hrun, hfree, hwaiting⟩ :
      ∃ s, run step (started 2 1) oneTask = some s ∧
        s.mutex_.mutex_ = none ∧
        (s.mutex_.conditions .notEmpty).waiting = [secondWorker] :=
    exists_run_of_eval (by decide)
  have hne : (s.mutex_.conditions .notEmpty).waiting ≠ [] := by
    rw [hwaiting]
    exact List.cons_ne_nil _ _
  exact ⟨s, hrun, hwaiting,
    (wakeups_sufficient 2 1 oneTask s hrun).2 .notEmpty hfree hne⟩

end LockedPool

end EventServer.Thread
