import EventServer.Thread.PoolLocking

/-!
# What a line of the thread pool does

The effect of each line on the pool, said once for all its invariants, and the
facts about the data that a thread carries from one line to the next while it
is inside.
-/

namespace EventServer.Thread.LockedPool

open EventServer.Support EventServer.Common

variable {α : Type}

/-- `wait()` on `c` up to the point at which it blocks. -/
def leave (s : LockedPool α) (t : Tid) (p : LockPosition PoolCondition) :
    LockedPool α :=
  { s with mutex_ := s.mutex_.unassignHolder.goto t p }

/-- `unlock()` up to the point at which the mutex is released, and the return
from the function. -/
def finish (s : LockedPool α) (t : Tid) (value : PoolValue α) :
    LockedPool α :=
  { s.goto t .idle with
    returned := Function.update s.returned t value }.leave t .unlocking

/-- The first line of a function, behind its guard. -/
def PoolFunction.entry : PoolFunction α → PoolLine α
  | .run task => .runLoop task
  | .take => .takeLoop
  | .stop => .stopClear
  | .queueSize => .sizeRead

/-- The call of a function up to the point at which the thread waits for the
mutex. -/
def begin (s : LockedPool α) (t : Tid) (f : PoolFunction α) : LockedPool α :=
  { s.goto t f.entry with mutex_ := s.mutex_.goto t .locking }

/-- The condition variable has changed. -/
def setCondition (s : LockedPool α) (c : PoolCondition) (d : Condition Tid) :
    LockedPool α :=
  { s with mutex_ := s.mutex_.setCondition c d }

/-- The effect of the line of a thread that is inside; a signal goes to
`who`. -/
inductive LineStep (s : LockedPool α) (t who : Tid) :
    PoolLine α → LockedPool α → Prop
  | runWait (task : α) (hfull : s.AtBound) (hrunning : s.running_ = true) :
      LineStep s t who (.runLoop task) (s.leave t (.unassigned .notFull))
  | runGo (task : α) (hgo : s.AtBound → s.running_ = false) :
      LineStep s t who (.runLoop task) (s.goto t (.runTest task))
  | runStopped (task : α) (hstopped : s.running_ = false) :
      LineStep s t who (.runTest task) (s.goto t (.unlock .nothing))
  | runRunning (task : α) (hrunning : s.running_ = true) :
      LineStep s t who (.runTest task) (s.goto t (.runAssert task))
  | runAssert (task : α) (hroom : ¬ s.AtBound) :
      LineStep s t who (.runAssert task) (s.goto t (.runPush task))
  | runPush (task : α) (hroom : ¬ s.AtBound) :
      LineStep s t who (.runPush task) (s.runPush t task)
  | runNotify (d : Condition Tid)
      (hd : (s.mutex_.conditions .notEmpty).notify who = some d) :
      LineStep s t who .runNotify
        ((s.goto t (.unlock .nothing)).setCondition .notEmpty d)
  | takeWait (hempty : s.queue_ = []) (hrunning : s.running_ = true) :
      LineStep s t who .takeLoop (s.leave t (.unassigned .notEmpty))
  | takeGo (hgo : s.queue_ = [] → s.running_ = false) :
      LineStep s t who .takeLoop (s.goto t .takePop)
  | takeNothing (hempty : s.queue_ = []) :
      LineStep s t who .takePop (s.goto t (.unlock (.task none)))
  | takeBounded (task : α) (rest : List α) (hqueue : s.queue_ = task :: rest)
      (hbound : 0 < s.maxQueueSize_) :
      LineStep s t who .takePop
        { s.goto t (.takeNotify task) with queue_ := rest }
  | takeUnbounded (task : α) (rest : List α)
      (hqueue : s.queue_ = task :: rest) (hbound : ¬ 0 < s.maxQueueSize_) :
      LineStep s t who .takePop
        { s.goto t (.unlock (.task (some task))) with queue_ := rest }
  | takeNotify (task : α) (d : Condition Tid)
      (hd : (s.mutex_.conditions .notFull).notify who = some d) :
      LineStep s t who (.takeNotify task)
        ((s.goto t (.unlock (.task (some task)))).setCondition .notFull d)
  | stopClear :
      LineStep s t who .stopClear
        { s.goto t .stopNotifyEmpty with running_ := false }
  | stopNotifyEmpty :
      LineStep s t who .stopNotifyEmpty
        ((s.goto t .stopNotifyFull).setCondition .notEmpty
          (s.mutex_.conditions .notEmpty).notifyAll)
  | stopNotifyFull :
      LineStep s t who .stopNotifyFull
        ((s.goto t (.unlock .nothing)).setCondition .notFull
          (s.mutex_.conditions .notFull).notifyAll)
  | sizeRead :
      LineStep s t who .sizeRead
        (s.goto t (.unlock (.size s.queue_.length)))
  | unlock (value : PoolValue α) :
      LineStep s t who (.unlock value) (s.finish t value)

variable {s s' : LockedPool α} {t who : Tid}

theorem lockStep_notify {c : PoolCondition}
    (hstep : s.lockStep t (.notify c who) = some s') :
    ∃ d, (s.mutex_.conditions c).notify who = some d ∧
      s' = s.setCondition c d := by
  obtain ⟨m, hm, rfl⟩ := Option.map_eq_some_iff.mp hstep
  obtain ⟨-, hnotify⟩ := Option.ite_none_right_eq_some.mp hm
  obtain ⟨d, hd, rfl⟩ := Option.map_eq_some_iff.mp hnotify
  exact ⟨d, hd, rfl⟩

theorem lockStep_notifyAll {c : PoolCondition}
    (hstep : s.lockStep t (.notifyAll c) = some s') :
    s' = s.setCondition c (s.mutex_.conditions c).notifyAll := by
  obtain ⟨m, hm, rfl⟩ := Option.map_eq_some_iff.mp hstep
  obtain ⟨-, ⟨⟩⟩ := Option.ite_none_right_eq_some.mp hm
  rfl

theorem lockStep_guard {c : PoolCondition}
    (hstep : s.lockStep t (.guard c) = some s') :
    s' = s.leave t (.unassigned c) := by
  obtain ⟨m, hm, rfl⟩ := Option.map_eq_some_iff.mp hstep
  obtain ⟨-, ⟨⟩⟩ := Option.ite_none_right_eq_some.mp hm
  rfl

theorem lockStep_unassign (hstep : s.lockStep t .unassign = some s') :
    s' = s.leave t .unlocking := by
  obtain ⟨m, hm, rfl⟩ := Option.map_eq_some_iff.mp hstep
  obtain ⟨-, ⟨⟩⟩ := Option.ite_none_right_eq_some.mp hm
  rfl

theorem lockStep_lock (hstep : s.lockStep t .lock = some s') :
    s.mutex_.position t = .outside ∧
      s' = { s with mutex_ := s.mutex_.goto t .locking } := by
  obtain ⟨m, hm, rfl⟩ := Option.map_eq_some_iff.mp hstep
  obtain ⟨hpos, ⟨⟩⟩ := Option.ite_none_right_eq_some.mp hm
  exact ⟨hpos, rfl⟩

/-- A call takes the thread into `lock()`, but for `run` in a pool without
threads. -/
theorem call_cases {f : PoolFunction α} (hcall : s.call t f = some s') :
    (s.numThreads = 0 ∧ (∃ task, f = .run task) ∧ s' = s) ∨
      ((s.numThreads = 0 → ∀ task, f ≠ .run task) ∧ s.line t = .idle ∧
        s.mutex_.position t = .outside ∧
        s' = s.begin t f) := by
  unfold call at hcall
  split at hcall
  next hidle =>
    cases f with
    | run task =>
        simp only at hcall
        split at hcall
        next hzero =>
          exact Or.inl ⟨hzero, ⟨task, rfl⟩, (Option.some_inj.mp hcall).symm⟩
        next hsome =>
          obtain ⟨hpos, rfl⟩ := lockStep_lock hcall
          exact Or.inr ⟨fun hzero => absurd hzero hsome, hidle, hpos, rfl⟩
    | take | stop | queueSize =>
        obtain ⟨hpos, rfl⟩ := lockStep_lock hcall
        exact Or.inr ⟨fun _ => by simp, hidle, hpos, rfl⟩
  next => cases hcall

namespace Sound

theorem runLoop_lineStep (h : s.Sound) {task : α}
    (hin : s.mutex_.position t = .inside)
    (hstep : s.runLoop t task = some s') :
    LineStep s t who (.runLoop task) s' := by
  simp only [LockedPool.runLoop, checked, h.isFull_ok hin] at hstep
  split at hstep
  next hwait =>
    obtain ⟨hfull, hrunning⟩ : s.AtBound ∧ s.running_ = true := by
      simpa using hwait
    exact lockStep_guard hstep ▸ .runWait task hfull hrunning
  next hgo =>
    refine Option.some_inj.mp hstep ▸ .runGo task fun hfull => ?_
    simpa [hfull] using hgo

theorem runAssert_lineStep (h : s.Sound) {task : α}
    (hin : s.mutex_.position t = .inside) (hline : s.line t = .runAssert task)
    (hstep : s.runAssert t task = some s') :
    LineStep s t who (.runAssert task) s' := by
  have hroom : ¬ s.AtBound := h.established_at hline
  simp only [LockedPool.runAssert, checked, h.isFull_ok hin, hroom,
    decide_false, ensure_of] at hstep
  exact Option.some_inj.mp hstep ▸ .runAssert task hroom

theorem takePop_lineStep : LineStep s t who .takePop (s.takePop t) := by
  unfold LockedPool.takePop
  split
  next hempty => exact .takeNothing hempty
  next task rest hqueue =>
    split
    next hbound => exact .takeBounded task rest hqueue hbound
    next hbound => exact .takeUnbounded task rest hqueue hbound

/-- The inversion of `execute`. -/
theorem lineStep (h : s.Sound) (hstep : s.execute t who = some s') :
    s.mutex_.position t = .inside ∧ LineStep s t who (s.line t) s' := by
  obtain ⟨hin, hstep⟩ := Option.ite_none_right_eq_some.mp hstep
  refine ⟨hin, ?_⟩
  cases hline : s.line t with
  | idle =>
      rw [hline] at hstep
      cases hstep
  | runLoop task =>
      rw [hline] at hstep
      exact h.runLoop_lineStep hin hstep
  | runTest task =>
      rw [hline] at hstep
      obtain rfl := Option.some_inj.mp hstep
      unfold LockedPool.runTest
      cases hrunning : s.running_ with
      | false => exact .runStopped task hrunning
      | true => exact .runRunning task hrunning
  | runAssert task =>
      rw [hline] at hstep
      exact h.runAssert_lineStep hin hline hstep
  | runPush task =>
      rw [hline] at hstep
      exact Option.some_inj.mp hstep ▸ .runPush task (h.established_at hline)
  | runNotify =>
      rw [hline] at hstep
      obtain ⟨d, hd, rfl⟩ := lockStep_notify hstep
      exact .runNotify d hd
  | takeLoop =>
      rw [hline] at hstep
      simp only [LockedPool.takeLoop] at hstep
      split at hstep
      next hwait => exact lockStep_guard hstep ▸ .takeWait hwait.1 hwait.2
      next hgo =>
        refine Option.some_inj.mp hstep ▸ .takeGo fun hempty => ?_
        simpa [hempty] using hgo
  | takePop =>
      rw [hline] at hstep
      exact Option.some_inj.mp hstep ▸ takePop_lineStep
  | takeNotify task =>
      rw [hline] at hstep
      obtain ⟨d, hd, rfl⟩ := lockStep_notify hstep
      exact .takeNotify task d hd
  | stopClear =>
      rw [hline] at hstep
      exact Option.some_inj.mp hstep ▸ .stopClear
  | stopNotifyEmpty =>
      rw [hline] at hstep
      exact lockStep_notifyAll hstep ▸ .stopNotifyEmpty
  | stopNotifyFull =>
      rw [hline] at hstep
      exact lockStep_notifyAll hstep ▸ .stopNotifyFull
  | sizeRead =>
      rw [hline] at hstep
      exact Option.some_inj.mp hstep ▸ .sizeRead
  | unlock value =>
      rw [hline] at hstep
      exact lockStep_unassign hstep ▸ .unlock value

/-- A thread that has left the mutex, or is about to, has returned from its
function. -/
theorem idle_of_isOut (h : s.Sound)
    (hout : (s.mutex_.position t).isOut = true) : s.line t = .idle := by
  have hfits := h.fits t
  cases hline : s.line t with
  | idle => rfl
  | runLoop task | takeLoop | stopClear | sizeRead =>
      rw [hline] at hfits
      exact absurd (hout.symm.trans hfits) (by simp)
  | _ =>
      rw [hline] at hfits
      have hin : s.mutex_.position t = .inside := hfits
      rw [hin] at hout
      cases hout

end Sound

/-! ## What a thread knows inside -/

/-- What the lines before have found out about the data, beside what
`Established` says. -/
def Known (s : LockedPool α) : PoolLine α → Prop
  | .runAssert _ | .runPush _ => s.running_ = true
  | .takePop => s.queue_ = [] → s.running_ = false
  | _ => True

/-- Every thread knows what its lines before have found out. -/
def Informed (s : LockedPool α) : Prop := ∀ t, s.Known (s.line t)

theorem started_informed (numThreads maxQueueSize : ℕ) :
    (started numThreads maxQueueSize : LockedPool α).Informed :=
  fun _ => trivial

theorem known_of_ne_inside {l : PoolLine α} {p : LockPosition PoolCondition}
    (hfits : l.fits p) (hp : p ≠ .inside) : s.Known l := by
  cases l with
  | runAssert task | runPush task | takePop => exact absurd hfits hp
  | _ => trivial

namespace Informed

/-- The thread that is inside goes on: nobody else knows anything. -/
theorem of_update (h : s.Sound) (hin : s.mutex_.position t = .inside)
    {l : PoolLine α} (hline : s'.line = Function.update s.line t l)
    (hknown : s'.Known l) : s'.Informed := by
  intro x
  rw [hline]
  by_cases hx : x = t
  · simpa [hx] using hknown
  · have hout : s.mutex_.position x ≠ .inside :=
      fun hinside => hx (h.owned.inside_unique hinside hin)
    simpa [hx] using known_of_ne_inside (h.fits x) hout

theorem lineStep (hi : s.Informed) (h : s.Sound)
    (hin : s.mutex_.position t = .inside)
    (hstep : LineStep s t who (s.line t) s') : s'.Informed := by
  have hkept : ∀ {u : LockedPool α}, u.line = s.line →
      u.Known (s.line t) → u.Informed := by
    intro u hline hknown
    refine of_update (l := s.line t) h hin ?_ hknown
    rw [hline, Function.update_eq_self]
  generalize hat : s.line t = l at hstep hkept
  cases hstep with
  | runWait task hfull hrunning => exact hkept rfl trivial
  | takeWait hempty hrunning => exact hkept rfl trivial
  | runRunning task hrunning => exact of_update h hin rfl hrunning
  | runAssert task hroom =>
      have hrunning : s.Known (.runAssert task) := hat ▸ hi t
      exact of_update h hin rfl hrunning
  | takeGo hgo => exact of_update h hin rfl hgo
  | runGo task hgo | runStopped task hstopped | runPush task hroom
  | runNotify d hd | takeNothing hempty | takeBounded task rest hqueue hbound
  | takeUnbounded task rest hqueue hbound | takeNotify task d hd | stopClear
  | stopNotifyEmpty | stopNotifyFull | sizeRead | unlock value =>
      exact of_update h hin rfl trivial

theorem step (hi : s.Informed) (h : s.Sound) {act : Tid × Action α}
    (hstep : s.step act = some s') : s'.Informed := by
  obtain ⟨t, act⟩ := act
  obtain ⟨-, hstep⟩ := Option.ite_none_right_eq_some.mp hstep
  cases act with
  | call f =>
      rcases call_cases hstep with ⟨-, -, rfl⟩ | ⟨-, -, -, rfl⟩
      · exact hi
      · intro x
        change s.Known (Function.update s.line t f.entry x)
        by_cases hx : x = t
        · cases f <;> simp [hx, PoolFunction.entry, Known]
        · simpa [hx] using hi x
  | proceed a =>
      obtain ⟨-, hstep⟩ := Option.ite_none_right_eq_some.mp hstep
      obtain ⟨m, -, rfl⟩ := Option.map_eq_some_iff.mp hstep
      exact hi
  | execute who =>
      obtain ⟨hin, hline⟩ := h.lineStep hstep
      exact hi.lineStep h hin hline

end Informed

end EventServer.Thread.LockedPool
