import EventServer.Common.MutexProgress
import EventServer.Support.AtomicObject
import EventServer.Thread.PoolSteps

/-!
# The thread pool as an atomic object

Seen from outside, the functions of the pool take effect at one moment between
their call and their return, although each of them is several lines that run
between the lines of other threads.  `PoolObject` says what they do when they
are executed alone; `run` and `take` may have to wait.
-/

namespace EventServer.Thread

open EventServer.Support EventServer.Common
open LockedPool (PoolFunction)

/-- The data that the functions of the pool share. -/
structure PoolObject (α : Type) where
  queue_ : List α
  maxQueueSize_ : ℕ
  running_ : Bool
  deriving DecidableEq, Repr

namespace PoolObject

variable {α : Type}

/-- The pool after `start`. -/
def started (maxQueueSize : ℕ) : PoolObject α := ⟨[], maxQueueSize, true⟩

/-- The functions, each executed without interruption.  `run` waits while a
running pool is full, `take` while it is empty. -/
def apply (s : PoolObject α) :
    PoolFunction α → Option (PoolObject α × PoolValue α)
  | .run task =>
      if s.running_ = false then some (s, .nothing)
      else if 0 < s.maxQueueSize_ ∧ s.maxQueueSize_ ≤ s.queue_.length then none
      else some ({ s with queue_ := s.queue_ ++ [task] }, .nothing)
  | .take =>
      match s.queue_ with
      | task :: rest => some ({ s with queue_ := rest }, .task (some task))
      | [] => if s.running_ = true then none else some (s, .task none)
  | .stop => some ({ s with running_ := false }, .nothing)
  | .queueSize => some (s, .size s.queue_.length)

end PoolObject

/-- How far a thread at the line is with its call.  Behind the line that takes
effect it only has to return. -/
def PoolLine.callState {α : Type} :
    PoolLine α → CallState (PoolFunction α) (PoolValue α)
  | .idle => .idle
  | .runLoop task | .runTest task | .runAssert task | .runPush task =>
      .pending (.run task)
  | .takeLoop | .takePop => .pending .take
  | .stopClear => .pending .stop
  | .sizeRead => .pending .queueSize
  | .runNotify | .stopNotifyEmpty | .stopNotifyFull => .done .nothing
  | .takeNotify task => .done (.task (some task))
  | .unlock value => .done value

namespace LockedPool

variable {α : Type}

/-! ## The abstraction -/

/-- How far a thread is with its call.  It returns when it has released the
mutex. -/
def callState (s : LockedPool α) (t : Tid) :
    CallState (PoolFunction α) (PoolValue α) :=
  match s.line t with
  | .idle =>
      if s.mutex_.position t = .outside then .idle else .done (s.returned t)
  | line => line.callState

def object (s : LockedPool α) : PoolObject α :=
  ⟨s.queue_, s.maxQueueSize_, s.running_⟩

/-- The atomic object that a state of the pool stands for. -/
def atomic (s : LockedPool α) :
    AtomicObject Tid (PoolObject α) (PoolFunction α) (PoolValue α) :=
  ⟨s.object, s.callState⟩

/-- The calls and returns of the functions.  `run` in a pool without threads
does not come to the pool at all. -/
def event (s : LockedPool α) :
    Tid × Action α → List (ObjectEvent Tid (PoolFunction α) (PoolValue α))
  | (t, .call (.run task)) =>
      if s.numThreads = 0 then [] else [.call t (.run task)]
  | (t, .call f) => [.call t f]
  | (t, .proceed .release) => [.ret t (s.returned t)]
  | (_, .proceed _) | (_, .execute _) => []

/-- The object executes the call of `t`, or does nothing. -/
def Performs (s : LockedPool α) (t : Tid) (s' : LockedPool α) : Prop :=
  s'.atomic = s.atomic ∨
    AtomicObject.step PoolObject.apply s.atomic (t, .perform) = some s'.atomic

section Steps

variable {s s' : LockedPool α} {t who : Tid} {l : PoolLine α}

theorem callState_congr (hline : s'.line t = s.line t)
    (hposition : s'.mutex_.position t = s.mutex_.position t)
    (hreturned : s'.returned t = s.returned t) :
    s'.callState t = s.callState t := by
  simp [callState, hline, hposition, hreturned]

/-- Away from `idle` it is only the line that counts. -/
theorem callState_of_ne_idle (hidle : s.line t ≠ .idle) :
    s.callState t = (s.line t).callState := by
  unfold callState
  split
  next hline => exact absurd hline hidle
  next => rfl

/-! ## The lines -/

/-- A line that takes effect: the function would do the same alone. -/
theorem performs_advance {f : PoolFunction α} {value : PoolValue α}
    (hbefore : (s.line t).callState = .pending f)
    (hafter : l.callState = .done value) (hl : l ≠ .idle)
    (hline : s'.line = Function.update s.line t l)
    (hmutex : s'.mutex_ = s.mutex_) (hreturned : s'.returned = s.returned)
    (happly : s.object.apply f = some (s'.object, value)) :
    s.Performs t s' := by
  have hat : s'.line t = l := by simp [hline]
  have hpending : s.callState t = .pending f := by
    rw [callState_of_ne_idle, hbefore]
    intro hidle
    rw [hidle] at hbefore
    cases hbefore
  have hdone : s'.callState t = .done value := by
    rw [callState_of_ne_idle (by rwa [hat]), hat, hafter]
  refine Or.inr (AtomicObject.step_perform hpending happly hdone ?_)
  intro x hx
  exact callState_congr (by simp [hline, hx]) (by rw [hmutex])
    (by rw [hreturned])

/-- A line that takes no effect, and leads to one of the same kind. -/
theorem performs_of_eq (hsame : l.callState = (s.line t).callState)
    (hidle : s.line t ≠ .idle) (hl : l ≠ .idle)
    (hline : s'.line = Function.update s.line t l)
    (hposition : ∀ x, x ≠ t → s'.mutex_.position x = s.mutex_.position x)
    (hreturned : s'.returned = s.returned) (hobject : s'.object = s.object) :
    s.Performs t s' := by
  have hcalls : s'.callState = s.callState := by
    funext x
    by_cases hx : x = t
    · subst hx
      have hat : s'.line x = l := by simp [hline]
      rw [callState_of_ne_idle hidle, callState_of_ne_idle (by rwa [hat]),
        hat, hsame]
    · exact callState_congr (by simp [hline, hx]) (hposition x hx)
        (by rw [hreturned])
  exact Or.inl (by simp [atomic, hobject, hcalls])

theorem leave_position {p : LockPosition PoolCondition} {x : Tid}
    (hx : x ≠ t) :
    (s.leave t p).mutex_.position x = s.mutex_.position x := by
  simp [leave, MutexLock.goto, MutexLock.unassignHolder, hx]

/-- A thread that begins to wait stays at its line. -/
theorem performs_leave {p : LockPosition PoolCondition}
    (hidle : s.line t ≠ .idle) : s.Performs t (s.leave t p) :=
  performs_of_eq rfl hidle hidle (Function.update_eq_self t s.line).symm
    (fun _ hx => leave_position hx) rfl rfl

/-- `~MutexLockGuard()`, with the value that the function returns. -/
theorem performs_finish {value : PoolValue α} (hat : s.line t = .unlock value) :
    s.Performs t (s.finish t value) := by
  have hcalls : (s.finish t value).callState = s.callState := by
    funext x
    by_cases hx : x = t
    · subst hx
      simp [callState, hat, PoolLine.callState, finish, leave, goto,
        MutexLock.goto]
    · exact callState_congr (by simp [finish, leave, goto, hx])
        (leave_position hx) (by simp [finish, leave, hx])
  exact Or.inl (congrArg (AtomicObject.mk s.object) hcalls)

/-- Each line takes the effect of the whole function, or none. -/
theorem LineStep.performs (hknown : s.Known (s.line t))
    (hstep : LineStep s t who (s.line t) s') : s.Performs t s' := by
  generalize hat : s.line t = l at hstep hknown
  cases hstep with
  | runWait task hfull hrunning => exact performs_leave (by simp [hat])
  | takeWait hempty hrunning => exact performs_leave (by simp [hat])
  | runGo task hgo | runRunning task hrunning | runAssert task hroom
  | takeGo hgo | runNotify d hd | takeNotify task d hd | stopNotifyEmpty
  | stopNotifyFull =>
      refine performs_of_eq ?_ (by simp [hat]) ?_ rfl (fun _ _ => rfl) rfl rfl
      · rw [hat]
        rfl
      · simp
  | runStopped task hstopped =>
      refine performs_advance (congrArg _ hat) rfl (by simp) rfl rfl rfl ?_
      exact if_pos hstopped
  | runPush task hroom =>
      have hrunning : ¬ s.running_ = false := by simpa [Known] using hknown
      refine performs_advance (congrArg _ hat) rfl (by simp) rfl rfl rfl ?_
      exact (if_neg hrunning).trans (if_neg hroom)
  | takeNothing hempty =>
      have hstopped : s.running_ = false := hknown hempty
      refine performs_advance (congrArg _ hat) rfl (by simp) rfl rfl rfl ?_
      simp [PoolObject.apply, object, goto, hempty, hstopped]
  | takeBounded task rest hqueue hbound
  | takeUnbounded task rest hqueue hbound =>
      refine performs_advance (congrArg _ hat) rfl (by simp) rfl rfl rfl ?_
      simp [PoolObject.apply, object, goto, hqueue]
  | stopClear | sizeRead =>
      exact performs_advance (congrArg _ hat) rfl (by simp) rfl rfl rfl rfl
  | unlock value => exact performs_finish hat

/-! ## The simulation -/

/-- The states of the pool that an atomic object stands for. -/
structure Represents (s : LockedPool α)
    (o : AtomicObject Tid (PoolObject α) (PoolFunction α) (PoolValue α)) :
    Prop where
  sound : s.Sound
  informed : s.Informed
  atomic_eq : o = s.atomic

/-- Inside the lock functions a thread gets no further with its call, until
the mutex is released. -/
theorem atomic_proceed (h : s.Sound) {a : MutexLock.Step PoolCondition}
    (hinternal : a.isInternal = true) (hrelease : a ≠ .release)
    (hstep : s.lockStep t a = some s') : s'.atomic = s.atomic := by
  obtain ⟨m, hm, rfl⟩ := Option.map_eq_some_iff.mp hstep
  obtain ⟨hposition, -⟩ := MutexLock.step_effect hm
  have hout : (s.mutex_.position t).isOut = false :=
    MutexLock.isOut_of_internal hinternal hrelease hm
  have hidle : s.line t ≠ .idle := by
    intro hline
    have hfits := h.fits t
    rw [hline] at hfits
    exact Bool.false_ne_true (hout.symm.trans hfits)
  have hcalls : callState { s with mutex_ := m } = s.callState := by
    funext x
    by_cases hx : x = t
    · subst hx
      rw [callState_of_ne_idle (s := s) hidle]
      exact callState_of_ne_idle hidle
    · exact callState_congr rfl (by simp [hposition, hx]) rfl
  exact congrArg (AtomicObject.mk s.object) hcalls

/-- Behind the release of the mutex the function has returned. -/
theorem atomic_release (h : s.Sound)
    (hstep : s.lockStep t .release = some s') :
    AtomicObject.step PoolObject.apply s.atomic (t, .ret) = some s'.atomic ∧
      AtomicObject.event s.atomic (t, .ret) = [.ret t (s.returned t)] := by
  obtain ⟨m, hm, rfl⟩ := Option.map_eq_some_iff.mp hstep
  obtain ⟨hpos, ⟨⟩⟩ := Option.ite_none_right_eq_some.mp hm
  have hidle : s.line t = .idle := h.idle_of_isOut (by rw [hpos]; rfl)
  refine AtomicObject.step_ret ?_ ?_ rfl fun x hx => ?_
  · simp [atomic, callState, hidle, hpos]
  · simp [atomic, callState, hidle, MutexLock.goto]
  · exact callState_congr rfl (by simp [MutexLock.goto, hx]) rfl

/-- A call begins. -/
theorem atomic_call {f : PoolFunction α} (hidle : s.line t = .idle)
    (hpos : s.mutex_.position t = .outside) :
    AtomicObject.step PoolObject.apply s.atomic (t, .call f) =
      some (s.begin t f).atomic := by
  refine AtomicObject.step_call ?_ ?_ rfl fun x hx => ?_
  · simp [atomic, callState, hidle, hpos]
  · have hat : (s.begin t f).line t = f.entry := by simp [begin, goto]
    change (s.begin t f).callState t = _
    cases f with
    | run task | take | stop | queueSize =>
        rw [callState_of_ne_idle (by simp [hat, PoolFunction.entry]), hat]
        rfl
  · exact callState_congr (by simp [begin, goto, hx])
      (by simp [begin, MutexLock.goto, hx]) rfl

theorem simulates :
    Simulates (step (α := α)) event (AtomicObject.step PoolObject.apply)
      AtomicObject.event Represents := by
  intro s o act s' hR hstep
  obtain ⟨hsound, hinformed, rfl⟩ := hR
  have hafter : s'.Represents s'.atomic :=
    ⟨hsound.step hstep, hinformed.step hsound hstep, rfl⟩
  obtain ⟨t, act⟩ := act
  obtain ⟨-, hstep⟩ := Option.ite_none_right_eq_some.mp hstep
  cases act with
  | call f =>
      rcases call_cases hstep with ⟨hzero, ⟨task, rfl⟩, rfl⟩ |
        ⟨hsome, hidle, hpos, rfl⟩
      · simpa [event, hzero] using Answers.of_related hafter
      · have hevent : event s (t, .call f) = [.call t f] := by
          cases f with
          | run task => exact if_neg fun hzero => hsome hzero task rfl
          | take | stop | queueSize => rfl
        exact .of_step (atomic_call hidle hpos) hevent.symm hafter
  | proceed a =>
      obtain ⟨hinternal, hstep⟩ := Option.ite_none_right_eq_some.mp hstep
      by_cases hrelease : a = .release
      · subst hrelease
        obtain ⟨haction, hevent⟩ := atomic_release hsound hstep
        exact .of_step haction hevent hafter
      · have hevent : event s (t, .proceed a) = [] := by
          cases a with
          | release => exact absurd rfl hrelease
          | _ => rfl
        rw [hevent]
        rw [atomic_proceed hsound hinternal hrelease hstep] at hafter
        exact .of_related hafter
  | execute who =>
      obtain ⟨-, hline⟩ := hsound.lineStep hstep
      rcases hline.performs (hinformed t) with heq | haction
      · exact .of_related (heq ▸ hafter)
      · exact .of_step haction rfl hafter

end Steps

/-- Any threads may call the functions of the pool, in any order and any
number of times: each of their calls takes effect at one moment between the
call and the return, with the result that it would have alone, and the tasks
in the queue are those that this order of the calls leaves there. -/
theorem functions_linearizable (numThreads maxQueueSize : ℕ)
    (acts : List (Tid × Action α)) (s : LockedPool α)
    (hrun : run step (started numThreads maxQueueSize) acts = some s) :
    Linearizes PoolObject.apply (.started maxQueueSize)
      (trace step event (started numThreads maxQueueSize) acts) s.object := by
  have hstart : (started numThreads maxQueueSize : LockedPool α).Represents
      (.fresh (.started maxQueueSize)) :=
    ⟨started_sound numThreads maxQueueSize,
      started_informed numThreads maxQueueSize, rfl⟩
  obtain ⟨o, ⟨-, -, rfl⟩, hlinear⟩ := simulates.linearizes hstart hrun
  exact hlinear

/-- The worker goes on and returns the task that it has been handed. -/
def served : List (Tid × Action ℕ) :=
  handedOver ++ [(worker, .execute worker), (worker, .execute worker),
    (worker, .execute producer), (worker, .execute worker),
    (worker, .proceed .release)]

/-- The two calls overlap, and `take` takes effect behind the `run` that it has
waited for. -/
theorem functions_linearizable_served :
    ∃ s, run step (started 1 1) served = some s ∧
      trace step event (started 1 1) served =
        [.call worker .take, .call producer (.run 7), .ret producer .nothing,
          .ret worker (.task (some 7))] ∧
      Linearizes PoolObject.apply (.started 1)
        (trace step event (started 1 1) served) (.started 1) := by
  obtain ⟨s, hrun, hobject⟩ :
      ∃ s, run step (started 1 1) served = some s ∧
        s.object = .started 1 :=
    exists_run_of_eval (by decide)
  refine ⟨s, hrun, by decide, ?_⟩
  exact hobject ▸ functions_linearizable 1 1 served s hrun

end LockedPool

end EventServer.Thread
