import EventServer.Common.MutexLock

/-!
# The mutex of the thread pool

The functions of `ThreadPool` that take `mutex_`, one line at a time, over the
steps of the mutex itself.  Any thread may call any of them, the workers
`take` and everybody `run`, `stop` and `queueSize`.  A thread goes on with the
next line of its function when the lock function it has called has returned.
-/

namespace EventServer.Thread

open EventServer.Support EventServer.Common

/-- The condition variables of the pool. -/
inductive PoolCondition where
  | notEmpty
  | notFull
  deriving DecidableEq, Repr

/-- What a function of the pool returns. -/
inductive PoolValue (α : Type) where
  | nothing
  | task (task : Option α)
  | size (n : ℕ)
  deriving DecidableEq, Repr

/-- The line that a thread executes next.  Each function begins behind its
`MutexLockGuard`, and ends with the destructor of the guard (`unlock`). -/
inductive PoolLine (α : Type) where
  | idle
  | runLoop (task : α)
  | runTest (task : α)
  | runAssert (task : α)
  | runPush (task : α)
  | runNotify
  | takeLoop
  | takePop
  | takeNotify (task : α)
  | stopClear
  | stopNotifyEmpty
  | stopNotifyFull
  | sizeRead
  | unlock (value : PoolValue α)
  deriving DecidableEq, Repr

/-- Where in the lock functions a thread may be at a line. -/
def PoolLine.fits {α : Type} : PoolLine α → LockPosition PoolCondition → Prop
  | .idle, p => p.isOut = true
  | .runLoop _, p | .takeLoop, p | .stopClear, p | .sizeRead, p =>
      p.isOut = false
  | _, p => p = .inside

/-- A started pool, with what the last call of each thread has returned. -/
structure LockedPool (α : Type) where
  mutex_ : MutexLock PoolCondition
  queue_ : List α
  maxQueueSize_ : ℕ
  running_ : Bool
  numThreads : ℕ
  line : Tid → PoolLine α
  returned : Tid → PoolValue α
  fault : Option Fault

namespace LockedPool

variable {α : Type}

/-- The pool after `start(numThreads)`. -/
def started (numThreads maxQueueSize : ℕ) : LockedPool α where
  mutex_ := .create
  queue_ := []
  maxQueueSize_ := maxQueueSize
  running_ := true
  numThreads := numThreads
  line := fun _ => .idle
  returned := fun _ => .nothing
  fault := none

def goto (s : LockedPool α) (t : Tid) (line : PoolLine α) : LockedPool α :=
  { s with line := Function.update s.line t line }

/-- A step of the thread in a lock function. -/
def lockStep (s : LockedPool α) (t : Tid) (a : MutexLock.Step PoolCondition) :
    Option (LockedPool α) :=
  (s.mutex_.step (t, a)).map fun m => { s with mutex_ := m }

/-- The queue has reached its bound. -/
def AtBound (s : LockedPool α) : Prop :=
  0 < s.maxQueueSize_ ∧ s.maxQueueSize_ ≤ s.queue_.length

instance (s : LockedPool α) : Decidable s.AtBound :=
  inferInstanceAs (Decidable (_ ∧ _))

def isFull (s : LockedPool α) (t : Tid) : Except Fault Bool := do
  s.mutex_.assertLocked t
  pure (decide s.AtBound)

/-- Go on with the value of an expression, or stop at a failed assertion. -/
def checked {β : Type} (s : LockedPool α) (value : Except Fault β)
    (next : β → Option (LockedPool α)) : Option (LockedPool α) :=
  match value with
  | .ok b => next b
  | .error fault => some { s with fault := some fault }

/-! ## The lines -/

/-- `while (isFull() && running_) notFull_.wait();`. -/
def runLoop (s : LockedPool α) (t : Tid) (task : α) : Option (LockedPool α) :=
  s.checked (s.isFull t) fun full =>
    if full && s.running_ then s.lockStep t (.guard .notFull)
    else some (s.goto t (.runTest task))

/-- `if (!running_) return;`. -/
def runTest (s : LockedPool α) (t : Tid) (task : α) : LockedPool α :=
  s.goto t (if s.running_ then .runAssert task else .unlock .nothing)

/-- `assert(!isFull());`. -/
def runAssert (s : LockedPool α) (t : Tid) (task : α) :
    Option (LockedPool α) :=
  s.checked (s.isFull t) fun full =>
    s.checked (ensure (full = false) .assertion) fun _ =>
      some (s.goto t (.runPush task))

/-- `queue_.push_back(std::move(task));`. -/
def runPush (s : LockedPool α) (t : Tid) (task : α) : LockedPool α :=
  { s.goto t .runNotify with queue_ := s.queue_ ++ [task] }

/-- `notEmpty_.notify();`.  The signal goes to `who`, if any thread waits. -/
def runNotify (s : LockedPool α) (t who : Tid) : Option (LockedPool α) :=
  (s.goto t (.unlock .nothing)).lockStep t (.notify .notEmpty who)

/-- `while (queue_.empty() && running_) notEmpty_.wait();`. -/
def takeLoop (s : LockedPool α) (t : Tid) : Option (LockedPool α) :=
  if s.queue_ = [] ∧ s.running_ then s.lockStep t (.guard .notEmpty)
  else some (s.goto t .takePop)

/-- The first task of the queue, if there is one. -/
def takePop (s : LockedPool α) (t : Tid) : LockedPool α :=
  match s.queue_ with
  | [] => s.goto t (.unlock (.task none))
  | task :: rest =>
      { s.goto t (if 0 < s.maxQueueSize_ then .takeNotify task
          else .unlock (.task (some task))) with
        queue_ := rest }

/-- `notFull_.notify();`. -/
def takeNotify (s : LockedPool α) (t : Tid) (task : α) (who : Tid) :
    Option (LockedPool α) :=
  (s.goto t (.unlock (.task (some task)))).lockStep t (.notify .notFull who)

/-- `~MutexLockGuard()`, and the return from the function. -/
def unlock (s : LockedPool α) (t : Tid) (value : PoolValue α) :
    Option (LockedPool α) :=
  { s.goto t .idle with
    returned := Function.update s.returned t value }.lockStep t .unassign

/-- The next line of the thread, which has returned from the lock functions
that it has called so far. -/
def execute (s : LockedPool α) (t who : Tid) : Option (LockedPool α) :=
  if s.mutex_.position t = .inside then
    match s.line t with
    | .idle => none
    | .runLoop task => s.runLoop t task
    | .runTest task => some (s.runTest t task)
    | .runAssert task => s.runAssert t task
    | .runPush task => some (s.runPush t task)
    | .runNotify => s.runNotify t who
    | .takeLoop => s.takeLoop t
    | .takePop => some (s.takePop t)
    | .takeNotify task => s.takeNotify t task who
    | .stopClear => some { s.goto t .stopNotifyEmpty with running_ := false }
    | .stopNotifyEmpty =>
        (s.goto t .stopNotifyFull).lockStep t (.notifyAll .notEmpty)
    | .stopNotifyFull =>
        (s.goto t (.unlock .nothing)).lockStep t (.notifyAll .notFull)
    | .sizeRead => some (s.goto t (.unlock (.size s.queue_.length)))
    | .unlock value => s.unlock t value
  else none

/-! ## The whole system -/

/-- A function of the pool. -/
inductive PoolFunction (α : Type) where
  | run (task : α)
  | take
  | stop
  | queueSize
  deriving DecidableEq, Repr

/-- The `MutexLockGuard` of a function, and its first line behind that. -/
def enter (s : LockedPool α) (t : Tid) (line : PoolLine α) :
    Option (LockedPool α) :=
  (s.goto t line).lockStep t .lock

/-- A call.  In a pool without threads `run` executes the task on the spot, and
takes no lock. -/
def call (s : LockedPool α) (t : Tid) (f : PoolFunction α) :
    Option (LockedPool α) :=
  match s.line t with
  | .idle =>
      match f with
      | .run task =>
          if s.numThreads = 0 then some s else s.enter t (.runLoop task)
      | .take => s.enter t .takeLoop
      | .stop => s.enter t .stopClear
      | .queueSize => s.enter t .sizeRead
  | _ => none

inductive Action (α : Type) where
  /-- The thread calls a function, and in it `lock()`. -/
  | call (f : PoolFunction α)
  /-- The thread goes on inside `lock()`, `unlock()` or `wait()`. -/
  | proceed (a : MutexLock.Step PoolCondition)
  /-- The thread executes its next line. -/
  | execute (who : Tid)
  deriving DecidableEq, Repr

/-- The step function.  A failed assertion ends the program. -/
def step (s : LockedPool α) : Tid × Action α → Option (LockedPool α)
  | (t, a) =>
      if s.fault = none then
        match a with
        | .call f => s.call t f
        | .proceed a => if a.isInternal then s.lockStep t a else none
        | .execute who => s.execute t who
      else none

/-! ## The invariant -/

/-- What the lines before have established. -/
def Established (s : LockedPool α) : PoolLine α → Prop
  | .runTest _ => s.AtBound → s.running_ = false
  | .runAssert _ | .runPush _ => ¬ s.AtBound
  | _ => True

/-- The invariant. -/
structure Sound (s : LockedPool α) : Prop where
  no_fault : s.fault = none
  owned : s.mutex_.Owned
  fits : ∀ t, (s.line t).fits (s.mutex_.position t)
  established : ∀ t, s.Established (s.line t)
  bounded : 0 < s.maxQueueSize_ → s.queue_.length ≤ s.maxQueueSize_

theorem started_sound (numThreads maxQueueSize : ℕ) :
    (started numThreads maxQueueSize : LockedPool α).Sound where
  no_fault := rfl
  owned := MutexLock.create_owned
  fits := fun _ => rfl
  established := fun _ => trivial
  bounded := fun _ => Nat.zero_le _

section Steps

variable {s s' : LockedPool α} {t : Tid} {l : PoolLine α}
  {a : MutexLock.Step PoolCondition}

@[simp] theorem goto_mutex (s : LockedPool α) (t : Tid) (l : PoolLine α) :
    (s.goto t l).mutex_ = s.mutex_ := rfl

@[simp] theorem goto_self (s : LockedPool α) (t : Tid) :
    s.goto t (s.line t) = s := by
  simp [goto]

/-- At a line that a thread also passes outside nothing is established. -/
theorem established_of_ne_inside {p : LockPosition PoolCondition}
    (hfits : l.fits p) (hp : p ≠ .inside) : s.Established l := by
  cases l with
  | runTest task | runAssert task | runPush task => exact absurd hfits hp
  | _ => trivial

namespace Sound

/-- A step in a lock function leaves the data of the pool alone. -/
theorem lockStep (h : s.Sound) (hstep : (s.goto t l).lockStep t a = some s')
    (hfits : l.fits (a.target (s.mutex_.position t)))
    (hestablished : s.Established l) : s'.Sound := by
  obtain ⟨m, hm, rfl⟩ := Option.map_eq_some_iff.mp hstep
  obtain ⟨hposition, -⟩ := MutexLock.step_effect hm
  refine ⟨h.no_fault, h.owned.step hm, fun x => ?_, fun x => ?_, h.bounded⟩
  · change (Function.update s.line t l x).fits (m.position x)
    rw [hposition]
    by_cases hx : x = t
    · simpa [hx] using hfits
    · simpa [hx] using h.fits x
  · change s.Established (Function.update s.line t l x)
    by_cases hx : x = t
    · simpa [hx] using hestablished
    · simpa [hx] using h.established x

/-- The thread that is inside may change the data: the other threads have
established nothing that it could destroy. -/
theorem advance (h : s.Sound) (hin : s.mutex_.position t = .inside)
    (hfault : s'.fault = none) (hmutex : s'.mutex_ = s.mutex_)
    (hline : s'.line = Function.update s.line t l)
    (hfits : l.fits .inside) (hestablished : s'.Established l)
    (hbounded : 0 < s'.maxQueueSize_ →
      s'.queue_.length ≤ s'.maxQueueSize_) : s'.Sound := by
  refine ⟨hfault, hmutex ▸ h.owned, fun x => ?_, fun x => ?_, hbounded⟩
  · rw [hline, hmutex]
    by_cases hx : x = t
    · simpa [hx, hin] using hfits
    · simpa [hx] using h.fits x
  · rw [hline]
    by_cases hx : x = t
    · simpa [hx] using hestablished
    · have hout : s.mutex_.position x ≠ .inside :=
        fun hinside => hx (h.owned.inside_unique hinside hin)
      simpa [hx] using established_of_ne_inside (h.fits x) hout

/-- The thread only goes on to another line. -/
theorem goto (h : s.Sound) (hin : s.mutex_.position t = .inside)
    (hfits : l.fits .inside) (hestablished : s.Established l) :
    (s.goto t l).Sound :=
  h.advance hin h.no_fault rfl rfl hfits hestablished h.bounded

/-- `isFull()` never fails for a thread that is inside. -/
theorem isFull_ok (h : s.Sound) (hin : s.mutex_.position t = .inside) :
    s.isFull t = .ok (decide s.AtBound) := by
  simp [isFull, h.owned.assertLocked_ok hin, pure, Except.pure, bind,
    Except.bind]

theorem established_at (h : s.Sound) (hline : s.line t = l) :
    s.Established l :=
  hline ▸ h.established t

/-! ## The lines of `run` -/

variable {task : α}

theorem runLoop (h : s.Sound) (hin : s.mutex_.position t = .inside)
    (hline : s.line t = .runLoop task)
    (hstep : s.runLoop t task = some s') : s'.Sound := by
  simp only [LockedPool.runLoop, checked, h.isFull_ok hin] at hstep
  split at hstep
  next =>
    rw [← goto_self s t, hline] at hstep
    exact h.lockStep hstep rfl trivial
  next hgo =>
    cases hstep
    refine h.goto hin rfl fun hfull => ?_
    simpa [hfull] using hgo

theorem runTest (h : s.Sound) (hin : s.mutex_.position t = .inside)
    (hline : s.line t = .runTest task) : (s.runTest t task).Sound := by
  have hloop : s.AtBound → s.running_ = false :=
    h.established_at hline
  unfold LockedPool.runTest
  split
  next hrunning =>
    refine h.goto hin rfl fun hfull => ?_
    exact absurd hrunning (by simp [hloop hfull])
  next => exact h.goto hin rfl trivial

theorem runAssert (h : s.Sound) (hin : s.mutex_.position t = .inside)
    (hline : s.line t = .runAssert task)
    (hstep : s.runAssert t task = some s') : s'.Sound := by
  have hroom : ¬ s.AtBound := h.established_at hline
  simp only [LockedPool.runAssert, checked, h.isFull_ok hin, hroom,
    decide_false, ensure_of] at hstep
  cases hstep
  exact h.goto hin rfl hroom

theorem runPush (h : s.Sound) (hin : s.mutex_.position t = .inside)
    (hline : s.line t = .runPush task) : (s.runPush t task).Sound := by
  have hroom : ¬ s.AtBound := h.established_at hline
  refine h.advance hin h.no_fault rfl rfl rfl trivial fun hpos => ?_
  have hlt : s.queue_.length < s.maxQueueSize_ :=
    lt_of_not_ge fun hle => hroom ⟨hpos, hle⟩
  change (s.queue_ ++ [task]).length ≤ s.maxQueueSize_
  simpa using hlt

/-! ## The other lines -/

theorem takeLoop (h : s.Sound) (hin : s.mutex_.position t = .inside)
    (hline : s.line t = .takeLoop) (hstep : s.takeLoop t = some s') :
    s'.Sound := by
  unfold LockedPool.takeLoop at hstep
  split at hstep
  next =>
    rw [← goto_self s t, hline] at hstep
    exact h.lockStep hstep rfl trivial
  next =>
    cases hstep
    exact h.goto hin rfl trivial

theorem takePop (h : s.Sound) (hin : s.mutex_.position t = .inside) :
    (s.takePop t).Sound := by
  unfold LockedPool.takePop
  split
  next => exact h.goto hin rfl trivial
  next task rest hqueue =>
    have hbounded : 0 < s.maxQueueSize_ → rest.length ≤ s.maxQueueSize_ := by
      intro hpos
      have hlength := h.bounded hpos
      rw [hqueue, List.length_cons] at hlength
      omega
    refine h.advance hin h.no_fault rfl rfl ?_ ?_ hbounded
    · split
      · rfl
      · rfl
    · split
      · trivial
      · trivial

theorem execute (h : s.Sound) {who : Tid}
    (hstep : s.execute t who = some s') : s'.Sound := by
  obtain ⟨hin, hstep⟩ := Option.ite_none_right_eq_some.mp hstep
  have hat : ∀ {l : PoolLine α}, s.line t = l → l.fits .inside :=
    fun heq => heq ▸ hin ▸ h.fits t
  cases hline : s.line t with
  | idle => exact absurd (hat hline) Bool.false_ne_true
  | runLoop task =>
      rw [hline] at hstep
      exact h.runLoop hin hline hstep
  | runTest task =>
      rw [hline] at hstep
      exact Option.some_inj.mp hstep ▸ h.runTest hin hline
  | runAssert task =>
      rw [hline] at hstep
      exact h.runAssert hin hline hstep
  | runPush task =>
      rw [hline] at hstep
      exact Option.some_inj.mp hstep ▸ h.runPush hin hline
  | takeLoop =>
      rw [hline] at hstep
      exact h.takeLoop hin hline hstep
  | takePop =>
      rw [hline] at hstep
      exact Option.some_inj.mp hstep ▸ h.takePop hin
  | stopClear =>
      rw [hline] at hstep
      obtain rfl := Option.some_inj.mp hstep
      exact h.advance hin h.no_fault rfl rfl rfl trivial h.bounded
  | sizeRead =>
      rw [hline] at hstep
      exact Option.some_inj.mp hstep ▸ h.goto hin rfl trivial
  | runNotify | takeNotify task | stopNotifyEmpty | stopNotifyFull =>
      rw [hline] at hstep
      exact h.lockStep hstep hin trivial
  | unlock value =>
      rw [hline] at hstep
      have hreturned :
          { s with returned := Function.update s.returned t value }.Sound :=
        ⟨h.no_fault, h.owned, h.fits, h.established, h.bounded⟩
      exact hreturned.lockStep hstep rfl trivial

theorem call (h : s.Sound) {f : PoolFunction α}
    (hstep : s.call t f = some s') : s'.Sound := by
  unfold LockedPool.call at hstep
  split at hstep
  next =>
    cases f with
    | run task =>
        simp only at hstep
        split at hstep
        next => exact Option.some_inj.mp hstep ▸ h
        next => exact h.lockStep hstep rfl trivial
    | take | stop | queueSize => exact h.lockStep hstep rfl trivial
  next => cases hstep

/-- Inside a lock function a thread stays at a line that fits. -/
theorem proceed (h : s.Sound) (hinternal : a.isInternal = true)
    (hstep : s.lockStep t a = some s') : s'.Sound := by
  rw [← goto_self s t] at hstep
  obtain ⟨m, hm, -⟩ := Option.map_eq_some_iff.mp hstep
  obtain ⟨hout, hsame⟩ := MutexLock.internal_spec hinternal hm
  refine h.lockStep hstep ?_ (h.established t)
  have hfits := h.fits t
  cases hline : s.line t with
  | idle | runLoop task | takeLoop | stopClear | sizeRead =>
      rw [hline] at hfits
      exact hsame.trans hfits
  | _ =>
      rw [hline] at hfits
      exact absurd hfits hout

theorem step (h : s.Sound) {act : Tid × Action α}
    (hstep : s.step act = some s') : s'.Sound := by
  obtain ⟨t, act⟩ := act
  obtain ⟨-, hstep⟩ := Option.ite_none_right_eq_some.mp hstep
  cases act with
  | call f => exact h.call hstep
  | proceed a =>
      obtain ⟨hinternal, hstep⟩ := Option.ite_none_right_eq_some.mp hstep
      exact h.proceed hinternal hstep
  | execute who => exact h.execute hstep

theorem run {numThreads maxQueueSize : ℕ} {acts : List (Tid × Action α)}
    (hrun : Support.run LockedPool.step (started numThreads maxQueueSize) acts =
      some s) : s.Sound :=
  run_invariant (fun _ _ _ h hstep => h.step hstep)
    (started_sound numThreads maxQueueSize) hrun

end Sound

end Steps

/-- The owner record of a mutex is right in every state that its threads can
reach, between any two of their steps.  This holds as well of the mutex of a
thread pool, whose calls of `assertLocked` therefore never fail. -/
theorem ownerRecord_sound :
    (∀ (κ : Type) [DecidableEq κ] (as : List (Tid × MutexLock.Step κ))
      (s : MutexLock κ),
      Support.run MutexLock.step .create as = some s → s.OwnerRecord) ∧
    ∀ (α : Type) (numThreads maxQueueSize : ℕ)
      (acts : List (Tid × Action α)) (s : LockedPool α),
      Support.run step (started numThreads maxQueueSize) acts = some s →
        s.mutex_.OwnerRecord ∧
        (∀ t, s.mutex_.position t = .inside →
          s.isFull t = .ok (decide s.AtBound)) ∧
        s.fault = none := by
  constructor
  · intro κ _ as s hrun
    exact (MutexLock.Owned.run hrun).ownerRecord
  · intro α numThreads maxQueueSize acts s hrun
    have hsound : s.Sound := Sound.run hrun
    exact ⟨hsound.owned.ownerRecord, fun t => hsound.isFull_ok,
      hsound.no_fault⟩

/-! ## A worker that waits for a task -/

def worker : Tid := ⟨1, one_pos⟩

def producer : Tid := ⟨2, two_pos⟩

/-- The worker waits, and a producer takes the mutex and signals. -/
def signalled : List (Tid × MutexLock.Step PoolCondition) :=
  [(worker, .lock), (producer, .lock), (worker, .acquire), (worker, .assign),
    (worker, .guard .notEmpty), (worker, .block .notEmpty),
    (producer, .acquire), (producer, .assign),
    (producer, .notify .notEmpty worker)]

/-- The worker is handed the task 7 in a queue of size 1. -/
def handedOver : List (Tid × Action ℕ) :=
  [(worker, .call .take), (producer, .call (.run 7)),
    (worker, .proceed .acquire), (worker, .proceed .assign),
    (worker, .execute worker), (worker, .proceed (.block .notEmpty)),
    (producer, .proceed .acquire), (producer, .proceed .assign),
    (producer, .execute worker), (producer, .execute worker),
    (producer, .execute worker), (producer, .execute worker),
    (producer, .execute worker), (producer, .execute worker),
    (producer, .proceed .release), (worker, .proceed (.resume .notEmpty)),
    (worker, .proceed .unguard)]

theorem ownerRecord_sound_handedOver :
    (∃ s, Support.run MutexLock.step .create signalled = some s ∧
      s.position worker = .waiting .notEmpty ∧ s.holder_ = producer ∧
      s.mutex_ = some producer) ∧
    ∃ s, Support.run step (started 1 1) handedOver = some s ∧
      s.queue_ = [7] ∧ s.mutex_.holder_ = worker ∧
      s.isFull worker = .ok true := by
  constructor
  · obtain ⟨s, hrun, hwaiting, hholder⟩ :
        ∃ s, Support.run MutexLock.step .create signalled = some s ∧
          s.position worker = .waiting .notEmpty ∧ s.holder_ = producer :=
      exists_run_of_eval (by decide)
    have hrecord : s.OwnerRecord := ownerRecord_sound.1 _ _ s hrun
    exact ⟨s, hrun, hwaiting, hholder, hrecord.owner producer hholder⟩
  · obtain ⟨s, hrun, hqueue, hsize, hinside⟩ :
        ∃ s, Support.run step (started 1 1) handedOver = some s ∧
          s.queue_ = [7] ∧ s.maxQueueSize_ = 1 ∧
          s.mutex_.position worker = .inside :=
      exists_run_of_eval (by decide)
    obtain ⟨hrecord, hfull, -⟩ := ownerRecord_sound.2 ℕ 1 1 _ s hrun
    refine ⟨s, hrun, hqueue, hrecord.inside worker hinside, ?_⟩
    rw [hfull worker hinside]
    simp [AtBound, hqueue, hsize]

end LockedPool

end EventServer.Thread
