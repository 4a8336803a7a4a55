import EventServer.Support.Condition
import EventServer.Support.Machine
import EventServer.Support.Run

/-!
# The thread pool

The pool is a bounded queue of tasks between any number of threads that call
`run` and a fixed number of workers.  Everything that happens while `mutex_`
is held is one step, up to the end of the function or to the `wait` inside it.
The worker's test of `running_` takes no lock and is a step of its own.

A task may itself call `run`, so that a worker can also wait on `notFull_`.
-/

namespace EventServer.Thread

open EventServer.Support

/-- The threads that call `run`: the workers, from within their tasks, and any
number of others. -/
inductive PoolThread where
  | worker (i : ℕ)
  | producer (j : ℕ)
  deriving DecidableEq, Repr

/-- How far a worker is inside `runInThread`: it tests `running_`, calls
`take()`, waits in `take()`, executes a task, or has returned. -/
inductive PoolWorkerPc (α : Type) where
  | checking
  | taking
  | waiting
  | executing (task : α)
  | exited
  deriving DecidableEq, Repr

namespace PoolWorkerPc

variable {α : Type}

def isExecuting : PoolWorkerPc α → Bool
  | .executing _ => true
  | _ => false

def isExited : PoolWorkerPc α → Bool
  | .exited => true
  | _ => false

def isWaiting : PoolWorkerPc α → Bool
  | .waiting => true
  | _ => false

end PoolWorkerPc

/-- How far the only call of `stop()` is: the first `k` workers are joined. -/
inductive StopPc where
  | notCalled
  | joining (k : ℕ)
  | done
  deriving DecidableEq, Repr

/-- A started pool.  `calls` holds the task of each thread that waits in
`run`.  The last three fields are the history of the queue: all tasks that
were pushed, all that were taken, and those that had been pushed when `stop()`
was called. -/
structure ThreadPool (α : Type) where
  numThreads : ℕ
  maxQueueSize_ : ℕ
  running_ : Bool
  queue_ : List α
  notEmpty_ : Condition ℕ
  notFull_ : Condition PoolThread
  workers : ℕ → PoolWorkerPc α
  calls : PoolThread → Option α
  stopPc : StopPc
  fault : Option Fault
  enqueued : List α
  dequeued : List α
  enqueuedAtStop : Option (List α)

namespace ThreadPool

variable {α : Type}

/-- The pool after `start(numThreads)`. -/
def started (numThreads maxQueueSize : ℕ) : ThreadPool α where
  numThreads := numThreads
  maxQueueSize_ := maxQueueSize
  running_ := true
  queue_ := []
  notEmpty_ := .create
  notFull_ := .create
  workers := fun _ => .checking
  calls := fun _ => none
  stopPc := .notCalled
  fault := none
  enqueued := []
  dequeued := []
  enqueuedAtStop := none

def isFull (s : ThreadPool α) : Prop :=
  0 < s.maxQueueSize_ ∧ s.maxQueueSize_ ≤ s.queue_.length

instance (s : ThreadPool α) : Decidable s.isFull :=
  inferInstanceAs (Decidable (_ ∧ _))

def setWorker (s : ThreadPool α) (i : ℕ) (pc : PoolWorkerPc α) :
    ThreadPool α :=
  { s with workers := Function.update s.workers i pc }

def setCall (s : ThreadPool α) (t : PoolThread) (task : Option α) :
    ThreadPool α :=
  { s with calls := Function.update s.calls t task }

/-! ## `run` -/

/-- The loop of `run` and what follows it.  The signal goes to the worker
`who`, if any worker waits. -/
def runLocked (s : ThreadPool α) (t : PoolThread) (task : α) (who : ℕ) :
    Option (ThreadPool α) :=
  if s.isFull ∧ s.running_ then
    (s.notFull_.wait t).map fun c =>
      { s.setCall t (some task) with notFull_ := c }
  else if ¬ s.running_ then some (s.setCall t none)
  else if s.isFull then some { s with fault := some .assertion }
  else
    (s.notEmpty_.notify who).map fun c =>
      { s.setCall t none with
        queue_ := s.queue_ ++ [task]
        enqueued := s.enqueued ++ [task]
        notEmpty_ := c }

/-- The thread may call `run`: it is not inside `run`, and if it is a worker
then it executes a task. -/
def canCall (s : ThreadPool α) (t : PoolThread) : Bool :=
  (s.calls t).isNone &&
    match t with
    | .worker i => (s.workers i).isExecuting
    | .producer _ => true

/-- A call of `run`.  A pool without threads executes the task on the spot. -/
def run (s : ThreadPool α) (t : PoolThread) (task : α) (who : ℕ) :
    Option (ThreadPool α) :=
  if s.canCall t then
    if s.numThreads = 0 then some s else s.runLocked t task who
  else none

/-- A thread returns from `notFull_.wait()`. -/
def resumeRun (s : ThreadPool α) (t : PoolThread) (who : ℕ) :
    Option (ThreadPool α) :=
  (s.calls t).bind fun task =>
    (s.notFull_.resume t).bind fun c =>
      { s with notFull_ := c }.runLocked t task who

/-! ## The workers -/

/-- The test of `running_` in `runInThread`. -/
def check (s : ThreadPool α) (i : ℕ) : Option (ThreadPool α) :=
  match s.workers i with
  | .checking =>
      if i < s.numThreads then
        some (s.setWorker i (if s.running_ then .taking else .exited))
      else none
  | _ => none

/-- The loop of `take` and what follows it.  The task that is returned from an
empty queue is empty, and is not executed.  The signal goes to `who`, if any
thread waits in `run`. -/
def takeLocked (s : ThreadPool α) (i : ℕ) (who : PoolThread) :
    Option (ThreadPool α) :=
  match s.queue_ with
  | [] =>
      if s.running_ then
        (s.notEmpty_.wait i).map fun c =>
          { s.setWorker i .waiting with notEmpty_ := c }
      else some (s.setWorker i .checking)
  | task :: rest =>
      let taken := { s.setWorker i (.executing task) with
        queue_ := rest
        dequeued := s.dequeued ++ [task] }
      if 0 < s.maxQueueSize_ then
        (s.notFull_.notify who).map fun c => { taken with notFull_ := c }
      else some taken

/-- A call of `take`. -/
def take (s : ThreadPool α) (i : ℕ) (who : PoolThread) :
    Option (ThreadPool α) :=
  match s.workers i with
  | .taking => s.takeLocked i who
  | _ => none

/-- A worker returns from `notEmpty_.wait()`. -/
def resumeTake (s : ThreadPool α) (i : ℕ) (who : PoolThread) :
    Option (ThreadPool α) :=
  (s.notEmpty_.resume i).bind fun c =>
    { s with notEmpty_ := c }.takeLocked i who

/-- A task returns. -/
def finishTask (s : ThreadPool α) (i : ℕ) : Option (ThreadPool α) :=
  match s.workers i with
  | .executing _ =>
      if (s.calls (.worker i)).isNone then some (s.setWorker i .checking)
      else none
  | _ => none

/-! ## `stop` -/

/-- `stop()` up to the joins. -/
def stop (s : ThreadPool α) : Option (ThreadPool α) :=
  match s.stopPc with
  | .notCalled =>
      some { s with
        running_ := false
        notEmpty_ := s.notEmpty_.notifyAll
        notFull_ := s.notFull_.notifyAll
        stopPc := .joining 0
        enqueuedAtStop := some s.enqueued }
  | _ => none

/-- The next join of `stop()`, or its return. -/
def join (s : ThreadPool α) : Option (ThreadPool α) :=
  match s.stopPc with
  | .joining k =>
      if k < s.numThreads then
        if (s.workers k).isExited
        then some { s with stopPc := .joining (k + 1) }
        else none
      else some { s with stopPc := .done }
  | _ => none

/-! ## The whole system -/

inductive Action (α : Type) where
  | run (t : PoolThread) (task : α) (who : ℕ)
  | resumeRun (t : PoolThread) (who : ℕ)
  | wakeRun (t : PoolThread)
  | check (i : ℕ)
  | take (i : ℕ) (who : PoolThread)
  | resumeTake (i : ℕ) (who : PoolThread)
  | wakeTake (i : ℕ)
  | finishTask (i : ℕ)
  | stop
  | join
  deriving DecidableEq

/-- The step function.  A failed assertion ends the program. -/
def step (s : ThreadPool α) (a : Action α) : Option (ThreadPool α) :=
  if s.fault = none then
    match a with
    | .run t task who => s.run t task who
    | .resumeRun t who => s.resumeRun t who
    | .wakeRun t =>
        (s.notFull_.wake t).map fun c => { s with notFull_ := c }
    | .check i => s.check i
    | .take i who => s.take i who
    | .resumeTake i who => s.resumeTake i who
    | .wakeTake i =>
        (s.notEmpty_.wake i).map fun c => { s with notEmpty_ := c }
    | .finishTask i => s.finishTask i
    | .stop => s.stop
    | .join => s.join
  else none

end ThreadPool

end EventServer.Thread
