import EventServer.Support.Run

/-!
# A thread with an event loop

`EventLoopThread` starts its worker thread while it is still being
constructed.  The worker builds a dispatcher, posts a callback to it that
reports readiness, and hands the dispatcher to the constructor.  The loop
itself is started by the first call of `run()`, which returns when the
readiness callback has been executed.  The destructor starts the loop if
nobody has done so, asks it to exit, and joins the worker.

Each step below is one statement of the source that other threads can observe.
A wait is a step that is not enabled before the awaited event.
-/

namespace EventServer.Thread

/-! ## The parts of the standard library -/

/-- The ways in which a step of one of the threads goes wrong. -/
inductive ThreadFault (μ : Type) where
  /-- A member is used before its constructor has run. -/
  | earlyUse (m : μ)
  /-- `std::future_error`, thrown by a second `set_value`. -/
  | promiseAlreadySatisfied
  /-- `std::future_error`, thrown by a second `get_future`. -/
  | futureAlreadyRetrieved
  /-- A member access through a null pointer. -/
  | nullDereference
  deriving DecidableEq, Repr

/-- A `std::promise`. -/
structure Promise where
  satisfied : Bool
  retrieved : Bool
  deriving DecidableEq, Repr

namespace Promise

def create : Promise := ⟨false, false⟩

def setValue {μ : Type} (p : Promise) : Except (ThreadFault μ) Promise :=
  if p.satisfied then .error .promiseAlreadySatisfied
  else .ok { p with satisfied := true }

def getFuture {μ : Type} (p : Promise) : Except (ThreadFault μ) Promise :=
  if p.retrieved then .error .futureAlreadyRetrieved
  else .ok { p with retrieved := true }

theorem setValue_of {μ : Type} {p : Promise} (h : p.satisfied = false) :
    (p.setValue : Except (ThreadFault μ) Promise) =
      .ok { p with satisfied := true } := by
  simp [setValue, h]

theorem getFuture_of {μ : Type} {p : Promise} (h : p.retrieved = false) :
    (p.getFuture : Except (ThreadFault μ) Promise) =
      .ok { p with retrieved := true } := by
  simp [getFuture, h]

end Promise

/-- A `std::once_flag`.  While a call is active it is known which thread makes
it, and how far this thread is inside the function. -/
inductive OnceFlag (τ π : Type) where
  | notCalled
  | running (thread : τ) (pc : π)
  | done
  deriving DecidableEq, Repr

/-! ## The state -/

/-- The members of `EventLoopThread`. -/
inductive Member where
  | loop_
  | loopMutex_
  | thread_
  | loopThreadName_
  | promiseForLoopPointer_
  | promiseForRun_
  | promiseForLoop_
  | once_
  deriving DecidableEq, Repr

/-- The members in the order of their declaration, which is the order in which
they are constructed. -/
def Member.declared : List Member :=
  [.loop_, .loopMutex_, .thread_, .loopThreadName_, .promiseForLoopPointer_,
    .promiseForRun_, .promiseForLoop_, .once_]

/-- The thread that owns the object, the one that the object owns, and any
number of others. -/
inductive ThreadId where
  | owner
  | worker
  | caller (n : ℕ)
  deriving DecidableEq, Repr

/-- How far the owner is: it has constructed the first `k` members, is in the
body of the constructor, has the object, is in the destructor behind its call
of `run()`, or has destroyed the object. -/
inductive OwnerPc where
  | constructing (k : ℕ)
  | getFuture
  | waitPointer
  | alive
  | lock
  | copy
  | unlock (loop : Bool)
  | exitLoop (loop : Bool)
  | join
  | destroyed
  deriving DecidableEq, Repr

/-- How far a thread is inside the function that `run()` passes to
`call_once`. -/
inductive RunPc where
  | getFuture
  | setValue
  | waitLoop
  | leave
  deriving DecidableEq, Repr

/-- A posted callback: the one that reports readiness, one that calls `run()`
on the object, and any other one. -/
inductive PostCb where
  | ready
  | callsRun
  | other
  deriving DecidableEq, Repr

/-- How far the worker is inside `threadFunc`.  From `flush` to `loop` it is
inside `Dispatcher::run`; `callbacks batch` runs a batch of posted
callbacks. -/
inductive WorkerPc where
  | notStarted
  | setName
  | makeLoop
  | post
  | setPointer
  | getFuture
  | waitRun
  | flush
  | callbacks (batch : List PostCb)
  | loop
  | lock
  | exitLoop
  | unlock
  | done
  deriving DecidableEq, Repr

/-- An `EventLoopThread` with its threads.  `loop_` tells whether the pointer
is not null, `inside` which threads are inside `run()`, and `exitRequested`
whether the event base has recorded an exit.  The last three fields are
history: calls of `run()`, returns from it, and whether the readiness callback
has been executed. -/
structure EventLoopThread where
  loop_ : Bool
  loopMutex_ : Option ThreadId
  promiseForLoopPointer_ : Promise
  promiseForRun_ : Promise
  promiseForLoop_ : Promise
  once_ : OnceFlag ThreadId RunPc
  postCallbacks : List PostCb
  exitRequested : Bool
  owner : OwnerPc
  worker : WorkerPc
  inside : ThreadId → Bool
  fault : Option (ThreadFault Member)
  runCalls : ℕ
  runReturns : ℕ
  readied : Bool

namespace EventLoopThread

/-- The constructor is about to construct the first member. -/
def start : EventLoopThread where
  loop_ := false
  loopMutex_ := none
  promiseForLoopPointer_ := .create
  promiseForRun_ := .create
  promiseForLoop_ := .create
  once_ := .notCalled
  postCallbacks := []
  exitRequested := false
  owner := .constructing 0
  worker := .notStarted
  inside := fun _ => false
  fault := none
  runCalls := 0
  runReturns := 0
  readied := false

/-- All members are constructed; the worker has not taken a step. -/
def membersConstructed : EventLoopThread :=
  { start with owner := .getFuture, worker := .setName }

/-- The members that have been constructed. -/
def constructed (s : EventLoopThread) : List Member :=
  match s.owner with
  | .constructing k => Member.declared.take k
  | _ => Member.declared

/-- The object is there for other threads: the constructor has returned, and
the destructor has not. -/
def Exists (s : EventLoopThread) : Prop :=
  match s.owner with
  | .constructing _ | .getFuture | .waitPointer | .destroyed => False
  | .alive | .lock | .copy | .unlock _ | .exitLoop _ | .join => True

instance : DecidablePred Exists := fun s => by
  unfold Exists
  split
  all_goals infer_instance

/-- A step that uses a member leads to `t`, provided the member is there. -/
def use (s : EventLoopThread) (m : Member) (t : EventLoopThread) :
    EventLoopThread :=
  if m ∈ s.constructed then t else { s with fault := some (.earlyUse m) }

/-- A step that continues with the result of an operation on a promise. -/
def attempt (s : EventLoopThread)
    (r : Except (ThreadFault Member) Promise)
    (next : Promise → EventLoopThread) : EventLoopThread :=
  match r with
  | .ok p => next p
  | .error fault => { s with fault := some fault }

@[simp] theorem attempt_ok (s : EventLoopThread) (p : Promise)
    (next : Promise → EventLoopThread) : s.attempt (.ok p) next = next p := rfl

theorem use_of {s t : EventLoopThread} {m : Member} (h : m ∈ s.constructed) :
    s.use m t = t :=
  if_pos h

/-- A thread calls `run()`. -/
def enterRun (s : EventLoopThread) (th : ThreadId) : EventLoopThread :=
  { s with
    inside := Function.update s.inside th true
    runCalls := s.runCalls + 1 }

/-- A thread returns from `run()`. -/
def returnRun (s : EventLoopThread) (th : ThreadId) : EventLoopThread :=
  { s with
    inside := Function.update s.inside th false
    runReturns := s.runReturns + 1 }

/-! ## Steps of `run()` -/

/-- The next step of a thread that is inside `run()`. -/
def runStep (s : EventLoopThread) (th : ThreadId) :
    Option EventLoopThread :=
  if s.inside th then
    match s.once_ with
    | .notCalled => some { s with once_ := .running th .getFuture }
    | .done => some (s.returnRun th)
    | .running active pc =>
        if active = th then
          match pc with
          | .getFuture =>
              some (s.attempt s.promiseForLoop_.getFuture fun p =>
                { s with
                  promiseForLoop_ := p
                  once_ := .running th .setValue })
          | .setValue =>
              some (s.attempt s.promiseForRun_.setValue fun p =>
                { s with
                  promiseForRun_ := p
                  once_ := .running th .waitLoop })
          | .waitLoop =>
              if s.promiseForLoop_.satisfied
              then some { s with once_ := .running th .leave }
              else none
          | .leave => some ({ s with once_ := .done }.returnRun th)
        else none
  else none

/-! ## Steps of the owner -/

/-- The next step of the constructor or, behind its call of `run()`, of the
destructor.  Nobody calls `wait()`, so that `thread_` is joinable. -/
def ownerStep (s : EventLoopThread) : Option EventLoopThread :=
  if s.inside .owner then none else
  match s.owner with
  | .constructing k =>
      some { s with
        owner := if k + 1 < Member.declared.length
          then .constructing (k + 1) else .getFuture
        worker := if Member.declared[k]? = some .thread_
          then .setName else s.worker }
  | .getFuture =>
      some (s.attempt s.promiseForLoopPointer_.getFuture fun p =>
        { s with promiseForLoopPointer_ := p, owner := .waitPointer })
  | .waitPointer =>
      if s.promiseForLoopPointer_.satisfied
      then some { s with loop_ := true, owner := .alive }
      else none
  | .alive => none
  | .lock =>
      if s.loopMutex_ = none
      then some { s with loopMutex_ := some .owner, owner := .copy }
      else none
  | .copy => some { s with owner := .unlock s.loop_ }
  | .unlock loop =>
      some { s with loopMutex_ := none, owner := .exitLoop loop }
  | .exitLoop loop =>
      some { s with
        exitRequested := s.exitRequested || loop
        owner := .join }
  | .join =>
      if s.worker = .done then some { s with owner := .destroyed } else none
  | .destroyed => none

/-- The owner runs the destructor, which begins with a call of `run()`. -/
def destroy (s : EventLoopThread) : Option EventLoopThread :=
  if s.owner = .alive ∧ s.inside .owner = false
  then some { s.enterRun .owner with owner := .lock }
  else none

/-! ## Steps of the worker -/

/-- The next step of `threadFunc`. -/
def workerStep (s : EventLoopThread) : Option EventLoopThread :=
  if s.inside .worker then none else
  match s.worker with
  | .notStarted => none
  | .setName => some (s.use .loopThreadName_ { s with worker := .makeLoop })
  | .makeLoop => some { s with worker := .post }
  | .post =>
      some { s with
        postCallbacks := s.postCallbacks ++ [.ready]
        worker := .setPointer }
  | .setPointer =>
      some (s.use .promiseForLoopPointer_
        (s.attempt s.promiseForLoopPointer_.setValue fun p =>
          { s with promiseForLoopPointer_ := p, worker := .getFuture }))
  | .getFuture =>
      some (s.use .promiseForRun_
        (s.attempt s.promiseForRun_.getFuture fun p =>
          { s with promiseForRun_ := p, worker := .waitRun }))
  | .waitRun =>
      if s.promiseForRun_.satisfied
      then some { s with worker := .flush }
      else none
  | .flush =>
      some { s with
        postCallbacks := []
        worker := .callbacks s.postCallbacks }
  | .callbacks [] => some { s with worker := .loop }
  | .callbacks (.ready :: rest) =>
      some (s.use .promiseForLoop_
        (s.attempt s.promiseForLoop_.setValue fun p =>
          { s with
            promiseForLoop_ := p
            readied := true
            worker := .callbacks rest }))
  | .callbacks (.callsRun :: rest) =>
      some { s.enterRun .worker with worker := .callbacks rest }
  | .callbacks (.other :: rest) => some { s with worker := .callbacks rest }
  | .loop =>
      if s.exitRequested then some { s with worker := .lock } else none
  | .lock =>
      if s.loopMutex_ = none
      then
        some (s.use .loopMutex_
          { s with loopMutex_ := some .worker, worker := .exitLoop })
      else none
  | .exitLoop =>
      some (s.use .loop_
        (if s.loop_
        then { s with exitRequested := true, loop_ := false, worker := .unlock }
        else { s with fault := some .nullDereference }))
  | .unlock =>
      some (s.use .loopMutex_ { s with loopMutex_ := none, worker := .done })
  | .done => none

/-- The libevent loop runs the callbacks that have been posted. -/
def runPostCallbacks (s : EventLoopThread) : Option EventLoopThread :=
  if s.worker = .loop ∧ s.inside .worker = false then
    some { s with
      postCallbacks := []
      worker := .callbacks s.postCallbacks }
  else none

/-! ## Other threads -/

/-- A thread that has the object calls `run()`. -/
def callRun (s : EventLoopThread) (th : ThreadId) : Option EventLoopThread :=
  if s.Exists ∧ s.inside th = false ∧ th ≠ .worker ∧
      (th = .owner → s.owner = .alive)
  then some (s.enterRun th)
  else none

/-- A thread that has the loop posts a callback to it. -/
def post (s : EventLoopThread) (cb : PostCb) : Option EventLoopThread :=
  if s.promiseForLoopPointer_.satisfied ∧ cb ≠ .ready
  then some { s with postCallbacks := s.postCallbacks ++ [cb] }
  else none

/-- A thread that has the loop calls its `exit()`. -/
def exitLoop (s : EventLoopThread) : Option EventLoopThread :=
  if s.promiseForLoopPointer_.satisfied
  then some { s with exitRequested := true }
  else none

/-! ## The whole system -/

inductive Action where
  | owner
  | destroy
  | worker
  | runPostCallbacks
  | run (th : ThreadId)
  | callRun (th : ThreadId)
  | post (cb : PostCb)
  | exitLoop
  deriving DecidableEq

/-- The step function.  A state with a fault has no next state. -/
def step (s : EventLoopThread) (a : Action) : Option EventLoopThread :=
  if s.fault = none then
    match a with
    | .owner => s.ownerStep
    | .destroy => s.destroy
    | .worker => s.workerStep
    | .runPostCallbacks => s.runPostCallbacks
    | .run th => s.runStep th
    | .callRun th => s.callRun th
    | .post cb => s.post cb
    | .exitLoop => s.exitLoop
  else none

end EventLoopThread

end EventServer.Thread
