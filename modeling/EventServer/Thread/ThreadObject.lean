import EventServer.Common.CountDownLatch

/-!
# Starting and ending a thread

A `Thread` object with the thread that owns it and the one that it starts.
`start` waits on a latch until the new thread has stored its id in the object;
behind that the new thread must not touch the object any more, since its owner
may destroy it at any time.  Each step below is one statement of the source,
and each line of the latch is a step of its own.
-/

namespace EventServer.Thread

open EventServer.Support EventServer.Common

/-- The ways in which a step of one of the threads goes wrong. -/
inductive StartFault where
  /-- The assertions about the caller: `start` once, `join` once behind it. -/
  | misuse
  /-- `assert(tid_ > 0)`, or the assertion of `~MutexLock()`. -/
  | assertion
  /-- An access to the destroyed object, or to the deleted `ThreadData`. -/
  | useAfterFree
  /-- `pthread_join` or `pthread_detach` of a thread that is not joinable. -/
  | badHandle
  /-- The latch is destroyed in use. -/
  | latchInUse
  deriving DecidableEq, Repr

/-- What `pthreadId_` stands for. -/
inductive Handle where
  | none
  | joinable
  | joined
  | detached
  deriving DecidableEq, Repr

instance : Fintype Handle where
  elems := {.none, .joinable, .joined, .detached}
  complete := fun handle => by cases handle <;> simp

/-- The statement that the owner executes next.  From `allocate` to `assertTid`
it is in `start`, from `detach` on in the destructor. -/
inductive OwnerLine where
  | idle
  | allocate
  | create
  | undo
  | deleteData
  | callLatch
  | inLatch
  | assertTid
  | joining
  | detach
  | members
  | gone
  deriving DecidableEq, Repr

/-- The statement that the new thread executes next, in `runInThread` and
`startThread`. -/
inductive ChildLine where
  | writeTid
  | callLatch
  | inLatch
  | func
  | deleteData
  | ended
  deriving DecidableEq, Repr

/-- The new thread, known by its id. -/
structure Child where
  id : Tid
  line : ChildLine

/-- An object of the class `Thread`, with its owner and the thread that it has
started.  `dataLive` tells whether there is a `ThreadData` on the heap. -/
structure ThreadObject where
  started_ : Bool
  joined_ : Bool
  pthreadId_ : Handle
  tid_ : ℤ
  latch_ : CountDownLatch
  owner : Tid
  ownerLine : OwnerLine
  child : Option Child
  dataLive : Bool
  fault : Option StartFault

namespace ThreadObject

/-- `Thread(func, name)`. -/
def create (owner : Tid) : ThreadObject where
  started_ := false
  joined_ := false
  pthreadId_ := .none
  tid_ := 0
  latch_ := .create 1
  owner := owner
  ownerLine := .idle
  child := none
  dataLive := false
  fault := none

/-- The object has not been destroyed. -/
def Exists (s : ThreadObject) : Prop := s.ownerLine ≠ .gone

instance (s : ThreadObject) : Decidable s.Exists :=
  inferInstanceAs (Decidable (_ ≠ _))

def fail (s : ThreadObject) (fault : StartFault) : ThreadObject :=
  { s with fault := some fault }

/-- Go on if `p` holds, and end the program otherwise. -/
def check (s : ThreadObject) (p : Prop) [Decidable p] (fault : StartFault)
    (next : ThreadObject) : ThreadObject :=
  if p then next else s.fail fault

/-- The thread `t` has returned from its function of the latch. -/
def Returned (s : ThreadObject) (t : Tid) : Prop :=
  s.latch_.line t = .idle ∧ s.latch_.mutex_.position t = .outside

instance (s : ThreadObject) (t : Tid) : Decidable (s.Returned t) :=
  inferInstanceAs (Decidable (_ ∧ _))

/-- A step in a function of the latch. -/
def latchStep (s : ThreadObject) (t : Tid) (a : CountDownLatch.Action) :
    Option ThreadObject :=
  (s.latch_.step (t, a)).map fun latch => { s with latch_ := latch }

/-- A step inside the function of the latch that the thread has called. -/
def latchGoOn (s : ThreadObject) (t : Tid) :
    CountDownLatch.Action → Option ThreadObject
  | .call _ => none
  | a => s.latchStep t a

/-! ## The owner -/

/-- `start()`. -/
def start (s : ThreadObject) : Option ThreadObject :=
  if s.ownerLine = .idle then
    some (s.check (s.started_ = false) .misuse
      { s with started_ := true, ownerLine := .allocate })
  else none

/-- `join()`. -/
def join (s : ThreadObject) : Option ThreadObject :=
  if s.ownerLine = .idle then
    some (s.check (s.started_ = true ∧ s.joined_ = false) .misuse
      { s with joined_ := true, ownerLine := .joining })
  else none

/-- `~Thread()`. -/
def destroy (s : ThreadObject) : Option ThreadObject :=
  if s.ownerLine = .idle then some { s with ownerLine := .detach } else none

/-- `pthread_create`.  It fails, or starts a thread with a new id. -/
def pthreadCreate (s : ThreadObject) : Option Tid → Option ThreadObject
  | none => some { s with ownerLine := .undo }
  | some id =>
      if id ≠ s.owner then
        some { s with
          pthreadId_ := .joinable
          child := some ⟨id, .writeTid⟩
          ownerLine := .callLatch }
      else none

/-- `pthread_join` returns when the thread has ended. -/
def pthreadJoin (s : ThreadObject) : Option ThreadObject :=
  if s.child.any (fun child => child.line = .ended) = true then
    some (s.check (s.pthreadId_ = .joinable) .badHandle
      { s with pthreadId_ := .joined, ownerLine := .idle })
  else none

/-- `if (started_ && !joined_) pthread_detach(pthreadId_);`. -/
def pthreadDetach (s : ThreadObject) : ThreadObject :=
  if s.started_ = true ∧ s.joined_ = false then
    s.check (s.pthreadId_ = .joinable) .badHandle
      { s with pthreadId_ := .detached, ownerLine := .members }
  else { s with ownerLine := .members }

/-- The destructors of the members. -/
def destroyMembers (s : ThreadObject) : ThreadObject :=
  s.check (s.latch_.mutex_.holder_ = 0) .assertion
    (s.check (s.latch_.mutex_.mutex_ = none ∧
        (s.latch_.mutex_.conditions ()).blocked = []) .latchInUse
      { s with ownerLine := .gone })

/-- The next statement of the owner.  `id` is what `pthread_create` answers,
and `a` the next step in the latch. -/
def ownerStep (s : ThreadObject) (id : Option Tid) (a : CountDownLatch.Action) :
    Option ThreadObject :=
  match s.ownerLine with
  | .idle | .gone => none
  | .allocate => some { s with dataLive := true, ownerLine := .create }
  | .create => s.pthreadCreate id
  | .undo => some { s with started_ := false, ownerLine := .deleteData }
  | .deleteData =>
      some (s.check (s.dataLive = true) .useAfterFree
        { s with dataLive := false, ownerLine := .idle })
  | .callLatch =>
      { s with ownerLine := .inLatch }.latchStep s.owner (.call .wait)
  | .inLatch =>
      if s.Returned s.owner then some { s with ownerLine := .assertTid }
      else s.latchGoOn s.owner a
  | .assertTid =>
      some (s.check (0 < s.tid_) .assertion { s with ownerLine := .idle })
  | .joining => s.pthreadJoin
  | .detach => some s.pthreadDetach
  | .members => some s.destroyMembers

/-! ## The new thread -/

def setChild (s : ThreadObject) (id : Tid) (line : ChildLine) : ThreadObject :=
  { s with child := some ⟨id, line⟩ }

/-- Use the `Thread` object. -/
def useObject (s : ThreadObject) (next : Option ThreadObject) :
    Option ThreadObject :=
  if s.Exists then next else some (s.fail .useAfterFree)

/-- The next statement of the new thread.  Inside `func_` it takes none of
these. -/
def childStep (s : ThreadObject) (child : Child) (a : CountDownLatch.Action) :
    Option ThreadObject :=
  match child.line with
  | .writeTid =>
      s.useObject (some { s.setChild child.id .callLatch with
        tid_ := child.id })
  | .callLatch =>
      s.useObject
        ((s.setChild child.id .inLatch).latchStep child.id (.call .countDown))
  | .inLatch =>
      if s.Returned child.id then some (s.setChild child.id .func)
      else s.useObject (s.latchGoOn child.id a)
  | .func | .ended => none
  | .deleteData =>
      some (s.check (s.dataLive = true) .useAfterFree
        { s.setChild child.id .ended with dataLive := false })

/-! ## The whole system -/

inductive Action where
  /-- The owner calls `start()`. -/
  | start
  /-- The owner calls `join()`. -/
  | join
  /-- The owner destroys the object. -/
  | destroy
  /-- The next statement of the owner. -/
  | owner (id : Option Tid) (a : CountDownLatch.Action)
  /-- The next statement of the new thread. -/
  | child (a : CountDownLatch.Action)
  /-- `func_` returns. -/
  | funcReturns
  deriving DecidableEq, Repr

/-- The step function.  A fault ends the program. -/
def step (s : ThreadObject) (act : Action) : Option ThreadObject :=
  if s.fault = none then
    match act with
    | .start => s.start
    | .join => s.join
    | .destroy => s.destroy
    | .owner id a => s.ownerStep id a
    | .child a => s.child.bind fun child => s.childStep child a
    | .funcReturns =>
        s.child.bind fun child =>
          if child.line = .func
          then some (s.setChild child.id .deleteData) else none
  else none

end ThreadObject

end EventServer.Thread
