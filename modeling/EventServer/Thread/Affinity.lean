import EventServer.Support.Machine
import EventServer.Support.Run

/-!
# The thread of a dispatcher

`threadId_` is set when a dispatcher is built, but its callbacks are executed
by whichever thread calls `run`.  A dispatcher is built and run in one of three
ways: by an `EventLoopThread`, by a `WorkerImpl`, or by a `TcpServer` that was
given the dispatcher.  This file follows the threads of each of them, up to
the callbacks that they execute.

Callbacks may be submitted at any time and by any thread.  When libevent calls
`post_cb_` is the subject of `PostQueue`; here a thread inside the loop may
call it at any time.
-/

namespace EventServer.Thread

open EventServer.Support

/-- What the loop of a dispatcher executes.  The flag tells whether the code of
the program asserts `isThreadSafe()`, as `connectEstablished` does. -/
inductive LoopCallback where
  | posted (asserts : Bool)
  | fileEvent
  | deferredDeletion (asserts : Bool)
  deriving DecidableEq, Repr

/-- `mergeInjectedEventsAndRunCb` asserts `isThreadSafe()` whatever its
callback does. -/
def LoopCallback.asserts : LoopCallback → Bool
  | .posted asserts | .deferredDeletion asserts => asserts
  | .fileEvent => true

/-- What the drivers do with a dispatcher.  `looping` is inside
`event_base_loop`. -/
inductive Statement where
  | construct
  | getAndSet
  | listen
  | post (callback : LoopCallback)
  | runPostCallbacks
  | eventBaseLoop
  | looping
  deriving DecidableEq, Repr

/-- `Dispatcher::run`. -/
def dispatcherRun : List Statement := [.runPostCallbacks, .eventBaseLoop]

/-- `TcpServer::start`, once it has found that it is the first call. -/
def tcpServerStart : List Statement :=
  .listen :: .post (.posted false) :: dispatcherRun

/-- Who runs a dispatcher.  `builder` is the thread that has built it, and
`asserts` tells of the `cb_` of a `WorkerImpl` what `LoopCallback` tells of
other callbacks. -/
inductive Driver (Tid : Type) where
  | eventLoopThread
  | workerImpl (builder : Tid) (asserts : Bool)
  | tcpServer (builder : Tid)
  deriving DecidableEq, Repr

namespace Driver

variable {Tid : Type}

/-- What a thread of the driver executes: `EventLoopThread::threadFunc`,
`WorkerImpl::threadRoutine`, or `TcpServer::start`. -/
def program : Driver Tid → List Statement
  | .eventLoopThread => .construct :: .post (.posted false) :: dispatcherRun
  | .workerImpl _ asserts => .post (.posted asserts) :: dispatcherRun
  | .tcpServer _ => [.getAndSet]

/-- The `threadId_` of a dispatcher that the driver is given. -/
def builtBy : Driver Tid → Option Tid
  | .eventLoopThread => none
  | .workerImpl builder _ | .tcpServer builder => some builder

/-- The threads on which the driver may run its dispatcher: any, unless the
dispatcher has been built before. -/
def suitable (driver : Driver Tid) : Set Tid :=
  { t | ∀ builder ∈ driver.builtBy, t = builder }

end Driver

/-- A thread of a driver: the callbacks that it has taken from the dispatcher
and not yet executed, and what it still has to do afterwards. -/
structure Activity (Tid : Type) where
  tid : Tid
  callbacks : List LoopCallback
  rest : List Statement
  deriving DecidableEq, Repr

/-- A dispatcher and the threads that drive it.  `executed` is the history of
the callbacks, each with the thread that has executed it. -/
structure DrivenDispatcher (Tid : Type) where
  threadId_ : Option Tid
  started_ : Bool
  running_loop : Bool
  post_callbacks_ : List LoopCallback
  to_delete_ : List LoopCallback
  fileEvents : ℕ
  activities : List (Activity Tid)
  executed : List (LoopCallback × Tid)
  fault : Option Fault

namespace DrivenDispatcher

variable {Tid : Type}

/-- Before the first thread of the driver. -/
def create (driver : Driver Tid) : DrivenDispatcher Tid where
  threadId_ := driver.builtBy
  started_ := false
  running_loop := false
  post_callbacks_ := []
  to_delete_ := []
  fileEvents := 0
  activities := []
  executed := []
  fault := none

/-- `isThreadSafe()` and `isInLoopThread()`, called on the thread `t`. -/
def isThreadSafe (s : DrivenDispatcher Tid) (t : Tid) : Prop :=
  s.threadId_ = some t

instance [DecidableEq Tid] (s : DrivenDispatcher Tid) (t : Tid) :
    Decidable (s.isThreadSafe t) :=
  inferInstanceAs (Decidable (_ = _))

/-- Replace the activity number `k`. -/
def setActivity (s : DrivenDispatcher Tid) (k : ℕ) (a : Activity Tid) :
    DrivenDispatcher Tid :=
  { s with activities := s.activities.set k a }

/-- `post`, `createFileEvent` or `deferredDelete`. -/
def submit (s : DrivenDispatcher Tid) (callback : LoopCallback) :
    DrivenDispatcher Tid :=
  match callback with
  | .posted _ => { s with post_callbacks_ := s.post_callbacks_ ++ [callback] }
  | .fileEvent => { s with fileEvents := s.fileEvents + 1 }
  | .deferredDeletion _ => { s with to_delete_ := s.to_delete_ ++ [callback] }

/-- A thread of the driver begins: the worker of an `EventLoopThread`, of which
there is one, the thread that `WorkerImpl::start` creates, or any thread that
calls `TcpServer::start`. -/
def start (driver : Driver Tid) (s : DrivenDispatcher Tid) (t : Tid) :
    Option (DrivenDispatcher Tid) :=
  if driver.builtBy.isNone ∧ s.activities ≠ [] then none
  else some { s with activities := s.activities ++ [⟨t, [], driver.program⟩] }

section Steps

variable [DecidableEq Tid]

/-- The next statement of the activity `a`, which is number `k`. -/
def execute (s : DrivenDispatcher Tid) (k : ℕ) (a : Activity Tid) :
    Statement → List Statement → Option (DrivenDispatcher Tid)
  | .construct, rest =>
      some ({ s with threadId_ := some a.tid }.setActivity k
        { a with rest := rest })
  | .getAndSet, rest =>
      some ({ s with started_ := true }.setActivity k
        { a with rest := if s.started_ then rest else tcpServerStart ++ rest })
  | .listen, rest =>
      if s.isThreadSafe a.tid
      then some ((s.submit .fileEvent).setActivity k { a with rest := rest })
      else some { s with fault := some .assertion }
  | .post callback, rest =>
      some ((s.submit callback).setActivity k { a with rest := rest })
  | .runPostCallbacks, rest =>
      some ({ s with post_callbacks_ := [] }.setActivity k
        { a with callbacks := s.post_callbacks_, rest := rest })
  | .eventBaseLoop, rest =>
      -- libevent refuses to run one loop on two threads
      if s.running_loop then some (s.setActivity k { a with rest := rest })
      else
        some ({ s with running_loop := true }.setActivity k
          { a with rest := .looping :: rest })
  | .looping, _ => none

/-- A thread without callbacks at hand goes on with its driver's code. -/
def advance (s : DrivenDispatcher Tid) (k : ℕ) :
    Option (DrivenDispatcher Tid) :=
  (s.activities[k]?).bind fun a =>
    match a.callbacks, a.rest with
    | [], statement :: rest => s.execute k a statement rest
    | _, _ => none

/-- A thread executes the next one of the callbacks that it has taken. -/
def callFront (s : DrivenDispatcher Tid) (k : ℕ) :
    Option (DrivenDispatcher Tid) :=
  (s.activities[k]?).bind fun a =>
    match a.callbacks with
    | callback :: callbacks =>
        some ({ s with
          executed := s.executed ++ [(callback, a.tid)]
          fault :=
            if callback.asserts ∧ ¬ s.isThreadSafe a.tid
            then some .assertion else s.fault }.setActivity k
          { a with callbacks := callbacks })
    | [] => none

end Steps

/-- What libevent calls inside the loop. -/
inductive LoopEvent where
  | post_cb_
  | deferred_delete_cb_
  | fileEvent
  deriving DecidableEq, Repr

/-- The callbacks that the event takes from the dispatcher. -/
def take (s : DrivenDispatcher Tid) :
    LoopEvent → List LoopCallback × DrivenDispatcher Tid
  | .post_cb_ => (s.post_callbacks_, { s with post_callbacks_ := [] })
  | .deferred_delete_cb_ => (s.to_delete_, { s with to_delete_ := [] })
  | .fileEvent => (if 0 < s.fileEvents then [.fileEvent] else [], s)

/-- A thread in the loop, with nothing at hand, gets an event. -/
def dispatch (s : DrivenDispatcher Tid) (k : ℕ) (event : LoopEvent) :
    Option (DrivenDispatcher Tid) :=
  (s.activities[k]?).bind fun a =>
    match a.callbacks, a.rest with
    | [], .looping :: _ =>
        let (callbacks, s) := s.take event
        some (s.setActivity k { a with callbacks := callbacks })
    | _, _ => none

/-- `event_base_loop` returns. -/
def leaveLoop (s : DrivenDispatcher Tid) (k : ℕ) :
    Option (DrivenDispatcher Tid) :=
  (s.activities[k]?).bind fun a =>
    match a.callbacks, a.rest with
    | [], .looping :: rest =>
        some ({ s with running_loop := false }.setActivity k
          { a with rest := rest })
    | _, _ => none

inductive Action (Tid : Type) where
  | start (t : Tid)
  | advance (k : ℕ)
  | callFront (k : ℕ)
  | dispatch (k : ℕ) (event : LoopEvent)
  | leaveLoop (k : ℕ)
  | submit (callback : LoopCallback)
  deriving DecidableEq

/-- The driver is started only on threads of the set. -/
def Action.StartsOn (threads : Set Tid) : Action Tid → Prop
  | .start t => t ∈ threads
  | _ => True

theorem Action.StartsOn.mono {action : Action Tid} {threads others : Set Tid}
    (h : action.StartsOn threads) (hsub : threads ⊆ others) :
    action.StartsOn others := by
  cases action with
  | start t => exact hsub h
  | advance k => trivial
  | callFront k => trivial
  | dispatch k event => trivial
  | leaveLoop k => trivial
  | submit callback => trivial

/-- The step function.  A failed assertion ends the program. -/
def step [DecidableEq Tid] (driver : Driver Tid) (s : DrivenDispatcher Tid)
    (action : Action Tid) : Option (DrivenDispatcher Tid) :=
  if s.fault = none then
    match action with
    | .start t => start driver s t
    | .advance k => s.advance k
    | .callFront k => s.callFront k
    | .dispatch k event => s.dispatch k event
    | .leaveLoop k => s.leaveLoop k
    | .submit callback =>
        if s.threadId_.isSome then some (s.submit callback) else none
  else none

/-- Every callback was executed by the thread of `threadId_`, and no assertion
about the thread has failed. -/
structure Affine (s : DrivenDispatcher Tid) : Prop where
  executed : ∀ entry ∈ s.executed, s.isThreadSafe entry.2
  fault_eq : s.fault = none

/-! ## Steps on the right thread -/

/-- All threads of the driver are the one of `threadId_`.  A driver that builds
the dispatcher itself has begun to do so. -/
structure Settled (s : DrivenDispatcher Tid) (driver : Driver Tid) : Prop
    extends s.Affine where
  activities : ∀ a ∈ s.activities, s.isThreadSafe a.tid
  built : ∀ builder ∈ driver.builtBy, s.isThreadSafe builder
  begun : driver.builtBy = none → s.activities ≠ []

variable {driver : Driver Tid}

/-- An activity goes on, and whatever it executes it executes on the right
thread. -/
theorem Settled.goOn {s t : DrivenDispatcher Tid} {k : ℕ}
    {a next : Activity Tid} (h : s.Settled driver)
    (ha : s.activities[k]? = some a)
    (hactivities : t.activities = s.activities.set k next)
    (htid : next.tid = a.tid) (hthread : t.threadId_ = s.threadId_)
    (hexecuted : ∀ entry ∈ t.executed, entry ∈ s.executed ∨ entry.2 = a.tid)
    (hfault : t.fault = none) : t.Settled driver := by
  have hsafe : s.isThreadSafe a.tid :=
    h.activities a (List.mem_of_getElem? ha)
  have hsame : ∀ u, s.isThreadSafe u → t.isThreadSafe u :=
    fun u hu => hthread.trans hu
  refine ⟨⟨?_, hfault⟩, ?_, ?_, ?_⟩
  · intro entry hentry
    rcases hexecuted entry hentry with hold | hnew
    · exact hsame _ (h.executed entry hold)
    · rw [hnew]
      exact hsame _ hsafe
  · intro b hb
    rw [hactivities] at hb
    rcases List.mem_or_eq_of_mem_set hb with hold | rfl
    · exact hsame _ (h.activities b hold)
    · rw [htid]
      exact hsame _ hsafe
  · intro builder hbuilder
    exact hsame _ (h.built builder hbuilder)
  · intro hnone hempty
    rw [hactivities, List.set_eq_nil_iff] at hempty
    exact h.begun hnone hempty

theorem submit_frame (s : DrivenDispatcher Tid) (callback : LoopCallback) :
    (s.submit callback).threadId_ = s.threadId_ ∧
      (s.submit callback).activities = s.activities ∧
      (s.submit callback).executed = s.executed ∧
      (s.submit callback).fault = s.fault := by
  cases callback with
  | posted asserts => exact ⟨rfl, rfl, rfl, rfl⟩
  | fileEvent => exact ⟨rfl, rfl, rfl, rfl⟩
  | deferredDeletion asserts => exact ⟨rfl, rfl, rfl, rfl⟩

theorem take_frame (s : DrivenDispatcher Tid) (event : LoopEvent) :
    (s.take event).2.threadId_ = s.threadId_ ∧
      (s.take event).2.activities = s.activities ∧
      (s.take event).2.executed = s.executed ∧
      (s.take event).2.fault = s.fault := by
  cases event with
  | post_cb_ => exact ⟨rfl, rfl, rfl, rfl⟩
  | deferred_delete_cb_ => exact ⟨rfl, rfl, rfl, rfl⟩
  | fileEvent => exact ⟨rfl, rfl, rfl, rfl⟩

theorem Settled.submit {s : DrivenDispatcher Tid} (h : s.Settled driver)
    (callback : LoopCallback) : (s.submit callback).Settled driver := by
  obtain ⟨hthread, hactivities, hexecuted, hfault⟩ := s.submit_frame callback
  refine ⟨⟨?_, hfault.trans h.fault_eq⟩, ?_, ?_, ?_⟩
  · unfold isThreadSafe
    rw [hthread, hexecuted]
    exact h.executed
  · unfold isThreadSafe
    rw [hthread, hactivities]
    exact h.activities
  · unfold isThreadSafe
    rw [hthread]
    exact h.built
  · rw [hactivities]
    exact h.begun

theorem Settled.dispatch {s t : DrivenDispatcher Tid} {k : ℕ}
    {event : LoopEvent} (h : s.Settled driver)
    (hstep : s.dispatch k event = some t) : t.Settled driver := by
  obtain ⟨a, ha, hstep⟩ := Option.bind_eq_some_iff.mp hstep
  obtain ⟨hthread, hactivities, hexecuted, hfault⟩ := s.take_frame event
  split at hstep
  · cases hstep
    refine h.goOn ha (congrArg (List.set · k _) hactivities) rfl hthread ?_
      (hfault.trans h.fault_eq)
    intro entry hentry
    rw [← hexecuted]
    exact Or.inl hentry
  · cases hstep

theorem Settled.leaveLoop {s t : DrivenDispatcher Tid} {k : ℕ}
    (h : s.Settled driver) (hstep : s.leaveLoop k = some t) :
    t.Settled driver := by
  obtain ⟨a, ha, hstep⟩ := Option.bind_eq_some_iff.mp hstep
  split at hstep
  · cases hstep
    exact h.goOn ha rfl rfl rfl (fun _ => Or.inl) h.fault_eq
  · cases hstep

/-- A thread begins on which the driver may run its dispatcher. -/
theorem Settled.start {s next : DrivenDispatcher Tid} {t : Tid}
    (h : s.Settled driver) (ht : t ∈ driver.suitable)
    (hstep : start driver s t = some next) : next.Settled driver := by
  unfold DrivenDispatcher.start at hstep
  split at hstep
  · cases hstep
  · rename_i honce
    cases hstep
    have hbuilder : driver.builtBy ≠ none := by
      intro hnone
      exact honce ⟨by simp [hnone], h.begun hnone⟩
    obtain ⟨builder, hbuiltBy⟩ := Option.ne_none_iff_exists'.mp hbuilder
    refine ⟨⟨h.executed, h.fault_eq⟩, ?_, h.built, ?_⟩
    · intro a ha
      rcases List.mem_append.mp ha with hold | hnew
      · exact h.activities a hold
      · rw [List.mem_singleton.mp hnew]
        change s.isThreadSafe t
        rw [ht builder hbuiltBy]
        exact h.built builder hbuiltBy
    · intro hnone
      exact absurd hnone hbuilder

section Steps

variable [DecidableEq Tid]

theorem Settled.execute {s t : DrivenDispatcher Tid} {k : ℕ}
    {a : Activity Tid} {statement : Statement} {rest : List Statement}
    (h : s.Settled driver) (ha : s.activities[k]? = some a)
    (hstep : s.execute k a statement rest = some t) : t.Settled driver := by
  have hsafe : s.isThreadSafe a.tid :=
    h.activities a (List.mem_of_getElem? ha)
  cases statement with
  | construct =>
      cases hstep
      exact h.goOn ha rfl rfl hsafe.symm (fun _ => Or.inl) h.fault_eq
  | getAndSet =>
      cases hstep
      exact h.goOn ha rfl rfl rfl (fun _ => Or.inl) h.fault_eq
  | listen =>
      rw [DrivenDispatcher.execute, if_pos hsafe] at hstep
      cases hstep
      exact h.goOn ha rfl rfl rfl (fun _ => Or.inl) h.fault_eq
  | post callback =>
      obtain ⟨hthread, hactivities, hexecuted, hfault⟩ :=
        s.submit_frame callback
      cases hstep
      refine h.goOn ha (congrArg (List.set · k _) hactivities) rfl hthread ?_
        (hfault.trans h.fault_eq)
      intro entry hentry
      rw [← hexecuted]
      exact Or.inl hentry
  | runPostCallbacks =>
      cases hstep
      exact h.goOn ha rfl rfl rfl (fun _ => Or.inl) h.fault_eq
  | eventBaseLoop =>
      by_cases hloop : s.running_loop = true
      · rw [DrivenDispatcher.execute, if_pos hloop] at hstep
        cases hstep
        exact h.goOn ha rfl rfl rfl (fun _ => Or.inl) h.fault_eq
      · rw [DrivenDispatcher.execute, if_neg hloop] at hstep
        cases hstep
        exact h.goOn ha rfl rfl rfl (fun _ => Or.inl) h.fault_eq
  | looping => cases hstep

theorem Settled.advance {s t : DrivenDispatcher Tid} {k : ℕ}
    (h : s.Settled driver) (hstep : s.advance k = some t) :
    t.Settled driver := by
  obtain ⟨a, ha, hstep⟩ := Option.bind_eq_some_iff.mp hstep
  split at hstep
  · exact h.execute ha hstep
  · cases hstep

theorem Settled.callFront {s t : DrivenDispatcher Tid} {k : ℕ}
    (h : s.Settled driver) (hstep : s.callFront k = some t) :
    t.Settled driver := by
  obtain ⟨a, ha, hstep⟩ := Option.bind_eq_some_iff.mp hstep
  have hsafe : s.isThreadSafe a.tid :=
    h.activities a (List.mem_of_getElem? ha)
  split at hstep
  · cases hstep
    refine h.goOn ha rfl rfl rfl ?_ ?_
    · intro entry hentry
      rcases List.mem_append.mp hentry with hold | hnew
      · exact Or.inl hold
      · rw [List.mem_singleton.mp hnew]
        exact Or.inr rfl
    · exact (if_neg (fun hfail => hfail.2 hsafe)).trans h.fault_eq
  · cases hstep

theorem settled_preserved {s t : DrivenDispatcher Tid} {action : Action Tid}
    (h : s.Settled driver) (hstart : action.StartsOn driver.suitable)
    (hstep : step driver s action = some t) : t.Settled driver := by
  unfold step at hstep
  rw [if_pos h.fault_eq] at hstep
  cases action with
  | start u => exact h.start hstart hstep
  | advance k => exact h.advance hstep
  | callFront k => exact h.callFront hstep
  | dispatch k event => exact h.dispatch hstep
  | leaveLoop k => exact h.leaveLoop hstep
  | submit callback =>
      by_cases hbuilt : s.threadId_.isSome = true
      · have hsubmit := (if_pos hbuilt).symm.trans hstep
        cases hsubmit
        exact h.submit callback
      · have hsubmit := (if_neg hbuilt).symm.trans hstep
        cases hsubmit

/-! ## The dispatcher of an `EventLoopThread` -/

/-- The worker has not yet built its dispatcher. -/
def Unbuilt (s : DrivenDispatcher Tid) : Prop :=
  s = create .eventLoopThread ∨ ∃ t, s =
    { create .eventLoopThread with
      activities := [⟨t, [], (.eventLoopThread : Driver Tid).program⟩] }

/-- Nothing happens to the dispatcher before the worker has built it. -/
theorem Unbuilt.step {s t : DrivenDispatcher Tid} {action : Action Tid}
    (h : s.Unbuilt) (hstep : step .eventLoopThread s action = some t) :
    t.Unbuilt ∨ t.Settled .eventLoopThread := by
  rcases h with rfl | ⟨worker, rfl⟩
  · cases action with
    | start u =>
        cases hstep
        exact Or.inl (Or.inr ⟨u, rfl⟩)
    | advance k => cases hstep
    | callFront k => cases hstep
    | dispatch k event => cases hstep
    | leaveLoop k => cases hstep
    | submit callback => cases hstep
  · cases action with
    | start u => cases hstep
    | advance k =>
        cases k with
        | zero =>
            cases hstep
            refine Or.inr ⟨⟨nofun, rfl⟩, ?_, nofun, nofun⟩
            intro a ha
            rw [List.mem_singleton.mp ha]
            rfl
        | succ k => cases hstep
    | callFront k => cases k <;> cases hstep
    | dispatch k event => cases k <;> cases hstep
    | leaveLoop k => cases k <;> cases hstep
    | submit callback => cases hstep

/-! ## Runs -/

/-- The invariant of every run on suitable threads. -/
def Driven (driver : Driver Tid) (s : DrivenDispatcher Tid) : Prop :=
  (driver = .eventLoopThread ∧ s.Unbuilt) ∨ s.Settled driver

omit [DecidableEq Tid] in
theorem create_driven (driver : Driver Tid) :
    Driven driver (create driver) := by
  cases driver with
  | eventLoopThread => exact Or.inl ⟨rfl, Or.inl rfl⟩
  | workerImpl builder asserts =>
      exact Or.inr ⟨⟨nofun, rfl⟩, nofun, fun _ h => h, nofun⟩
  | tcpServer builder =>
      exact Or.inr ⟨⟨nofun, rfl⟩, nofun, fun _ h => h, nofun⟩

theorem driven_preserved {s t : DrivenDispatcher Tid} {action : Action Tid}
    (h : Driven driver s) (hstart : action.StartsOn driver.suitable)
    (hstep : step driver s action = some t) : Driven driver t := by
  rcases h with ⟨rfl, hunbuilt⟩ | hsettled
  · rcases hunbuilt.step hstep with hunbuilt | hsettled
    · exact Or.inl ⟨rfl, hunbuilt⟩
    · exact Or.inr hsettled
  · exact Or.inr (settled_preserved hsettled hstart hstep)

omit [DecidableEq Tid] in
theorem Driven.affine {s : DrivenDispatcher Tid} (h : Driven driver s) :
    s.Affine := by
  rcases h with ⟨-, rfl | ⟨worker, rfl⟩⟩ | hsettled
  · exact ⟨nofun, rfl⟩
  · exact ⟨nofun, rfl⟩
  · exact hsettled.toAffine

/-- The thread that a `WorkerImpl` creates executes the callback that it
posts. -/
theorem workerImpl_executes (builder t : Tid) (asserts : Bool) :
    ∃ s, run (step (.workerImpl builder asserts))
        (create (.workerImpl builder asserts))
        [.start t, .advance 0, .advance 0, .callFront 0] = some s ∧
      s.threadId_ = some builder ∧ (.posted asserts, t) ∈ s.executed :=
  ⟨_, rfl, rfl, List.mem_singleton.mpr rfl⟩

/-- On any thread but the one that has built the dispatcher, `listen` fails its
assertion. -/
theorem tcpServer_listens {builder t : Tid} (hne : t ≠ builder) :
    ∃ s, run (step (.tcpServer builder)) (create (.tcpServer builder))
        [.start t, .advance 0, .advance 0] = some s ∧
      s.fault = some .assertion := by
  obtain ⟨s, hrun, hthread, hlisten⟩ : ∃ s,
      run (step (.tcpServer builder)) (create (.tcpServer builder))
        [.start t, .advance 0] = some s ∧
      s.threadId_ = some builder ∧
      step (.tcpServer builder) s (.advance 0) =
        s.execute 0 ⟨t, [], tcpServerStart⟩ .listen tcpServerStart.tail :=
    ⟨_, rfl, rfl, rfl⟩
  have hunsafe : ¬ s.isThreadSafe t := by
    intro hsafe
    exact hne (Option.some.inj (hthread.symm.trans hsafe)).symm
  have hfail := hlisten.trans (if_neg hunsafe)
  exact ⟨_, run_append hrun (run_cons_eq_some_iff.mpr ⟨_, hfail, rfl⟩), rfl⟩

/-- In all runs in which the driver is started only on threads of a set, the
callbacks are executed by the thread of `threadId_` and no assertion about the
thread fails, exactly when all threads of the set suit the driver. -/
theorem affine_iff_suitable (driver : Driver Tid) (threads : Set Tid) :
    (∀ actions s, (∀ action ∈ actions, action.StartsOn threads) →
        run (step driver) (create driver) actions = some s → s.Affine) ↔
      threads ⊆ driver.suitable := by
  constructor
  · intro hall t ht builder hbuilder
    cases driver with
    | eventLoopThread => cases hbuilder
    | workerImpl owner asserts =>
        obtain ⟨s, hrun, hthread, hexecuted⟩ :=
          workerImpl_executes owner t asserts
        have haffine := hall _ s (by simp [Action.StartsOn, ht]) hrun
        have hsafe := haffine.executed _ hexecuted
        have howner : owner = t := Option.some.inj (hthread.symm.trans hsafe)
        have heq : owner = builder := Option.some.inj hbuilder
        exact howner.symm.trans heq
    | tcpServer owner =>
        have heq : owner = builder := Option.some.inj hbuilder
        by_contra hne
        rw [← heq] at hne
        obtain ⟨s, hrun, hfault⟩ := tcpServer_listens hne
        have haffine := hall _ s (by simp [Action.StartsOn, ht]) hrun
        rw [haffine.fault_eq] at hfault
        cases hfault
  · intro hsuitable actions s hstarts hrun
    have hguard : Guarded (step driver)
        (fun _ action => action.StartsOn driver.suitable)
        (create driver) actions := by
      refine (guarded_iff_forall hrun).mpr ?_
      intro action haction
      exact (hstarts action haction).mono hsuitable
    have hdriven : Driven driver s :=
      run_invariant_of_guarded
        (fun _ _ _ h hstart hstep => driven_preserved h hstart hstep)
        (create_driven driver) hguard hrun
    exact hdriven.affine

end Steps

/-- A `WorkerImpl` built on thread 1 executes its `cb_` on thread 2, and a
`TcpServer` whose dispatcher was built on thread 1 fails an assertion when it
is started on thread 2. -/
theorem drivers_on_another_thread :
    (∃ s, run (step (.workerImpl (1 : ℕ) false)) (create (.workerImpl 1 false))
        [.start 2, .advance 0, .advance 0, .callFront 0] = some s ∧
      (.posted false, 2) ∈ s.executed ∧ ¬ s.isThreadSafe 2) ∧
    (∃ s, run (step (.tcpServer (1 : ℕ))) (create (.tcpServer 1))
        [.start 2, .advance 0, .advance 0] = some s ∧
      s.fault = some .assertion) :=
  ⟨exists_run_of_eval (by decide +kernel),
    exists_run_of_eval (by decide +kernel)⟩

end DrivenDispatcher

end EventServer.Thread
