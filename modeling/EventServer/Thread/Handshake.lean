import EventServer.Thread.EventLoopThread

/-!
# The handshake between an `EventLoopThread` and its worker

Three promises, a once flag and a mutex connect the worker to the threads that
use the object.  The invariant below says, for each of them, which positions
of the threads its value stands for.
-/

namespace EventServer.Thread

open EventServer.Support

/-! ## What the positions stand for -/

/-- The active call has retrieved the future of `promiseForLoop_`. -/
def OnceFlag.hasFuture : OnceFlag ThreadId RunPc → Bool
  | .notCalled | .running _ .getFuture => false
  | .running _ .setValue | .running _ .waitLoop | .running _ .leave | .done =>
      true

/-- The active call has set `promiseForRun_`. -/
def OnceFlag.hasSetRun : OnceFlag ThreadId RunPc → Bool
  | .notCalled | .running _ .getFuture | .running _ .setValue => false
  | .running _ .waitLoop | .running _ .leave | .done => true

/-- The active call has seen `promiseForLoop_` set. -/
def OnceFlag.sawReady : OnceFlag ThreadId RunPc → Bool
  | .notCalled | .running _ .getFuture | .running _ .setValue
  | .running _ .waitLoop => false
  | .running _ .leave | .done => true

namespace OwnerPc

/-- The constructor of `thread_` has run. -/
def startedThread : OwnerPc → Bool
  | .constructing k => decide (2 < k)
  | _ => true

/-- The future of `promiseForLoopPointer_` has been retrieved. -/
def hasFuture : OwnerPc → Bool
  | .constructing _ | .getFuture => false
  | _ => true

/-- The constructor has returned. -/
def isBuilt : OwnerPc → Bool
  | .constructing _ | .getFuture | .waitPointer => false
  | _ => true

/-- The destructor has begun. -/
def isDestroying : OwnerPc → Bool
  | .constructing _ | .getFuture | .waitPointer | .alive => false
  | _ => true

/-- The call of `run()` in the destructor has returned. -/
def ranRun : OwnerPc → Bool
  | .copy | .unlock _ | .exitLoop _ | .join | .destroyed => true
  | _ => false

def holdsMutex : OwnerPc → Bool
  | .copy | .unlock _ => true
  | _ => false

end OwnerPc

namespace WorkerPc

def isStarted : WorkerPc → Bool
  | .notStarted => false
  | _ => true

/-- The worker has set `promiseForLoopPointer_`. -/
def hasPublished : WorkerPc → Bool
  | .notStarted | .setName | .makeLoop | .post | .setPointer => false
  | _ => true

/-- The worker has retrieved the future of `promiseForRun_`. -/
def hasFuture : WorkerPc → Bool
  | .notStarted | .setName | .makeLoop | .post | .setPointer | .getFuture =>
      false
  | _ => true

/-- The worker has called `Dispatcher::run`. -/
def hasEnteredRun : WorkerPc → Bool
  | .flush | .callbacks _ | .loop | .lock | .exitLoop | .unlock | .done => true
  | _ => false

def holdsMutex : WorkerPc → Bool
  | .exitLoop | .unlock => true
  | _ => false

/-- The member that the next step of the worker uses. -/
def uses : WorkerPc → Option Member
  | .setName => some .loopThreadName_
  | .setPointer => some .promiseForLoopPointer_
  | .getFuture => some .promiseForRun_
  | .callbacks (.ready :: _) => some .promiseForLoop_
  | .lock | .unlock => some .loopMutex_
  | .exitLoop => some .loop_
  | _ => none

/-- The worker is inside `Dispatcher::run`. -/
def inRun : WorkerPc → Bool
  | .flush | .callbacks _ | .loop => true
  | _ => false

/-- The worker has cleared `loop_`. -/
def hasCleared : WorkerPc → Bool
  | .unlock | .done => true
  | _ => false

end WorkerPc

theorem Member.declared_thread {k : ℕ} :
    Member.declared[k]? = some .thread_ ↔ k = 2 := by
  rcases k with _ | _ | _ | _ | _ | _ | _ | _ | k
  all_goals simp [Member.declared]

theorem WorkerPc.isStarted_eq_false {pc : WorkerPc} :
    pc.isStarted = false ↔ pc = .notStarted := by
  cases pc with
  | notStarted => simp [WorkerPc.isStarted]
  | _ => simp [WorkerPc.isStarted]

theorem WorkerPc.inRun_view {pc : WorkerPc} (h : pc.inRun = true) :
    pc.isStarted = true ∧ pc.hasPublished = true ∧ pc.hasFuture = true ∧
      pc.hasEnteredRun = true ∧ pc.holdsMutex = false ∧
      pc.hasCleared = false ∧ pc ≠ .done := by
  cases pc with
  | flush => exact ⟨rfl, rfl, rfl, rfl, rfl, rfl, by simp⟩
  | callbacks batch => exact ⟨rfl, rfl, rfl, rfl, rfl, rfl, by simp⟩
  | loop => exact ⟨rfl, rfl, rfl, rfl, rfl, rfl, by simp⟩
  | _ => exact absurd h (by simp [WorkerPc.inRun])

theorem WorkerPc.hasCleared_hasEnteredRun {pc : WorkerPc}
    (h : pc.hasCleared = true) :
    pc.hasEnteredRun = true := by
  cases pc with
  | unlock => rfl
  | done => rfl
  | _ => exact absurd h (by simp [WorkerPc.hasCleared])

theorem OwnerPc.isBuilt_startedThread {pc : OwnerPc} (h : pc.isBuilt = true) :
    pc.startedThread = true := by
  cases pc with
  | constructing k => exact absurd h (by simp [OwnerPc.isBuilt])
  | _ => rfl

theorem OwnerPc.isBuilt_hasFuture {pc : OwnerPc} (h : pc.isBuilt = true) :
    pc.hasFuture = true := by
  cases pc with
  | constructing k => exact absurd h (by simp [OwnerPc.isBuilt])
  | getFuture => exact absurd h (by simp [OwnerPc.isBuilt])
  | _ => rfl

theorem OwnerPc.unbuilt_of_not_hasFuture {pc : OwnerPc}
    (h : pc.hasFuture = false) :
    pc.isBuilt = false ∧ pc.isDestroying = false ∧ pc.ranRun = false ∧
      pc.holdsMutex = false := by
  cases pc with
  | constructing k => exact ⟨rfl, rfl, rfl, rfl⟩
  | getFuture => exact ⟨rfl, rfl, rfl, rfl⟩
  | _ => exact absurd h (by simp [OwnerPc.hasFuture])

namespace EventLoopThread

/-- The next step of the worker only uses what has been constructed. -/
def UsesConstructed (s : EventLoopThread) : Prop :=
  ∀ m, s.worker.uses = some m → m ∈ s.constructed

/-- Where the readiness callback is: not posted yet, the first one of those
that are pending, or executed. -/
def ReadyCallback (s : EventLoopThread) : Prop :=
  match s.worker with
  | .notStarted | .setName | .makeLoop | .post =>
      s.promiseForLoop_.satisfied = false ∧ s.postCallbacks = []
  | .setPointer | .getFuture | .waitRun | .flush =>
      s.promiseForLoop_.satisfied = false ∧
        ∃ rest, s.postCallbacks = .ready :: rest ∧ .ready ∉ rest
  | .callbacks batch =>
      .ready ∉ s.postCallbacks ∧
        ((s.promiseForLoop_.satisfied = false ∧
            ∃ rest, batch = .ready :: rest ∧ .ready ∉ rest) ∨
          (s.promiseForLoop_.satisfied = true ∧ .ready ∉ batch))
  | .loop | .lock | .exitLoop | .unlock | .done =>
      .ready ∉ s.postCallbacks ∧ s.promiseForLoop_.satisfied = true

/-- What the owner knows about the end of the loop. -/
def LoopEnds (s : EventLoopThread) : Prop :=
  match s.owner with
  | .unlock loop | .exitLoop loop => loop = true ∨ s.worker.hasCleared = true
  | .join => s.exitRequested = true ∨ s.worker.hasCleared = true
  | .destroyed => s.worker = .done
  | _ => True

/-- The invariant of the handshake. -/
structure Handshake (s : EventLoopThread) : Prop where
  no_fault : s.fault = none
  -- `run()`
  loop_future : s.promiseForLoop_.retrieved = s.once_.hasFuture
  run_value : s.promiseForRun_.satisfied = s.once_.hasSetRun
  saw_ready : s.once_.sawReady = true → s.promiseForLoop_.satisfied = true
  active_inside : ∀ th pc, s.once_ = .running th pc → s.inside th = true
  begun_built : s.once_ ≠ .notCalled → s.owner.isBuilt = true
  inside_built : ∀ th, s.inside th = true → s.owner.isBuilt = true
  begun_calls : s.once_ ≠ .notCalled → 0 < s.runCalls
  inside_calls : ∀ th, s.inside th = true → 0 < s.runCalls
  returns : 0 < s.runReturns → s.once_ = .done
  -- the worker
  started : s.worker.isStarted = s.owner.startedThread
  pointer_value : s.promiseForLoopPointer_.satisfied = s.worker.hasPublished
  run_future : s.promiseForRun_.retrieved = s.worker.hasFuture
  entered : s.worker.hasEnteredRun = true → s.promiseForRun_.satisfied = true
  ready : s.ReadyCallback
  readied_eq : s.readied = s.promiseForLoop_.satisfied
  worker_inside : s.inside .worker = true →
    s.worker.hasEnteredRun = true ∧ s.promiseForLoop_.satisfied = true
  -- the owner
  pointer_future : s.promiseForLoopPointer_.retrieved = s.owner.hasFuture
  loop_set : s.loop_ = (s.owner.isBuilt && !s.worker.hasCleared)
  destroying : s.owner.isDestroying = true →
    s.inside .owner = true ∨ s.once_ = .done
  owner_outside : s.owner.ranRun = true → s.inside .owner = false
  loop_ends : s.LoopEnds
  -- the mutex
  mutex_owner : s.loopMutex_ = some .owner ↔ s.owner.holdsMutex = true
  mutex_worker : s.loopMutex_ = some .worker ↔ s.worker.holdsMutex = true
  mutex_caller : ∀ n, s.loopMutex_ ≠ some (.caller n)

theorem start_handshake : start.Handshake := by
  constructor <;> simp [start, Promise.create, OnceFlag.hasFuture,
    OnceFlag.hasSetRun, OnceFlag.sawReady, WorkerPc.isStarted,
    OwnerPc.startedThread, WorkerPc.hasPublished, WorkerPc.hasFuture,
    WorkerPc.hasEnteredRun, ReadyCallback, OwnerPc.hasFuture, OwnerPc.isBuilt,
    OwnerPc.isDestroying, OwnerPc.ranRun, LoopEnds, OwnerPc.holdsMutex,
    WorkerPc.holdsMutex]

namespace Handshake

variable {s t : EventLoopThread}

/-- The worker is inside the dispatcher only after the constructor has
returned. -/
theorem built_of_entered (h : s.Handshake)
    (hentered : s.worker.hasEnteredRun = true) : s.owner.isBuilt = true := by
  apply h.begun_built
  intro hnot
  have hvalue := h.run_value
  rw [h.entered hentered, hnot] at hvalue
  exact absurd hvalue (by decide)

/-! ## Steps of `run()` -/

/-- A thread calls `run()`. -/
theorem enterRun (h : s.Handshake) (th : ThreadId)
    (hbuilt : s.owner.isBuilt = true)
    (hworker : th = .worker → s.worker.hasEnteredRun = true ∧
      s.promiseForLoop_.satisfied = true)
    (howner : th = .owner → s.owner.ranRun = false) :
    (s.enterRun th).Handshake := by
  have hmono : ∀ other, s.inside other = true →
      Function.update s.inside th true other = true := by
    intro other hother
    by_cases heq : other = th
    · simp [heq]
    · simpa [Function.update_of_ne heq] using hother
  refine { h with
    active_inside := fun other pc hpc =>
      hmono other (h.active_inside other pc hpc)
    inside_built := fun _ _ => hbuilt
    begun_calls := fun _ => Nat.succ_pos _
    inside_calls := fun _ _ => Nat.succ_pos _
    worker_inside := ?_
    destroying := fun hdestroy => (h.destroying hdestroy).imp (hmono _) id
    owner_outside := ?_ }
  · intro hinside
    by_cases heq : ThreadId.worker = th
    · exact hworker heq.symm
    · apply h.worker_inside
      simpa [EventLoopThread.enterRun, Function.update_of_ne heq] using hinside
  · intro hran
    by_cases heq : ThreadId.owner = th
    · exact absurd hran (by simp [EventLoopThread.enterRun, howner heq.symm])
    · simpa [EventLoopThread.enterRun, Function.update_of_ne heq] using
        h.owner_outside hran

/-- A thread returns from `run()` when the active call is over. -/
theorem returnRun (h : s.Handshake) (th : ThreadId) (hdone : s.once_ = .done) :
    (s.returnRun th).Handshake := by
  have hmono : ∀ other, Function.update s.inside th false other = true →
      s.inside other = true := by
    intro other hother
    by_cases heq : other = th
    · simp [heq] at hother
    · simpa [Function.update_of_ne heq] using hother
  refine { h with
    active_inside := ?_
    inside_built := fun other hother => h.inside_built other (hmono other hother)
    inside_calls := fun other hother => h.inside_calls other (hmono other hother)
    returns := fun _ => hdone
    worker_inside := fun hother => h.worker_inside (hmono _ hother)
    destroying := fun _ => Or.inr hdone
    owner_outside := ?_ }
  · intro other pc hpc
    rw [EventLoopThread.returnRun, hdone] at hpc
    cases hpc
  · intro hran
    have hout := h.owner_outside hran
    by_contra hin
    rw [Bool.not_eq_false] at hin
    rw [hmono _ hin] at hout
    cases hout

/-- The active call moves to the position `pc`, and the two promises that it
works on have the values that this position stands for. -/
theorem advance (h : s.Handshake) {th : ThreadId} {pc : RunPc}
    {loop run : Promise} (hinside : s.inside th = true)
    (hnot : s.once_ ≠ .done)
    (hloop : loop.satisfied = s.promiseForLoop_.satisfied)
    (hrun : run.retrieved = s.promiseForRun_.retrieved)
    (hkept : s.promiseForRun_.satisfied = true → run.satisfied = true)
    (hfuture : loop.retrieved = (OnceFlag.running th pc).hasFuture)
    (hvalue : run.satisfied = (OnceFlag.running th pc).hasSetRun)
    (hready : (OnceFlag.running th pc).sawReady = true →
      loop.satisfied = true) :
    Handshake { s with
      once_ := .running th pc
      promiseForLoop_ := loop
      promiseForRun_ := run } := by
  refine { h with
    loop_future := hfuture
    run_value := hvalue
    saw_ready := hready
    active_inside := ?_
    begun_built := fun _ => h.inside_built th hinside
    begun_calls := fun _ => h.inside_calls th hinside
    returns := fun hpos => absurd (h.returns hpos) hnot
    run_future := hrun.trans h.run_future
    entered := fun hentered => hkept (h.entered hentered)
    ready := ?_
    readied_eq := h.readied_eq.trans hloop.symm
    worker_inside := ?_
    destroying := ?_ }
  · rintro other pc' ⟨rfl, rfl⟩
    exact hinside
  · have hcallback := h.ready
    unfold ReadyCallback at hcallback ⊢
    simp only [hloop]
    exact hcallback
  · intro hin
    exact ⟨(h.worker_inside hin).1, hloop.trans (h.worker_inside hin).2⟩
  · intro hdestroy
    rcases h.destroying hdestroy with hin | hdone
    · exact Or.inl hin
    · exact absurd hdone hnot

theorem runStep (h : s.Handshake) {th : ThreadId}
    (hstep : s.runStep th = some t) : t.Handshake := by
  unfold EventLoopThread.runStep at hstep
  by_cases hinside : s.inside th = true
  swap
  · simp [hinside] at hstep
  rw [if_pos hinside] at hstep
  have hfuture := h.loop_future
  have hvalue := h.run_value
  cases honce : s.once_ with
  | notCalled =>
      rw [honce] at hstep hfuture hvalue
      cases hstep
      exact h.advance hinside (by simp [honce]) rfl rfl id hfuture hvalue
        (by simp [OnceFlag.sawReady])
  | done =>
      rw [honce] at hstep
      cases hstep
      exact h.returnRun th honce
  | running active pc =>
      rw [honce] at hstep hfuture hvalue
      have hnot : s.once_ ≠ .done := by simp [honce]
      by_cases hactive : active = th
      swap
      · simp [hactive] at hstep
      subst hactive
      simp only [if_true] at hstep
      cases pc with
      | getFuture =>
          have hnew : s.promiseForLoop_.retrieved = false := hfuture
          simp only [Promise.getFuture_of hnew, attempt_ok] at hstep
          cases hstep
          exact h.advance hinside hnot rfl rfl id rfl hvalue
            (by simp [OnceFlag.sawReady])
      | setValue =>
          have hnew : s.promiseForRun_.satisfied = false := hvalue
          simp only [Promise.setValue_of hnew, attempt_ok] at hstep
          cases hstep
          exact h.advance hinside hnot rfl rfl (fun _ => rfl) hfuture rfl
            (by simp [OnceFlag.sawReady])
      | waitLoop =>
          by_cases hready : s.promiseForLoop_.satisfied = true
          swap
          · simp [hready] at hstep
          rw [if_pos hready] at hstep
          cases hstep
          exact h.advance hinside hnot rfl rfl id hfuture hvalue
            (fun _ => hready)
      | leave =>
          cases hstep
          have hdone : Handshake { s with once_ := .done } := { h with
            loop_future := hfuture
            run_value := hvalue
            saw_ready := fun _ => h.saw_ready (by rw [honce]; rfl)
            active_inside := fun _ _ hpc => by cases hpc
            begun_built := fun _ => h.inside_built active hinside
            begun_calls := fun _ => h.inside_calls active hinside
            returns := fun _ => rfl
            destroying := fun _ => Or.inr rfl }
          exact hdone.returnRun active rfl

/-! ## Steps of the owner -/

/-- The owner moves to another position behind the constructor. -/
theorem moveOwner (h : s.Handshake) {pc : OwnerPc}
    {mutex : Option ThreadId} {exitRequested : Bool}
    (hbuilt : s.owner.isBuilt = true) (hbuilt' : pc.isBuilt = true)
    (hdestroying : pc.isDestroying = true →
      s.inside .owner = true ∨ s.once_ = .done)
    (houtside : pc.ranRun = true → s.inside .owner = false)
    (hends : LoopEnds { s with
      owner := pc, loopMutex_ := mutex, exitRequested := exitRequested })
    (howner : mutex = some .owner ↔ pc.holdsMutex = true)
    (hworker : mutex = some .worker ↔ s.worker.holdsMutex = true)
    (hcaller : ∀ n, mutex ≠ some (.caller n)) :
    Handshake { s with
      owner := pc
      loopMutex_ := mutex
      exitRequested := exitRequested } :=
  { h with
    begun_built := fun _ => hbuilt'
    inside_built := fun _ _ => hbuilt'
    started := by
      rw [h.started, OwnerPc.isBuilt_startedThread hbuilt,
        OwnerPc.isBuilt_startedThread hbuilt']
    pointer_future := by
      rw [h.pointer_future, OwnerPc.isBuilt_hasFuture hbuilt,
        OwnerPc.isBuilt_hasFuture hbuilt']
    loop_set := by rw [h.loop_set, hbuilt, hbuilt']
    destroying := hdestroying
    owner_outside := houtside
    loop_ends := hends
    mutex_owner := howner
    mutex_worker := hworker
    mutex_caller := hcaller }

/-- The owner moves inside the constructor, where a move may start the
worker. -/
theorem construct (h : s.Handshake) {pc : OwnerPc} {worker : WorkerPc}
    (hbefore : s.owner.hasFuture = false) (hafter : pc.hasFuture = false)
    (hworker : worker = s.worker ∨
      s.worker = .notStarted ∧ worker = .setName)
    (hstarted : worker.isStarted = pc.startedThread) :
    Handshake { s with owner := pc, worker := worker } := by
  obtain ⟨hunbuilt, -, -, hunlocked⟩ :=
    OwnerPc.unbuilt_of_not_hasFuture hbefore
  obtain ⟨hbuilt, hdestroying, hran, hmutex⟩ :=
    OwnerPc.unbuilt_of_not_hasFuture hafter
  have hview : worker.hasPublished = s.worker.hasPublished ∧
      worker.hasFuture = s.worker.hasFuture ∧
      worker.hasEnteredRun = s.worker.hasEnteredRun ∧
      worker.holdsMutex = s.worker.holdsMutex := by
    rcases hworker with rfl | ⟨hnot, rfl⟩
    · exact ⟨rfl, rfl, rfl, rfl⟩
    · rw [hnot]
      exact ⟨rfl, rfl, rfl, rfl⟩
  obtain ⟨hpublished, hfuture, hentered, hholds⟩ := hview
  refine { h with
    begun_built := fun hb => absurd (h.begun_built hb) (by simp [hunbuilt])
    inside_built := fun th hth =>
      absurd (h.inside_built th hth) (by simp [hunbuilt])
    started := hstarted
    pointer_value := h.pointer_value.trans hpublished.symm
    run_future := h.run_future.trans hfuture.symm
    entered := fun he => h.entered (hentered.symm.trans he)
    ready := ?_
    worker_inside := fun hin =>
      ⟨hentered.trans (h.worker_inside hin).1, (h.worker_inside hin).2⟩
    pointer_future := by rw [h.pointer_future, hbefore, hafter]
    loop_set := by rw [h.loop_set, hunbuilt, hbuilt, Bool.false_and,
      Bool.false_and]
    destroying := by simp [hdestroying]
    owner_outside := by simp [hran]
    loop_ends := ?_
    mutex_owner := by rw [h.mutex_owner, hunlocked, hmutex]
    mutex_worker := by rw [h.mutex_worker, hholds] }
  · rcases hworker with rfl | ⟨hnot, rfl⟩
    · exact h.ready
    · have hready := h.ready
      simp only [ReadyCallback, hnot] at hready
      exact hready
  · unfold LoopEnds
    cases pc with
    | constructing k => trivial
    | getFuture => trivial
    | _ => exact absurd hafter (by simp [OwnerPc.hasFuture])

/-- The owner constructs its next member.  `thread_` starts the worker. -/
theorem constructMember (h : s.Handshake) {k : ℕ}
    (hpc : s.owner = .constructing k) :
    Handshake { s with
      owner := if k + 1 < Member.declared.length
        then .constructing (k + 1) else .getFuture
      worker := if Member.declared[k]? = some .thread_
        then .setName else s.worker } := by
  have hstarted := h.started
  rw [hpc] at hstarted
  have hafter : (if k + 1 < Member.declared.length
      then OwnerPc.constructing (k + 1) else .getFuture).hasFuture =
        false := by
    split
    · rfl
    · rfl
  refine h.construct (by rw [hpc]; rfl) hafter ?_ ?_
  · by_cases hthread : Member.declared[k]? = some .thread_
    · have hk : k = 2 := Member.declared_thread.mp hthread
      rw [if_pos hthread]
      exact Or.inr ⟨WorkerPc.isStarted_eq_false.mp (by
        rw [hstarted, hk]
        rfl), rfl⟩
    · exact Or.inl (if_neg hthread)
  · by_cases hthread : k = 2
    · subst hthread
      rfl
    · rw [if_neg (mt Member.declared_thread.mp hthread), hstarted]
      have hlater : 2 < k ↔ 2 < k + 1 := by omega
      split
      · simp only [OwnerPc.startedThread, hlater]
      · have hlast : 2 < k := by
          have : Member.declared.length = 8 := rfl
          omega
        simp [OwnerPc.startedThread, hlast]

/-- The owner takes the future of the pointer, which nobody else does. -/
theorem takeFuture (h : s.Handshake) (hpc : s.owner = .getFuture)
    (houtside : s.inside .owner = false) :
    Handshake (s.attempt s.promiseForLoopPointer_.getFuture fun p =>
      { s with promiseForLoopPointer_ := p, owner := .waitPointer }) := by
  have hnew : s.promiseForLoopPointer_.retrieved = false := by
    rw [h.pointer_future, hpc]
    rfl
  have hstarted := h.started
  have hset := h.loop_set
  have hmutex := h.mutex_owner
  rw [hpc] at hstarted hset hmutex
  rw [Promise.getFuture_of hnew, attempt_ok]
  exact { h with
    begun_built := fun hbegun =>
      absurd (h.begun_built hbegun) (by simp [hpc, OwnerPc.isBuilt])
    inside_built := fun th hth =>
      absurd (h.inside_built th hth) (by simp [hpc, OwnerPc.isBuilt])
    started := hstarted
    pointer_future := rfl
    loop_set := hset
    destroying := by simp [OwnerPc.isDestroying]
    owner_outside := fun _ => houtside
    loop_ends := trivial
    mutex_owner := hmutex }

/-- The constructor ends with the pointer.  The worker has not cleared it, since
nobody has called `run()`. -/
theorem receivePointer (h : s.Handshake) (hpc : s.owner = .waitPointer)
    (houtside : s.inside .owner = false) :
    Handshake { s with loop_ := true, owner := .alive } := by
  have hstarted := h.started
  have hfuture := h.pointer_future
  have hmutex := h.mutex_owner
  rw [hpc] at hstarted hfuture hmutex
  have hcleared : s.worker.hasCleared = false := by
    by_contra hcleared
    have hbuilt := h.built_of_entered
      (WorkerPc.hasCleared_hasEnteredRun (by simpa using hcleared))
    rw [hpc] at hbuilt
    exact absurd hbuilt (by decide)
  exact { h with
    begun_built := fun _ => rfl
    inside_built := fun _ _ => rfl
    started := hstarted
    pointer_future := hfuture
    loop_set := by simp [hcleared, OwnerPc.isBuilt]
    destroying := by simp [OwnerPc.isDestroying]
    owner_outside := fun _ => houtside
    loop_ends := trivial
    mutex_owner := hmutex }

theorem ownerStep (h : s.Handshake) (hstep : s.ownerStep = some t) :
    t.Handshake := by
  unfold EventLoopThread.ownerStep at hstep
  by_cases hinside : s.inside .owner = true
  · simp [hinside] at hstep
  have houtside : s.inside .owner = false := by simpa using hinside
  rw [if_neg hinside] at hstep
  have hdestroying := h.destroying
  have hends := h.loop_ends
  have hmutex := h.mutex_owner
  have hset := h.loop_set
  cases hpc : s.owner with
  | constructing k =>
      simp only [hpc, Option.some.injEq] at hstep
      exact hstep ▸ h.constructMember hpc
  | getFuture =>
      simp only [hpc, Option.some.injEq] at hstep
      exact hstep ▸ h.takeFuture hpc houtside
  | waitPointer =>
      simp only [hpc] at hstep
      by_cases hpointer : s.promiseForLoopPointer_.satisfied = true
      swap
      · simp [hpointer] at hstep
      rw [if_pos hpointer] at hstep
      cases hstep
      exact h.receivePointer hpc houtside
  | alive => simp [hpc] at hstep
  | lock =>
      simp only [hpc] at hstep hdestroying
      by_cases hfree : s.loopMutex_ = none
      swap
      · simp [hfree] at hstep
      rw [if_pos hfree] at hstep
      cases hstep
      have hworker := h.mutex_worker
      rw [hfree] at hworker
      exact h.moveOwner (by rw [hpc]; rfl) rfl hdestroying (fun _ => houtside)
        trivial (by simp [OwnerPc.holdsMutex]) (by simpa using hworker)
        (by simp)
  | copy =>
      simp only [hpc] at hstep hdestroying hmutex hset
      cases hstep
      refine h.moveOwner (by rw [hpc]; rfl) rfl hdestroying (fun _ => houtside)
        ?_ hmutex h.mutex_worker h.mutex_caller
      simp only [LoopEnds, hset, OwnerPc.isBuilt, Bool.true_and]
      cases s.worker.hasCleared with
      | false => exact Or.inl rfl
      | true => exact Or.inr rfl
  | unlock loop =>
      simp only [hpc] at hstep hdestroying hmutex
      cases hstep
      have hworker := h.mutex_worker
      rw [hmutex.mpr rfl] at hworker
      refine h.moveOwner (by rw [hpc]; rfl) rfl hdestroying (fun _ => houtside)
        ?_ (by simp [OwnerPc.holdsMutex]) (by simpa using hworker) (by simp)
      simpa only [LoopEnds, hpc] using hends
  | exitLoop loop =>
      simp only [hpc] at hstep hdestroying hmutex
      cases hstep
      refine h.moveOwner (by rw [hpc]; rfl) rfl hdestroying (fun _ => houtside)
        ?_ hmutex h.mutex_worker h.mutex_caller
      simp only [LoopEnds, hpc] at hends ⊢
      rcases hends with hloop | hcleared
      · exact Or.inl (by simp [hloop])
      · exact Or.inr hcleared
  | join =>
      simp only [hpc] at hstep hdestroying hmutex
      by_cases hworker : s.worker = .done
      swap
      · simp [hworker] at hstep
      rw [if_pos hworker] at hstep
      cases hstep
      exact h.moveOwner (by rw [hpc]; rfl) rfl hdestroying (fun _ => houtside)
        hworker hmutex h.mutex_worker h.mutex_caller
  | destroyed => simp [hpc] at hstep

/-- The owner runs the destructor. -/
theorem destroy (h : s.Handshake) (hstep : s.destroy = some t) :
    t.Handshake := by
  unfold EventLoopThread.destroy at hstep
  by_cases halive : s.owner = .alive ∧ s.inside .owner = false
  swap
  · simp [halive] at hstep
  rw [if_pos halive] at hstep
  cases hstep
  have hbuilt : s.owner.isBuilt = true := by
    rw [halive.1]
    rfl
  have hcall : (s.enterRun .owner).Handshake :=
    h.enterRun .owner hbuilt (fun heq => by cases heq)
      (fun _ => by rw [halive.1]; rfl)
  have hmutex := h.mutex_owner
  rw [halive.1] at hmutex
  exact hcall.moveOwner hbuilt rfl
    (fun _ => Or.inl (by simp [EventLoopThread.enterRun]))
    (fun hran => absurd hran (by decide)) trivial hmutex h.mutex_worker
    h.mutex_caller

/-! ## Steps of the worker -/

/-- The worker moves, and the values that its positions stand for are those of
the new position. -/
theorem moveWorker (h : s.Handshake) {pc : WorkerPc} {pointer run : Promise}
    {posts : List PostCb} {mutex : Option ThreadId}
    (hstarted : s.worker.isStarted = true) (hstarted' : pc.isStarted = true)
    (hpointer : pointer.retrieved = s.promiseForLoopPointer_.retrieved)
    (hpublished : pointer.satisfied = pc.hasPublished)
    (hrun : run.satisfied = s.promiseForRun_.satisfied)
    (hfuture : run.retrieved = pc.hasFuture)
    (hentered : pc.hasEnteredRun = true → s.promiseForRun_.satisfied = true)
    (hinside : s.inside .worker = true → pc.hasEnteredRun = true)
    (hcleared : pc.hasCleared = s.worker.hasCleared)
    (hunfinished : s.worker ≠ .done)
    (howner : mutex = some .owner ↔ s.owner.holdsMutex = true)
    (hworker : mutex = some .worker ↔ pc.holdsMutex = true)
    (hcaller : ∀ n, mutex ≠ some (.caller n))
    (hready : ReadyCallback { s with
      worker := pc, postCallbacks := posts }) :
    Handshake { s with
      worker := pc
      promiseForLoopPointer_ := pointer
      promiseForRun_ := run
      postCallbacks := posts
      loopMutex_ := mutex } := by
  refine { h with
    run_value := hrun.trans h.run_value
    started := by rw [hstarted', ← h.started, hstarted]
    pointer_value := hpublished
    run_future := hfuture
    entered := fun he => hrun.trans (hentered he)
    ready := hready
    worker_inside := fun hin => ⟨hinside hin, (h.worker_inside hin).2⟩
    pointer_future := hpointer.trans h.pointer_future
    loop_set := by rw [h.loop_set, hcleared]
    loop_ends := ?_
    mutex_owner := howner
    mutex_worker := hworker
    mutex_caller := hcaller }
  have hends := h.loop_ends
  unfold LoopEnds at hends ⊢
  cases hpc : s.owner with
  | destroyed =>
      rw [hpc] at hends
      exact absurd hends hunfinished
  | unlock loop =>
      simpa only [hpc, hcleared] using hends
  | exitLoop loop =>
      simpa only [hpc, hcleared] using hends
  | join =>
      simpa only [hpc, hcleared] using hends
  | _ => trivial

/-- The worker moves outside `run()`, and does not take or release the
mutex. -/
theorem advanceWorker (h : s.Handshake) {old pc : WorkerPc}
    {pointer run : Promise} {posts : List PostCb} (hpc : s.worker = old)
    (hinside : ¬ s.inside .worker = true)
    (hpointer : pointer.retrieved = s.promiseForLoopPointer_.retrieved)
    (hpublished : pointer.satisfied = pc.hasPublished)
    (hrun : run.satisfied = s.promiseForRun_.satisfied)
    (hfuture : run.retrieved = pc.hasFuture)
    (hentered : pc.hasEnteredRun = true → s.promiseForRun_.satisfied = true)
    (hstarted : old.isStarted = true ∧ pc.isStarted = true)
    (hkept : pc.hasCleared = old.hasCleared ∧
      pc.holdsMutex = old.holdsMutex)
    (hunfinished : old ≠ .done)
    (hready : ReadyCallback { s with
      worker := pc, postCallbacks := posts }) :
    Handshake { s with
      worker := pc
      promiseForLoopPointer_ := pointer
      promiseForRun_ := run
      postCallbacks := posts } := by
  subst hpc
  have hworker : s.loopMutex_ = some .worker ↔ pc.holdsMutex = true := by
    rw [hkept.2, h.mutex_worker]
  exact h.moveWorker hstarted.1 hstarted.2 hpointer hpublished hrun hfuture
    hentered (fun hin => absurd hin hinside) hkept.1 hunfinished h.mutex_owner
    hworker h.mutex_caller hready

/-- The worker moves inside `Dispatcher::run`. -/
theorem moveInRun (h : s.Handshake) {pc : WorkerPc} {posts : List PostCb}
    (hbefore : s.worker.inRun = true) (hafter : pc.inRun = true)
    (hready : ReadyCallback { s with
      worker := pc, postCallbacks := posts }) :
    Handshake { s with worker := pc, postCallbacks := posts } := by
  obtain ⟨hstarted, hpublished, hfuture, hentered, hholds, hcleared,
      hunfinished⟩ :=
    WorkerPc.inRun_view hbefore
  obtain ⟨hstarted', hpublished', hfuture', hentered', hholds', hcleared', -⟩ :=
    WorkerPc.inRun_view hafter
  exact h.moveWorker hstarted hstarted' rfl
    (by rw [h.pointer_value, hpublished, hpublished']) rfl
    (by rw [h.run_future, hfuture, hfuture']) (fun _ => h.entered hentered)
    (fun _ => hentered') (hcleared'.trans hcleared.symm) hunfinished
    h.mutex_owner (by rw [h.mutex_worker, hholds, hholds']) h.mutex_caller
    hready

theorem endBatch (h : s.Handshake) (hpc : s.worker = .callbacks []) :
    Handshake { s with worker := .loop } := by
  have hready := h.ready
  simp only [ReadyCallback, hpc] at hready
  obtain ⟨hposts, ⟨-, rest, hrest, -⟩ | ⟨hset, -⟩⟩ := hready
  · cases hrest
  · exact h.moveInRun (by rw [hpc]; rfl) rfl ⟨hposts, hset⟩

/-- A callback behind the readiness callback runs after it. -/
theorem popCallback (h : s.Handshake) {cb : PostCb} {rest : List PostCb}
    (hpc : s.worker = .callbacks (cb :: rest)) (hcb : cb ≠ .ready) :
    s.promiseForLoop_.satisfied = true ∧
      Handshake { s with worker := .callbacks rest } := by
  have hready := h.ready
  simp only [ReadyCallback, hpc] at hready
  obtain ⟨hposts, ⟨-, tail, htail, -⟩ | ⟨hset, hnone⟩⟩ := hready
  · exact absurd (List.cons.inj htail).1 hcb
  · refine ⟨hset, h.moveInRun (by rw [hpc]; rfl) rfl ⟨hposts, Or.inr ⟨hset, ?_⟩⟩⟩
    exact fun hmem => hnone (List.mem_cons_of_mem _ hmem)

theorem runCalling (h : s.Handshake) {rest : List PostCb}
    (hpc : s.worker = .callbacks (.callsRun :: rest)) :
    Handshake { s.enterRun .worker with worker := .callbacks rest } := by
  obtain ⟨hset, hnext⟩ := h.popCallback hpc (by simp)
  have hbuilt := h.built_of_entered (by rw [hpc]; rfl)
  exact hnext.enterRun .worker hbuilt (fun _ => ⟨rfl, hset⟩)
    (fun heq => by cases heq)

theorem runReady (h : s.Handshake) {rest : List PostCb}
    (hpc : s.worker = .callbacks (.ready :: rest))
    (hinside : ¬ s.inside .worker = true) :
    Handshake (s.attempt s.promiseForLoop_.setValue fun p =>
      { s with
        promiseForLoop_ := p, readied := true, worker := .callbacks rest }) := by
  have hready := h.ready
  simp only [ReadyCallback, hpc] at hready
  obtain ⟨hposts, ⟨hnew, tail, htail, hnone⟩ | ⟨-, hnone⟩⟩ := hready
  swap
  · exact absurd (List.mem_cons_self) hnone
  obtain ⟨-, rfl⟩ := List.cons.inj htail
  rw [Promise.setValue_of hnew, attempt_ok]
  have hends : LoopEnds { s with worker := .callbacks rest } := by
    have hold := h.loop_ends
    unfold LoopEnds at hold ⊢
    simp only [hpc, WorkerPc.hasCleared] at hold ⊢
    split
    all_goals simp_all
  exact { h with
    saw_ready := fun _ => rfl
    started := by rw [← h.started, hpc]; rfl
    pointer_value := by rw [h.pointer_value, hpc]; rfl
    run_future := by rw [h.run_future, hpc]; rfl
    entered := fun _ => h.entered (by rw [hpc]; rfl)
    ready := ⟨hposts, Or.inr ⟨rfl, hnone⟩⟩
    readied_eq := rfl
    worker_inside := fun hin => absurd hin hinside
    loop_set := by rw [h.loop_set, hpc]; rfl
    loop_ends := hends
    mutex_worker := by rw [h.mutex_worker, hpc]; rfl }

/-- The libevent loop runs the posted callbacks. -/
theorem runPostCallbacks (h : s.Handshake)
    (hstep : s.runPostCallbacks = some t) : t.Handshake := by
  unfold EventLoopThread.runPostCallbacks at hstep
  by_cases hloop : s.worker = .loop ∧ s.inside .worker = false
  swap
  · simp [hloop] at hstep
  rw [if_pos hloop] at hstep
  cases hstep
  have hready := h.ready
  simp only [ReadyCallback, hloop.1] at hready
  exact h.moveInRun (by rw [hloop.1]; rfl) rfl
    ⟨by simp, Or.inr ⟨hready.2, hready.1⟩⟩

/-- The worker leaves the loop for good. -/
theorem clearLoop (h : s.Handshake) (hpc : s.worker = .exitLoop)
    (hinside : ¬ s.inside .worker = true) :
    Handshake { s with
      exitRequested := true, loop_ := false, worker := .unlock } := by
  have hpointer := h.pointer_value
  have hfuture := h.run_future
  have hentered := h.entered
  have hmutex := h.mutex_worker
  have hready := h.ready
  simp only [hpc] at hpointer hfuture hmutex hentered
  simp only [ReadyCallback, hpc] at hready
  have hends : LoopEnds { s with
      loop_ := false, exitRequested := true, worker := .unlock } := by
    have hold := h.loop_ends
    unfold LoopEnds at hold ⊢
    cases howner : s.owner with
    | destroyed =>
        rw [howner, hpc] at hold
        cases hold
    | unlock loop => exact Or.inr rfl
    | exitLoop loop => exact Or.inr rfl
    | join => exact Or.inr rfl
    | _ => trivial
  exact { h with
    started := by rw [← h.started, hpc]; rfl
    pointer_value := hpointer
    run_future := hfuture
    entered := fun _ => hentered rfl
    ready := hready
    worker_inside := fun hin => absurd hin hinside
    loop_set := by simp [WorkerPc.hasCleared]
    loop_ends := hends
    mutex_worker := hmutex }

/-- Every step of the worker that does not use a member too early. -/
theorem workerStep (h : s.Handshake) (hstep : s.workerStep = some t)
    (huse : s.UsesConstructed) : t.Handshake := by
  unfold EventLoopThread.workerStep at hstep
  by_cases hinside : s.inside .worker = true
  · simp [hinside] at hstep
  rw [if_neg hinside] at hstep
  have hpointer := h.pointer_value
  have hfuture := h.run_future
  have hentered := h.entered
  have hmutex := h.mutex_worker
  have hready := h.ready
  cases hpc : s.worker with
  | notStarted => simp [hpc] at hstep
  | setName =>
      simp only [hpc, Option.some.injEq] at hstep hpointer hfuture
      subst hstep
      rw [use_of (huse _ (by rw [hpc]; rfl))]
      simp only [ReadyCallback, hpc] at hready
      exact h.advanceWorker hpc hinside rfl hpointer rfl hfuture
        (fun he => absurd he (by decide)) ⟨rfl, rfl⟩ ⟨rfl, rfl⟩ (by simp) hready
  | makeLoop =>
      simp only [hpc, Option.some.injEq] at hstep hpointer hfuture
      subst hstep
      simp only [ReadyCallback, hpc] at hready
      exact h.advanceWorker hpc hinside rfl hpointer rfl hfuture
        (fun he => absurd he (by decide)) ⟨rfl, rfl⟩ ⟨rfl, rfl⟩ (by simp) hready
  | post =>
      simp only [hpc, Option.some.injEq] at hstep hpointer hfuture
      subst hstep
      simp only [ReadyCallback, hpc] at hready
      exact h.advanceWorker hpc hinside rfl hpointer rfl hfuture
        (fun he => absurd he (by decide)) ⟨rfl, rfl⟩ ⟨rfl, rfl⟩ (by simp)
        ⟨hready.1, [], by simp [hready.2], by simp⟩
  | setPointer =>
      have hnew : s.promiseForLoopPointer_.satisfied = false := by
        rw [hpointer, hpc]
        rfl
      simp only [hpc, Option.some.injEq, Promise.setValue_of hnew, attempt_ok]
        at hstep hfuture
      subst hstep
      rw [use_of (huse _ (by rw [hpc]; rfl))]
      simp only [ReadyCallback, hpc] at hready
      exact h.advanceWorker hpc hinside rfl rfl rfl hfuture
        (fun he => absurd he (by decide)) ⟨rfl, rfl⟩ ⟨rfl, rfl⟩ (by simp) hready
  | getFuture =>
      have hnew : s.promiseForRun_.retrieved = false := by
        rw [hfuture, hpc]
        rfl
      simp only [hpc, Option.some.injEq, Promise.getFuture_of hnew, attempt_ok]
        at hstep hpointer
      subst hstep
      rw [use_of (huse _ (by rw [hpc]; rfl))]
      simp only [ReadyCallback, hpc] at hready
      exact h.advanceWorker hpc hinside rfl hpointer rfl rfl
        (fun he => absurd he (by decide)) ⟨rfl, rfl⟩ ⟨rfl, rfl⟩ (by simp) hready
  | waitRun =>
      simp only [hpc] at hstep hpointer hfuture
      by_cases hset : s.promiseForRun_.satisfied = true
      swap
      · simp [hset] at hstep
      rw [if_pos hset] at hstep
      cases hstep
      simp only [ReadyCallback, hpc] at hready
      exact h.advanceWorker hpc hinside rfl hpointer rfl hfuture
        (fun _ => hset) ⟨rfl, rfl⟩ ⟨rfl, rfl⟩ (by simp) hready
  | flush =>
      simp only [hpc, Option.some.injEq] at hstep
      subst hstep
      simp only [ReadyCallback, hpc] at hready
      exact h.moveInRun (by rw [hpc]; rfl) rfl ⟨by simp, Or.inl hready⟩
  | callbacks batch =>
      cases batch with
      | nil =>
          simp only [hpc, Option.some.injEq] at hstep
          subst hstep
          exact h.endBatch hpc
      | cons cb rest =>
          cases cb with
          | ready =>
              simp only [hpc, Option.some.injEq] at hstep
              subst hstep
              rw [use_of (huse _ (by rw [hpc]; rfl))]
              exact h.runReady hpc hinside
          | callsRun =>
              simp only [hpc, Option.some.injEq] at hstep
              subst hstep
              exact h.runCalling hpc
          | other =>
              simp only [hpc, Option.some.injEq] at hstep
              subst hstep
              exact (h.popCallback hpc (by simp)).2
  | loop =>
      simp only [hpc] at hstep hpointer hfuture hentered
      by_cases hexit : s.exitRequested = true
      swap
      · simp [hexit] at hstep
      rw [if_pos hexit] at hstep
      cases hstep
      simp only [ReadyCallback, hpc] at hready
      exact h.advanceWorker hpc hinside rfl hpointer rfl hfuture
        (fun _ => hentered rfl) ⟨rfl, rfl⟩ ⟨rfl, rfl⟩ (by simp) hready
  | lock =>
      simp only [hpc] at hstep hpointer hfuture hmutex hentered
      by_cases hfree : s.loopMutex_ = none
      swap
      · simp [hfree] at hstep
      rw [if_pos hfree, Option.some.injEq] at hstep
      subst hstep
      rw [use_of (huse _ (by rw [hpc]; rfl))]
      have howner := h.mutex_owner
      rw [hfree] at howner
      simp only [ReadyCallback, hpc] at hready
      exact h.moveWorker (by rw [hpc]; rfl) rfl rfl hpointer rfl hfuture
        (fun _ => hentered rfl) (fun hin => absurd hin hinside)
        (by rw [hpc]; rfl) (by simp [hpc]) (by simpa using howner)
        (by simp [WorkerPc.holdsMutex]) (by simp) hready
  | exitLoop =>
      have hloop : s.loop_ = true := by
        rw [h.loop_set, h.built_of_entered (by rw [hpc]; rfl), hpc]
        rfl
      simp only [hpc, hloop, if_true, Option.some.injEq] at hstep
      subst hstep
      rw [use_of (huse _ (by rw [hpc]; rfl))]
      exact h.clearLoop hpc hinside
  | unlock =>
      simp only [hpc, Option.some.injEq] at hstep hpointer hfuture hmutex hentered
      subst hstep
      rw [use_of (huse _ (by rw [hpc]; rfl))]
      have howner := h.mutex_owner
      rw [hmutex.mpr rfl] at howner
      simp only [ReadyCallback, hpc] at hready
      exact h.moveWorker (by rw [hpc]; rfl) rfl rfl hpointer rfl hfuture
        (fun _ => hentered rfl) (fun hin => absurd hin hinside)
        (by rw [hpc]; rfl) (by simp [hpc]) (by simpa using howner)
        (by simp [WorkerPc.holdsMutex]) (by simp) hready
  | done => simp [hpc] at hstep

/-! ## Steps of other threads -/

theorem callRun (h : s.Handshake) {th : ThreadId}
    (hstep : s.callRun th = some t) : t.Handshake := by
  unfold EventLoopThread.callRun at hstep
  split at hstep
  next hcall =>
    obtain ⟨hexists, -, hworker, howner⟩ := hcall
    cases hstep
    refine h.enterRun th ?_ (fun heq => absurd heq hworker) ?_
    · unfold Exists at hexists
      cases hpc : s.owner with
      | constructing k => simp [hpc] at hexists
      | getFuture => simp [hpc] at hexists
      | waitPointer => simp [hpc] at hexists
      | _ => rfl
    · intro heq
      rw [howner heq]
      rfl
  next => cases hstep

theorem post (h : s.Handshake) {cb : PostCb} (hstep : s.post cb = some t) :
    t.Handshake := by
  unfold EventLoopThread.post at hstep
  split at hstep
  next hpost =>
    obtain ⟨hpointer, hcb⟩ := hpost
    cases hstep
    rw [h.pointer_value] at hpointer
    have hcb' : PostCb.ready ≠ cb := hcb.symm
    have hready := h.ready
    refine { h with ready := ?_ }
    unfold ReadyCallback at hready ⊢
    cases hpc : s.worker with
    | getFuture | waitRun | flush =>
        simp only [hpc] at hready ⊢
        obtain ⟨hnew, rest, hposts, hnone⟩ := hready
        exact ⟨hnew, rest ++ [cb], by simp [hposts], by simp [hnone, hcb']⟩
    | callbacks batch | loop | lock | exitLoop | unlock | done =>
        simp only [hpc] at hready ⊢
        exact ⟨by simp [hready.1, hcb'], hready.2⟩
    | _ => simp [hpc, WorkerPc.hasPublished] at hpointer
  next => cases hstep

theorem exitLoop (h : s.Handshake) (hstep : s.exitLoop = some t) :
    t.Handshake := by
  unfold EventLoopThread.exitLoop at hstep
  split at hstep
  · cases hstep
    refine { h with ready := h.ready, loop_ends := ?_ }
    have hends := h.loop_ends
    unfold LoopEnds at hends ⊢
    cases hpc : s.owner with
    | join => exact Or.inl rfl
    | unlock loop | exitLoop loop | destroyed =>
        simpa only [hpc] using hends
    | _ => trivial
  · cases hstep

/-- One step of any thread. -/
theorem step (h : s.Handshake) {a : Action} (hstep : s.step a = some t)
    (huse : a = .worker → s.UsesConstructed) : t.Handshake := by
  simp only [EventLoopThread.step, h.no_fault, if_true] at hstep
  cases a with
  | owner => exact h.ownerStep hstep
  | destroy => exact h.destroy hstep
  | worker => exact h.workerStep hstep (huse rfl)
  | runPostCallbacks => exact h.runPostCallbacks hstep
  | run th => exact h.runStep hstep
  | callRun th => exact h.callRun hstep
  | post cb => exact h.post hstep
  | exitLoop => exact h.exitLoop hstep

end Handshake

end EventLoopThread

end EventServer.Thread
