import EventServer.Thread.ThreadPool

/-!
# The thread pool is a bounded queue

The two condition variables of the pool lose no wake-up.  As long as the pool
runs, a worker that waits without having been notified leaves no more tasks in
the queue than there are notified workers on their way to them; in the same
way, a waiting producer leaves no free place that nobody is on the way to.
-/

namespace EventServer.Thread

open EventServer.Support

namespace ThreadPool

variable {α : Type}

/-- No wake-up of a worker is lost. -/
def WorkersAwake (s : ThreadPool α) : Prop :=
  s.notEmpty_.waiting ≠ [] →
    s.queue_.length ≤ s.notEmpty_.notified.length

/-- No wake-up of a producer is lost. -/
def ProducersAwake (s : ThreadPool α) : Prop :=
  s.notFull_.waiting ≠ [] →
    s.maxQueueSize_ ≤ s.queue_.length + s.notFull_.notified.length

/-- What holds of the pool whenever `mutex_` is free or has just been taken,
whoever takes it. -/
structure Consistent (s : ThreadPool α) : Prop where
  no_fault : s.fault = none
  bounded : 0 < s.maxQueueSize_ → s.queue_.length ≤ s.maxQueueSize_
  history : s.enqueued = s.dequeued ++ s.queue_
  nested : ∀ i, (s.calls (.worker i)).isSome = true →
    (s.workers i).isExecuting = true
  stopped : s.running_ = false →
    s.notEmpty_.waiting = [] ∧ s.notFull_.waiting = []
  stopPc_eq : s.stopPc = .notCalled ↔ s.running_ = true
  at_stop : s.running_ = false → s.enqueuedAtStop = some s.enqueued

/-- The invariant of the pool. -/
structure Sound (s : ThreadPool α) : Prop extends Consistent s where
  workers_blocked : ∀ i,
    i ∈ s.notEmpty_.blocked ↔ (s.workers i).isWaiting = true
  callers_blocked : ∀ t, t ∈ s.notFull_.blocked ↔ (s.calls t).isSome = true
  workers_awake : s.running_ = true → s.WorkersAwake
  producers_awake : s.running_ = true → s.ProducersAwake

theorem started_sound (numThreads maxQueueSize : ℕ) :
    (started numThreads maxQueueSize : ThreadPool α).Sound := by
  constructor
  · constructor
    all_goals simp [started]
  all_goals simp [started, Condition.create, Condition.blocked,
    PoolWorkerPc.isWaiting, WorkersAwake, ProducersAwake]

/-! ## `run` -/

/-- The thread `t` has taken `mutex_` in `run`. -/
structure InRun (s : ThreadPool α) (t : PoolThread) : Prop
    extends Consistent s where
  workers_blocked : ∀ i,
    i ∈ s.notEmpty_.blocked ↔ (s.workers i).isWaiting = true
  callers_blocked : ∀ x,
    x ∈ s.notFull_.blocked ↔ (s.calls x).isSome = true ∧ x ≠ t
  caller : ∀ i, t = .worker i → (s.workers i).isExecuting = true
  workers_awake : s.running_ = true → s.WorkersAwake
  producers_awake : s.running_ = true → s.notFull_.waiting ≠ [] →
    s.maxQueueSize_ ≤ s.queue_.length + s.notFull_.notified.length + 1

section Run

variable {s next : ThreadPool α} {t : PoolThread} {task : α} {who : ℕ}

theorem setCall_isSome {x : PoolThread} {call : Option α} :
    ((s.setCall t call).calls x).isSome = true ↔
      (x = t ∧ call.isSome = true) ∨ (x ≠ t ∧ (s.calls x).isSome = true) := by
  by_cases hx : x = t
  · subst hx
    simp [setCall]
  · simp [setCall, hx]

theorem InRun.nested_setCall (h : s.InRun t) (call : Option α) (i : ℕ)
    (hcall : ((s.setCall t call).calls (.worker i)).isSome = true) :
    (s.workers i).isExecuting = true := by
  rcases setCall_isSome.mp hcall with ⟨heq, -⟩ | ⟨-, hsome⟩
  · exact h.caller i heq.symm
  · exact h.nested i hsome

theorem InRun.callers_blocked_of (h : s.InRun t) (x : PoolThread) :
    x ∈ s.notFull_.blocked ↔ ((s.setCall t none).calls x).isSome = true := by
  rw [h.callers_blocked, setCall_isSome]
  simp only [Option.isSome_none]
  tauto

/-- The queue is full, and the thread waits. -/
theorem InRun.blocks (h : s.InRun t) (hfull : s.isFull)
    (hrunning : s.running_ = true) {c : Condition PoolThread}
    (hc : s.notFull_.wait t = some c) :
    Sound { s.setCall t (some task) with notFull_ := c } := by
  obtain ⟨-, -, hblocked⟩ := Condition.wait_spec hc
  exact { h.toConsistent with
    nested := h.nested_setCall (some task)
    stopped := fun hstop => absurd (hrunning.symm.trans hstop) (by decide)
    workers_blocked := h.workers_blocked
    callers_blocked := by
      intro x
      rw [hblocked, h.callers_blocked, setCall_isSome]
      simp only [Option.isSome_some]
      tauto
    workers_awake := h.workers_awake
    producers_awake := fun _ _ => le_trans hfull.2 (Nat.le_add_right _ _) }

/-- The pool has been stopped, and the task is dropped. -/
theorem InRun.returns (h : s.InRun t) (hrunning : ¬ s.running_ = true) :
    (s.setCall t none).Sound :=
  { h.toConsistent with
    nested := h.nested_setCall none
    workers_blocked := h.workers_blocked
    callers_blocked := h.callers_blocked_of
    workers_awake := fun hrun => absurd hrun hrunning
    producers_awake := fun hrun => absurd hrun hrunning }

/-- The task is queued, and a worker that waits is notified. -/
theorem InRun.enqueues (h : s.InRun t) (hnotFull : ¬ s.isFull)
    (hrunning : s.running_ = true) {c : Condition ℕ}
    (hc : s.notEmpty_.notify who = some c) :
    Sound { s.setCall t none with
      queue_ := s.queue_ ++ [task]
      enqueued := s.enqueued ++ [task]
      notEmpty_ := c } := by
  obtain ⟨hblocked, hsignal⟩ := Condition.notify_spec hc
  have hlength : (s.queue_ ++ [task]).length = s.queue_.length + 1 := by simp
  exact {
    no_fault := h.no_fault
    bounded := by
      intro hpos
      have hroom : ¬ s.maxQueueSize_ ≤ s.queue_.length :=
        fun hle => hnotFull ⟨hpos, hle⟩
      change (s.queue_ ++ [task]).length ≤ s.maxQueueSize_
      omega
    history := by
      change s.enqueued ++ [task] = s.dequeued ++ (s.queue_ ++ [task])
      rw [h.history, List.append_assoc]
    nested := h.nested_setCall none
    stopped := fun hstop => absurd (hrunning.symm.trans hstop) (by decide)
    stopPc_eq := h.stopPc_eq
    at_stop := fun hstop => absurd (hrunning.symm.trans hstop) (by decide)
    workers_blocked := fun i => (hblocked i).trans (h.workers_blocked i)
    callers_blocked := h.callers_blocked_of
    workers_awake := by
      intro _ hwaiting
      change (s.queue_ ++ [task]).length ≤ c.notified.length
      rcases hsignal with ⟨hnone, rfl⟩ | ⟨hsome, hnotified⟩
      · exact absurd hnone hwaiting
      · have := h.workers_awake hrunning hsome
        omega
    producers_awake := by
      intro _ hwaiting
      have := h.producers_awake hrunning hwaiting
      change s.maxQueueSize_ ≤
        (s.queue_ ++ [task]).length + s.notFull_.notified.length
      omega }

theorem InRun.runLocked (h : s.InRun t)
    (hstep : s.runLocked t task who = some next) : next.Sound := by
  unfold ThreadPool.runLocked at hstep
  by_cases hwait : s.isFull ∧ s.running_ = true
  · rw [if_pos hwait] at hstep
    obtain ⟨c, hc, rfl⟩ := Option.map_eq_some_iff.mp hstep
    exact h.blocks hwait.1 hwait.2 hc
  rw [if_neg hwait] at hstep
  by_cases hrunning : s.running_ = true
  · have hnotFull : ¬ s.isFull := fun hfull => hwait ⟨hfull, hrunning⟩
    rw [if_neg (not_not_intro hrunning), if_neg hnotFull] at hstep
    obtain ⟨c, hc, rfl⟩ := Option.map_eq_some_iff.mp hstep
    exact h.enqueues hnotFull hrunning hc
  · rw [if_pos hrunning] at hstep
    cases hstep
    exact h.returns hrunning

theorem Sound.run (h : s.Sound) (hstep : s.run t task who = some next) :
    next.Sound := by
  unfold ThreadPool.run at hstep
  by_cases hcan : s.canCall t = true
  swap
  · simp [hcan] at hstep
  rw [if_pos hcan] at hstep
  obtain ⟨hcall, hcaller⟩ := (Bool.and_eq_true _ _).mp hcan
  by_cases hempty : s.numThreads = 0
  · rw [if_pos hempty] at hstep
    cases hstep
    exact h
  rw [if_neg hempty] at hstep
  refine InRun.runLocked (s := s) (t := t) { h.toConsistent with
    workers_blocked := h.workers_blocked
    callers_blocked := ?_
    caller := ?_
    workers_awake := h.workers_awake
    producers_awake := fun hrun hwaiting =>
      Nat.le_succ_of_le (h.producers_awake hrun hwaiting) } hstep
  · intro x
    rw [h.callers_blocked]
    refine (and_iff_left_of_imp ?_).symm
    rintro hsome rfl
    rw [Option.isNone_iff_eq_none] at hcall
    rw [hcall] at hsome
    cases hsome
  · rintro i rfl
    exact hcaller

theorem Sound.resumeRun (h : s.Sound)
    (hstep : s.resumeRun t who = some next) : next.Sound := by
  unfold ThreadPool.resumeRun at hstep
  obtain ⟨task, hcall, hstep⟩ := Option.bind_eq_some_iff.mp hstep
  obtain ⟨c, hc, hlocked⟩ := Option.bind_eq_some_iff.mp hstep
  obtain ⟨-, hwaiting, hnotified, -, hblocked⟩ := Condition.resume_spec hc
  refine InRun.runLocked (s := { s with notFull_ := c }) (t := t) {
    h.toConsistent with
    stopped := fun hstop => ⟨(h.stopped hstop).1,
      hwaiting.trans (h.stopped hstop).2⟩
    workers_blocked := h.workers_blocked
    callers_blocked := ?_
    caller := ?_
    workers_awake := h.workers_awake
    producers_awake := ?_ } hlocked
  · intro x
    rw [hblocked, h.callers_blocked]
  · rintro i rfl
    exact h.nested i (by rw [hcall]; rfl)
  · intro hrun hwait
    have := h.producers_awake hrun (hwaiting ▸ hwait)
    change s.maxQueueSize_ ≤ s.queue_.length + c.notified.length + 1
    omega

end Run

/-! ## The workers -/

/-- The worker `i` has taken `mutex_` in `take`. -/
structure InTake (s : ThreadPool α) (i : ℕ) : Prop extends Consistent s where
  workers_blocked : ∀ x,
    x ∈ s.notEmpty_.blocked ↔ (s.workers x).isWaiting = true ∧ x ≠ i
  callers_blocked : ∀ t, t ∈ s.notFull_.blocked ↔ (s.calls t).isSome = true
  idle : (s.workers i).isExecuting = false
  workers_awake : s.running_ = true → s.notEmpty_.waiting ≠ [] →
    s.queue_.length ≤ s.notEmpty_.notified.length + 1
  producers_awake : s.running_ = true → s.ProducersAwake

section Workers

variable {s next : ThreadPool α} {i : ℕ} {who : PoolThread}

theorem setWorker_workers {pc : PoolWorkerPc α} (x : ℕ) :
    (s.setWorker i pc).workers x = if x = i then pc else s.workers x := by
  by_cases hx : x = i
  · simp [setWorker, hx]
  · simp [setWorker, hx]

/-- A worker that executes no task is not inside `run`. -/
theorem Consistent.nested_setWorker (h : s.Consistent) {pc : PoolWorkerPc α}
    (hidle : (s.workers i).isExecuting = false ∨ pc.isExecuting = true)
    (x : ℕ) (hcall : (s.calls (.worker x)).isSome = true) :
    ((s.setWorker i pc).workers x).isExecuting = true := by
  have hexecuting := h.nested x hcall
  rw [setWorker_workers]
  by_cases hx : x = i
  · subst hx
    rcases hidle with hidle | hpc
    · rw [hidle] at hexecuting
      cases hexecuting
    · rw [if_pos rfl]
      exact hpc
  · rw [if_neg hx]
    exact hexecuting

theorem InTake.workers_blocked_of (h : s.InTake i) {pc : PoolWorkerPc α}
    (hpc : pc.isWaiting = false) (x : ℕ) :
    x ∈ s.notEmpty_.blocked ↔
      ((s.setWorker i pc).workers x).isWaiting = true := by
  rw [h.workers_blocked, setWorker_workers]
  by_cases hx : x = i
  · simp [hx, hpc]
  · simp [hx]

/-- The queue is empty, and the worker waits. -/
theorem InTake.blocks (h : s.InTake i) (hqueue : s.queue_ = [])
    (hrunning : s.running_ = true) {c : Condition ℕ}
    (hc : s.notEmpty_.wait i = some c) :
    Sound { s.setWorker i .waiting with notEmpty_ := c } := by
  obtain ⟨-, -, hblocked⟩ := Condition.wait_spec hc
  exact { h.toConsistent with
    nested := h.nested_setWorker (Or.inl h.idle)
    stopped := fun hstop => absurd (hrunning.symm.trans hstop) (by decide)
    workers_blocked := by
      intro x
      rw [hblocked, h.workers_blocked]
      change _ ↔ ((s.setWorker i .waiting).workers x).isWaiting = true
      rw [setWorker_workers]
      by_cases hx : x = i
      · simp [hx, PoolWorkerPc.isWaiting]
      · simp [hx]
    callers_blocked := h.callers_blocked
    workers_awake := by
      intro _ _
      change s.queue_.length ≤ _
      rw [hqueue]
      exact Nat.zero_le _
    producers_awake := h.producers_awake }

/-- The pool has been stopped, and the worker returns without a task. -/
theorem InTake.returns (h : s.InTake i) (hrunning : ¬ s.running_ = true) :
    (s.setWorker i .checking).Sound :=
  { h.toConsistent with
    nested := h.nested_setWorker (Or.inl h.idle)
    workers_blocked := h.workers_blocked_of rfl
    callers_blocked := h.callers_blocked
    workers_awake := fun hrun => absurd hrun hrunning
    producers_awake := fun hrun => absurd hrun hrunning }

/-- The worker takes a task, and leaves the waiting threads in `c`. -/
theorem InTake.dequeues (h : s.InTake i) {task : α} {rest : List α}
    (hqueue : s.queue_ = task :: rest) {c : Condition PoolThread}
    (hblocked : ∀ t, t ∈ c.blocked ↔ t ∈ s.notFull_.blocked)
    (hstopped : s.running_ = false → c.waiting = [])
    (hawake : s.running_ = true → c.waiting ≠ [] →
      s.maxQueueSize_ ≤ rest.length + c.notified.length) :
    Sound { s.setWorker i (.executing task) with
      queue_ := rest
      dequeued := s.dequeued ++ [task]
      notFull_ := c } := by
  have hlength : s.queue_.length = rest.length + 1 := by simp [hqueue]
  exact {
    no_fault := h.no_fault
    bounded := by
      intro hpos
      have := h.bounded hpos
      change rest.length ≤ s.maxQueueSize_
      omega
    history := by
      change s.enqueued = s.dequeued ++ [task] ++ rest
      rw [h.history, hqueue, List.append_assoc]
      rfl
    nested := h.nested_setWorker (Or.inr rfl)
    stopped := fun hstop => ⟨(h.stopped hstop).1, hstopped hstop⟩
    stopPc_eq := h.stopPc_eq
    at_stop := h.at_stop
    workers_blocked := h.workers_blocked_of rfl
    callers_blocked := fun t => (hblocked t).trans (h.callers_blocked t)
    workers_awake := by
      intro hrun hwaiting
      have := h.workers_awake hrun hwaiting
      change rest.length ≤ s.notEmpty_.notified.length
      omega
    producers_awake := hawake }

theorem InTake.takeLocked (h : s.InTake i)
    (hstep : s.takeLocked i who = some next) : next.Sound := by
  unfold ThreadPool.takeLocked at hstep
  cases hqueue : s.queue_ with
  | nil =>
      simp only [hqueue] at hstep
      by_cases hrunning : s.running_ = true
      · rw [if_pos hrunning] at hstep
        obtain ⟨c, hc, rfl⟩ := Option.map_eq_some_iff.mp hstep
        exact h.blocks hqueue hrunning hc
      · rw [if_neg hrunning] at hstep
        cases hstep
        exact h.returns hrunning
  | cons task rest =>
      simp only [hqueue] at hstep
      have hlength : s.queue_.length = rest.length + 1 := by simp [hqueue]
      by_cases hmax : 0 < s.maxQueueSize_
      · rw [if_pos hmax] at hstep
        obtain ⟨c, hc, rfl⟩ := Option.map_eq_some_iff.mp hstep
        obtain ⟨hblocked, hsignal⟩ := Condition.notify_spec hc
        apply h.dequeues hqueue hblocked
        · intro hstop
          have hnone := (h.stopped hstop).2
          rcases hsignal with ⟨-, rfl⟩ | ⟨hsome, -⟩
          · exact hnone
          · exact absurd hnone hsome
        · intro hrun hwaiting
          rcases hsignal with ⟨hnone, rfl⟩ | ⟨hsome, hnotified⟩
          · exact absurd hnone hwaiting
          · have := h.producers_awake hrun hsome
            omega
      · rw [if_neg hmax] at hstep
        cases hstep
        apply h.dequeues hqueue (fun _ => Iff.rfl)
        · exact fun hstop => (h.stopped hstop).2
        · intro _ _
          omega

theorem Sound.take (h : s.Sound) (hstep : s.take i who = some next) :
    next.Sound := by
  unfold ThreadPool.take at hstep
  cases hpc : s.workers i with
  | taking =>
      simp only [hpc] at hstep
      refine InTake.takeLocked (s := s) (i := i) { h.toConsistent with
        workers_blocked := ?_
        callers_blocked := h.callers_blocked
        idle := by rw [hpc]; rfl
        workers_awake := fun hrun hwaiting =>
          Nat.le_succ_of_le (h.workers_awake hrun hwaiting)
        producers_awake := h.producers_awake } hstep
      intro x
      rw [h.workers_blocked]
      refine (and_iff_left_of_imp ?_).symm
      rintro hwaiting rfl
      rw [hpc] at hwaiting
      cases hwaiting
  | _ => simp [hpc] at hstep

theorem Sound.resumeTake (h : s.Sound)
    (hstep : s.resumeTake i who = some next) : next.Sound := by
  unfold ThreadPool.resumeTake at hstep
  obtain ⟨c, hc, hlocked⟩ := Option.bind_eq_some_iff.mp hstep
  obtain ⟨hmem, hwaiting, hnotified, -, hblocked⟩ := Condition.resume_spec hc
  have hpc := (h.workers_blocked i).mp hmem
  refine InTake.takeLocked (s := { s with notEmpty_ := c }) (i := i) {
    h.toConsistent with
    stopped := fun hstop => ⟨hwaiting.trans (h.stopped hstop).1,
      (h.stopped hstop).2⟩
    workers_blocked := ?_
    callers_blocked := h.callers_blocked
    idle := ?_
    workers_awake := ?_
    producers_awake := h.producers_awake } hlocked
  · intro x
    rw [hblocked, h.workers_blocked]
  · change (s.workers i).isExecuting = false
    cases hworker : s.workers i with
    | waiting => rfl
    | _ => simp [hworker, PoolWorkerPc.isWaiting] at hpc
  · intro hrun hwait
    have := h.workers_awake hrun (hwaiting ▸ hwait)
    change s.queue_.length ≤ c.notified.length + 1
    omega

/-- A worker that is not inside `take` moves outside it. -/
theorem Sound.moveWorker (h : s.Sound) {pc : PoolWorkerPc α}
    (hbefore : (s.workers i).isWaiting = false) (hafter : pc.isWaiting = false)
    (hcall : s.calls (.worker i) = none) : (s.setWorker i pc).Sound :=
  { h with
    nested := by
      intro x hsome
      have hexecuting := h.nested x hsome
      rw [setWorker_workers]
      by_cases hx : x = i
      · subst hx
        change (s.calls (.worker x)).isSome = true at hsome
        rw [hcall] at hsome
        cases hsome
      · rw [if_neg hx]
        exact hexecuting
    workers_blocked := by
      intro x
      change x ∈ s.notEmpty_.blocked ↔ _
      rw [h.workers_blocked, setWorker_workers]
      by_cases hx : x = i
      · simp [hx, hbefore, hafter]
      · simp [hx] }

theorem Sound.calls_none (h : s.Sound)
    (hidle : (s.workers i).isExecuting = false) :
    s.calls (.worker i) = none := by
  rw [← Option.not_isSome_iff_eq_none]
  intro hsome
  rw [h.nested i hsome] at hidle
  cases hidle

theorem Sound.check (h : s.Sound) (hstep : s.check i = some next) :
    next.Sound := by
  unfold ThreadPool.check at hstep
  cases hpc : s.workers i with
  | checking =>
      simp only [hpc] at hstep
      by_cases hi : i < s.numThreads
      swap
      · simp [hi] at hstep
      rw [if_pos hi] at hstep
      cases hstep
      refine h.moveWorker (by rw [hpc]; rfl) ?_
        (h.calls_none (by rw [hpc]; rfl))
      split
      · rfl
      · rfl
  | _ => simp [hpc] at hstep

theorem Sound.finishTask (h : s.Sound)
    (hstep : s.finishTask i = some next) : next.Sound := by
  unfold ThreadPool.finishTask at hstep
  cases hpc : s.workers i with
  | executing task =>
      simp only [hpc] at hstep
      split at hstep
      next hcall =>
        cases hstep
        exact h.moveWorker (by rw [hpc]; rfl) rfl
          (Option.isNone_iff_eq_none.mp hcall)
      next => cases hstep
  | _ => simp [hpc] at hstep

end Workers

/-! ## `stop` -/

section Stop

variable {s next : ThreadPool α}

theorem Sound.stop (h : s.Sound) (hstep : s.stop = some next) :
    next.Sound := by
  unfold ThreadPool.stop at hstep
  cases hpc : s.stopPc with
  | notCalled =>
      simp only [hpc] at hstep
      cases hstep
      obtain ⟨hworkers, hworkersMem⟩ := Condition.notifyAll_spec s.notEmpty_
      obtain ⟨hcallers, hcallersMem⟩ := Condition.notifyAll_spec s.notFull_
      exact { h with
        stopped := fun _ => ⟨hworkers, hcallers⟩
        stopPc_eq := by simp
        at_stop := fun _ => rfl
        workers_blocked := fun i => (hworkersMem i).trans (h.workers_blocked i)
        callers_blocked := fun t => (hcallersMem t).trans (h.callers_blocked t)
        workers_awake := fun hrun => by cases hrun
        producers_awake := fun hrun => by cases hrun }
  | joining k => simp [hpc] at hstep
  | done => simp [hpc] at hstep

theorem Sound.join (h : s.Sound) (hstep : s.join = some next) :
    next.Sound := by
  unfold ThreadPool.join at hstep
  cases hpc : s.stopPc with
  | notCalled => simp [hpc] at hstep
  | done => simp [hpc] at hstep
  | joining k =>
      simp only [hpc] at hstep
      have hstopped := h.stopPc_eq
      rw [hpc] at hstopped
      split at hstep
      · split at hstep
        · cases hstep
          exact { h with stopPc_eq := by simpa using hstopped }
        · cases hstep
      · cases hstep
        exact { h with stopPc_eq := by simpa using hstopped }

theorem Sound.wakeRun (h : s.Sound) {t : PoolThread}
    {c : Condition PoolThread} (hc : s.notFull_.wake t = some c) :
    Sound { s with notFull_ := c } := by
  obtain ⟨hsome, hnotified, hblocked⟩ := Condition.wake_spec hc
  exact { h with
    stopped := fun hstop => absurd (h.stopped hstop).2 hsome
    callers_blocked := fun t => (hblocked t).trans (h.callers_blocked t)
    producers_awake := by
      intro hrun _
      change s.maxQueueSize_ ≤ s.queue_.length + c.notified.length
      rw [hnotified]
      exact h.producers_awake hrun hsome }

theorem Sound.wakeTake (h : s.Sound) {i : ℕ} {c : Condition ℕ}
    (hc : s.notEmpty_.wake i = some c) :
    Sound { s with notEmpty_ := c } := by
  obtain ⟨hsome, hnotified, hblocked⟩ := Condition.wake_spec hc
  exact { h with
    stopped := fun hstop => absurd (h.stopped hstop).1 hsome
    workers_blocked := fun i => (hblocked i).trans (h.workers_blocked i)
    workers_awake := by
      intro hrun _
      change s.queue_.length ≤ c.notified.length
      rw [hnotified]
      exact h.workers_awake hrun hsome }

end Stop

/-- One step of any thread. -/
theorem Sound.step {s next : ThreadPool α} (h : s.Sound) {a : Action α}
    (hstep : s.step a = some next) : next.Sound := by
  unfold ThreadPool.step at hstep
  rw [if_pos h.no_fault] at hstep
  cases a with
  | run t task who => exact h.run hstep
  | resumeRun t who => exact h.resumeRun hstep
  | wakeRun t =>
      obtain ⟨c, hc, rfl⟩ := Option.map_eq_some_iff.mp hstep
      exact h.wakeRun hc
  | check i => exact h.check hstep
  | take i who => exact h.take hstep
  | resumeTake i who => exact h.resumeTake hstep
  | wakeTake i =>
      obtain ⟨c, hc, rfl⟩ := Option.map_eq_some_iff.mp hstep
      exact h.wakeTake hc
  | finishTask i => exact h.finishTask hstep
  | stop => exact h.stop hstep
  | join => exact h.join hstep

/-! ## After `stop` -/

/-- The pool is stopped, and no thread is inside `run`. -/
structure Stopping (s : ThreadPool α) : Prop extends Sound s where
  not_running : s.running_ = false
  no_call : ∀ t, s.calls t = none

section Stopped

variable {s : ThreadPool α}

/-- A stopped pool lets every thread return from `run`. -/
theorem Sound.exists_stopping (h : s.Sound) (hstop : s.running_ = false) :
    ∃ actions next, Support.run ThreadPool.step s actions = some next ∧
      next.Stopping := by
  generalize hn : s.notFull_.blocked.length = n
  induction n generalizing s with
  | zero =>
      refine ⟨[], s, rfl, { h with not_running := hstop, no_call := ?_ }⟩
      intro t
      rw [← Option.not_isSome_iff_eq_none, ← h.callers_blocked,
        List.length_eq_zero_iff.mp hn]
      exact List.not_mem_nil
  | succ n ih =>
      obtain ⟨t, ht⟩ := List.exists_mem_of_length_pos
        (show 0 < s.notFull_.blocked.length by omega)
      obtain ⟨task, hcall⟩ := Option.isSome_iff_exists.mp
        ((h.callers_blocked t).mp ht)
      obtain ⟨c, hc⟩ := Condition.resume_eq_some (h.stopped hstop).2 ht
      obtain ⟨-, -, -, hlength, -⟩ := Condition.resume_spec hc
      let next := { s with notFull_ := c }.setCall t none
      have hstep : s.step (.resumeRun t 0) = some next := by
        simp [ThreadPool.step, h.no_fault, ThreadPool.resumeRun, hcall, hc,
          ThreadPool.runLocked, hstop, next]
      obtain ⟨actions, last, hrun, hlast⟩ := ih (h.step hstep) hstop
        (show c.blocked.length = n by omega)
      exact ⟨.resumeRun t 0 :: actions, last,
        run_cons_eq_some_iff.mpr ⟨next, hstep, hrun⟩, hlast⟩

/-- How many steps a worker is away from its end. -/
def rank (pc : PoolWorkerPc α) : ℕ :=
  match pc with
  | .exited => 0
  | .checking => 1
  | .executing _ => 2
  | .taking | .waiting => 3

/-- A worker of a stopped pool takes a task that is left, or none, and does not
wait. -/
theorem takeLocked_stopped {i : ℕ} (hstop : s.running_ = false)
    (hnone : s.notFull_.waiting = []) :
    ∃ next pc, s.takeLocked i (.producer 0) = some next ∧
      next.workers = Function.update s.workers i pc ∧ rank pc < 3 ∧
      next.running_ = false ∧ next.calls = s.calls ∧
      next.numThreads = s.numThreads := by
  unfold ThreadPool.takeLocked
  cases hqueue : s.queue_ with
  | nil =>
      refine ⟨s.setWorker i .checking, .checking, ?_, rfl, ?_, hstop, rfl, rfl⟩
      · simp [hstop]
      · simp [rank]
  | cons task rest =>
      refine ⟨{ s.setWorker i (.executing task) with
        queue_ := rest
        dequeued := s.dequeued ++ [task] }, .executing task, ?_, rfl, ?_,
        hstop, rfl, rfl⟩
      · simp only [Condition.notify_nil hnone, Option.map_some]
        split
        · rfl
        · rfl
      · exact Nat.lt_succ_self 2

/-- A worker of a stopped pool that has not returned comes one step closer to
its end. -/
theorem Stopping.exists_step (h : s.Stopping) {i : ℕ} (hi : i < s.numThreads)
    (hleft : (s.workers i).isExited = false) :
    ∃ a next pc, s.step a = some next ∧
      next.workers = Function.update s.workers i pc ∧
      rank pc < rank (s.workers i) ∧ next.Stopping ∧
      next.numThreads = s.numThreads := by
  have hfinish : ∀ {a : Action α} {next : ThreadPool α} {pc : PoolWorkerPc α},
      s.step a = some next →
      next.workers = Function.update s.workers i pc →
      rank pc < rank (s.workers i) → next.running_ = false →
      next.calls = s.calls → next.numThreads = s.numThreads →
      ∃ a next pc, s.step a = some next ∧
        next.workers = Function.update s.workers i pc ∧
        rank pc < rank (s.workers i) ∧ next.Stopping ∧
        next.numThreads = s.numThreads := by
    intro a next pc hstep hworkers hrank hstop hcalls hthreads
    exact ⟨a, next, pc, hstep, hworkers, hrank,
      { h.toSound.step hstep with
        not_running := hstop
        no_call := fun t => by rw [hcalls, h.no_call] }, hthreads⟩
  cases hpc : s.workers i with
  | checking =>
      rw [← hpc]
      have hstep : s.step (.check i) = some (s.setWorker i .exited) := by
        simp [ThreadPool.step, h.no_fault, ThreadPool.check, hpc, hi,
          h.not_running]
      exact hfinish hstep rfl (by rw [hpc]; exact Nat.zero_lt_one)
        h.not_running rfl rfl
  | taking =>
      rw [← hpc]
      obtain ⟨next, pc, hlocked, hworkers, hrank, hstop, hcalls, hthreads⟩ :=
        takeLocked_stopped (i := i) h.not_running (h.stopped h.not_running).2
      have hstep : s.step (.take i (.producer 0)) = some next := by
        simpa [ThreadPool.step, h.no_fault, ThreadPool.take, hpc] using hlocked
      exact hfinish hstep hworkers (by rw [hpc]; exact hrank) hstop hcalls
        hthreads
  | waiting =>
      rw [← hpc]
      have hmem := (h.workers_blocked i).mpr (by rw [hpc]; rfl)
      obtain ⟨c, hc⟩ := Condition.resume_eq_some (h.stopped h.not_running).1 hmem
      obtain ⟨next, pc, hlocked, hworkers, hrank, hstop, hcalls, hthreads⟩ :=
        takeLocked_stopped (s := { s with notEmpty_ := c }) (i := i)
          h.not_running (h.stopped h.not_running).2
      have hstep : s.step (.resumeTake i (.producer 0)) = some next := by
        unfold ThreadPool.step
        rw [if_pos h.no_fault]
        simp only [ThreadPool.resumeTake, hc, Option.bind_some]
        exact hlocked
      exact hfinish hstep hworkers (by rw [hpc]; exact hrank) hstop hcalls
        hthreads
  | executing task =>
      rw [← hpc]
      have hstep : s.step (.finishTask i) = some (s.setWorker i .checking) := by
        simp [ThreadPool.step, h.no_fault, ThreadPool.finishTask, hpc,
          h.no_call]
      exact hfinish hstep rfl (by rw [hpc]; exact Nat.lt_succ_self 1)
        h.not_running rfl rfl
  | exited => simp [hpc, PoolWorkerPc.isExited] at hleft

/-- All workers of a stopped pool return. -/
theorem Stopping.exists_exited (h : s.Stopping) :
    ∃ actions next, Support.run ThreadPool.step s actions = some next ∧
      next.Stopping ∧
      ∀ i < next.numThreads, (next.workers i).isExited = true := by
  generalize hn : ∑ i ∈ Finset.range s.numThreads, rank (s.workers i) = n
  induction n using Nat.strong_induction_on generalizing s with
  | _ n ih =>
      by_cases hall : ∀ i < s.numThreads, (s.workers i).isExited = true
      · exact ⟨[], s, rfl, h, hall⟩
      obtain ⟨i, hi⟩ := not_forall.mp hall
      obtain ⟨hlt, hleft⟩ := Classical.not_imp.mp hi
      obtain ⟨a, next, pc, hstep, hworkers, hrank, hnext, hthreads⟩ :=
        h.exists_step hlt (by simpa using hleft)
      have hsmaller :
          ∑ x ∈ Finset.range next.numThreads, rank (next.workers x) < n := by
        rw [← hn, hthreads, hworkers]
        refine Finset.sum_lt_sum ?_ ⟨i, Finset.mem_range.mpr hlt, ?_⟩
        · intro x _
          by_cases hx : x = i
          · subst hx
            simpa using hrank.le
          · simp [Function.update_of_ne hx]
        · simpa using hrank
      obtain ⟨actions, last, hrun, hlast⟩ := ih _ hsmaller hnext rfl
      exact ⟨a :: actions, last,
        run_cons_eq_some_iff.mpr ⟨next, hstep, hrun⟩, hlast⟩

/-- When all workers have returned, so does `stop()`. -/
theorem Stopping.exists_joined (h : s.Stopping)
    (hexited : ∀ i < s.numThreads, (s.workers i).isExited = true) :
    ∃ actions next, Support.run ThreadPool.step s actions = some next ∧
      next.Stopping ∧ next.stopPc = .done := by
  cases hpc : s.stopPc with
  | notCalled =>
      have := h.stopPc_eq.mp hpc
      rw [h.not_running] at this
      cases this
  | done => exact ⟨[], s, rfl, h, hpc⟩
  | joining k =>
      generalize hn : s.numThreads - k = n
      induction n generalizing s k with
      | zero =>
          have hstep : s.step .join = some { s with stopPc := .done } := by
            have hlast : ¬ k < s.numThreads := by omega
            simp [ThreadPool.step, h.no_fault, ThreadPool.join, hpc, hlast]
          refine ⟨[.join], _, run_cons_eq_some_iff.mpr ⟨_, hstep, rfl⟩,
            { h.toSound.step hstep with
              not_running := h.not_running, no_call := h.no_call }, rfl⟩
      | succ n ih =>
          have hlt : k < s.numThreads := by omega
          have hstep : s.step .join =
              some { s with stopPc := .joining (k + 1) } := by
            simp [ThreadPool.step, h.no_fault, ThreadPool.join, hpc, hlt,
              hexited k hlt]
          obtain ⟨actions, last, hrun, hlast⟩ := ih
            { h.toSound.step hstep with
              not_running := h.not_running, no_call := h.no_call }
            hexited (k + 1) rfl (show s.numThreads - (k + 1) = n by omega)
          exact ⟨.join :: actions, last,
            run_cons_eq_some_iff.mpr ⟨_, hstep, hrun⟩, hlast⟩

/-- A stopped pool can always be brought to its end: every thread returns from
`run` and from `take`, and every join completes. -/
theorem Sound.exists_done (h : s.Sound) (hstop : s.running_ = false) :
    ∃ actions next, Support.run ThreadPool.step s actions = some next ∧
      next.stopPc = .done ∧ ∀ t, next.calls t = none := by
  obtain ⟨first, s₁, hfirst, h₁⟩ := h.exists_stopping hstop
  obtain ⟨second, s₂, hsecond, h₂, hexited⟩ := h₁.exists_exited
  obtain ⟨third, s₃, hthird, h₃, hdone⟩ := h₂.exists_joined hexited
  exact ⟨first ++ (second ++ third), s₃,
    run_append hfirst (run_append hsecond hthird), hdone, h₃.no_call⟩

end Stopped

/-! ## Runs -/

theorem sound_of_run {numThreads maxQueueSize : ℕ}
    {actions : List (Action α)} {s : ThreadPool α}
    (hrun : Support.run ThreadPool.step (started numThreads maxQueueSize)
      actions = some s) : s.Sound :=
  run_invariant (fun _ _ _ hs hstep => hs.step hstep)
    (started_sound numThreads maxQueueSize) hrun

/-- What the pool promises as a bounded queue of tasks. -/
structure IsTaskQueue (s : ThreadPool α) : Prop where
  /-- The assertion in `run` has not failed. -/
  no_fault : s.fault = none
  bounded : 0 < s.maxQueueSize_ → s.queue_.length ≤ s.maxQueueSize_
  /-- Tasks are taken in the order in which they were pushed, each once. -/
  fifo : s.enqueued = s.dequeued ++ s.queue_
  workers_awake : s.running_ = true → s.notEmpty_.waiting ≠ [] →
    s.queue_.length ≤ s.notEmpty_.notified.length
  producers_awake : s.running_ = true → s.notFull_.waiting ≠ [] →
    s.maxQueueSize_ ≤ s.queue_.length + s.notFull_.notified.length
  /-- Nothing is pushed after `stop()`. -/
  closed : s.running_ = false → s.enqueuedAtStop = some s.enqueued
  /-- After `stop()` nobody is left waiting, and all joins can complete. -/
  stopped : s.running_ = false →
    s.notEmpty_.waiting = [] ∧ s.notFull_.waiting = [] ∧
      ∃ actions next, Support.run ThreadPool.step s actions = some next ∧
        next.stopPc = .done ∧ ∀ t, next.calls t = none

/-- In every run of a started pool, whatever its number of threads and the
size of its queue, the pool is a bounded queue of tasks that loses no wake-up
and can always be stopped. -/
theorem isTaskQueue_of_run (numThreads maxQueueSize : ℕ)
    (actions : List (Action α)) (s : ThreadPool α)
    (hrun : Support.run ThreadPool.step (started numThreads maxQueueSize)
      actions = some s) : s.IsTaskQueue := by
  have h := sound_of_run hrun
  exact {
    no_fault := h.no_fault
    bounded := h.bounded
    fifo := h.history
    workers_awake := h.workers_awake
    producers_awake := h.producers_awake
    closed := h.at_stop
    stopped := fun hstop => ⟨(h.stopped hstop).1, (h.stopped hstop).2,
      h.exists_done hstop⟩ }

/-- Two workers and a queue of one place: a worker waits and is woken
spuriously, the other one is signalled, a producer waits, and the pool is
stopped. -/
def crowded : List (Action ℕ) :=
  [.check 0, .take 0 (.producer 0), .check 1, .take 1 (.producer 0),
    .wakeTake 0, .run (.producer 0) 7 1, .run (.producer 1) 8 0,
    .resumeTake 0 (.producer 1), .resumeTake 1 (.producer 0),
    .resumeRun (.producer 1) 1, .stop, .resumeTake 1 (.producer 0),
    .finishTask 0]

theorem isTaskQueue_crowded :
    ∃ s, Support.run ThreadPool.step (started 2 1) crowded = some s ∧
      s.IsTaskQueue ∧ s.running_ = false ∧ s.dequeued = [7, 8] := by
  have hrun : ∃ s, Support.run ThreadPool.step (started 2 1) crowded = some s ∧
      (s.running_ = false ∧ s.dequeued = [7, 8]) := by
    apply exists_run_of_eval
    decide +kernel
  obtain ⟨s, hrun, hstop⟩ := hrun
  exact ⟨s, hrun, isTaskQueue_of_run 2 1 crowded s hrun, hstop⟩

end ThreadPool

end EventServer.Thread
