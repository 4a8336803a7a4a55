import EventServer.Thread.Construction

/-!
# Starting and stopping the loop of an `EventLoopThread`

What the invariant of the handshake says about every run: the promises are
used once, the loop runs only after a call of `run()`, such a call returns
only after the readiness callback, and the threads never wait for each other
in a circle.
-/

namespace EventServer.Thread

open EventServer.Support

namespace EventLoopThread

/-! ## Progress -/

/-- Every thread has finished. -/
structure Finished (s : EventLoopThread) : Prop where
  owner : s.owner = .destroyed
  worker : s.worker = .done
  outside : ∀ th, s.inside th = false

/-- Some thread can take a step.  New calls of `run()`, posted callbacks and
exit requests from outside are not counted. -/
def CanStep (s : EventLoopThread) : Prop :=
  s.ownerStep.isSome ∨ s.destroy.isSome ∨ s.workerStep.isSome ∨
    ∃ th, (s.runStep th).isSome

namespace Handshake

variable {s : EventLoopThread}

/-- The active call of `run()` is only held up by the readiness callback. -/
theorem runStep_isSome (h : s.Handshake) {th : ThreadId}
    (hin : s.inside th = true)
    (hfree : s.promiseForLoop_.satisfied = true ∨ s.once_.hasSetRun = false) :
    s.CanStep := by
  refine Or.inr (Or.inr (Or.inr ?_))
  cases honce : s.once_ with
  | notCalled => exact ⟨th, by simp [EventLoopThread.runStep, hin, honce]⟩
  | done => exact ⟨th, by simp [EventLoopThread.runStep, hin, honce]⟩
  | running active pc =>
      have hactive := h.active_inside active pc honce
      refine ⟨active, ?_⟩
      cases pc with
      | waitLoop =>
          rcases hfree with hset | hunset
          · simp [EventLoopThread.runStep, hactive, honce, hset]
          · simp [honce, OnceFlag.hasSetRun] at hunset
      | _ => simp [EventLoopThread.runStep, hactive, honce]

/-- The owner is only held up by the mutex and by the end of the worker. -/
theorem owner_isSome (h : s.Handshake) (hout : s.inside .owner = false)
    (hbuilt : s.owner.isBuilt = true) (hmutex : s.worker.holdsMutex = false)
    (hjoin : s.owner = .join → s.worker = .done)
    (hleft : s.owner ≠ .destroyed) : s.CanStep := by
  cases hpc : s.owner with
  | constructing k => simp [hpc, OwnerPc.isBuilt] at hbuilt
  | getFuture => simp [hpc, OwnerPc.isBuilt] at hbuilt
  | waitPointer => simp [hpc, OwnerPc.isBuilt] at hbuilt
  | alive => exact Or.inr (Or.inl (by simp [EventLoopThread.destroy, hpc, hout]))
  | lock =>
      have hfree : s.loopMutex_ = none := by
        cases hholder : s.loopMutex_ with
        | none => rfl
        | some th =>
            cases th with
            | owner =>
                have := h.mutex_owner.mp hholder
                simp [hpc, OwnerPc.holdsMutex] at this
            | worker =>
                have := h.mutex_worker.mp hholder
                simp [hmutex] at this
            | caller n => exact absurd hholder (h.mutex_caller n)
      exact Or.inl (by simp [EventLoopThread.ownerStep, hout, hpc, hfree])
  | copy => exact Or.inl (by simp [EventLoopThread.ownerStep, hout, hpc])
  | unlock loop => exact Or.inl (by simp [EventLoopThread.ownerStep, hout, hpc])
  | exitLoop loop =>
      exact Or.inl (by simp [EventLoopThread.ownerStep, hout, hpc])
  | join =>
      exact Or.inl (by simp [EventLoopThread.ownerStep, hout, hpc, hjoin hpc])
  | destroyed => exact absurd hpc hleft

/-- Before the first call of `run()` the owner is not held up. -/
theorem owner_before_run (h : s.Handshake) (hout : s.inside .owner = false)
    (hunset : s.once_.hasSetRun = false)
    (hpointer : s.promiseForLoopPointer_.satisfied = true) : s.CanStep := by
  have hidle : s.owner.isDestroying = false := by
    by_contra hne
    rcases h.destroying (by simpa using hne) with hin | hdone
    · simp [hout] at hin
    · simp [hdone, OnceFlag.hasSetRun] at hunset
  cases hpc : s.owner with
  | constructing k =>
      exact Or.inl (by simp [EventLoopThread.ownerStep, hout, hpc])
  | getFuture => exact Or.inl (by simp [EventLoopThread.ownerStep, hout, hpc])
  | waitPointer =>
      exact Or.inl (by simp [EventLoopThread.ownerStep, hout, hpc, hpointer])
  | alive => exact Or.inr (Or.inl (by simp [EventLoopThread.destroy, hpc, hout]))
  | _ => simp [hpc, OwnerPc.isDestroying] at hidle

/-- As long as the worker is not started, the owner is in the constructor. -/
theorem canStep_notStarted (h : s.Handshake) (hpc : s.worker = .notStarted) :
    s.CanStep := by
  have hstarted := h.started
  rw [hpc] at hstarted
  cases howner : s.owner with
  | constructing k =>
      have hout : s.inside .owner = false := by
        by_contra hne
        have := h.inside_built .owner (by simpa using hne)
        simp [howner, OwnerPc.isBuilt] at this
      exact Or.inl (by simp [EventLoopThread.ownerStep, hout, howner])
  | _ => simp [howner, WorkerPc.isStarted, OwnerPc.startedThread] at hstarted

/-- The worker waits for a call of `run()`: there is one, or the owner can still
make one. -/
theorem canStep_waitRun (h : s.Handshake) (hpc : s.worker = .waitRun)
    (hset : ¬ s.promiseForRun_.satisfied = true) : s.CanStep := by
  have hunset : s.once_.hasSetRun = false := by
    rw [← h.run_value]
    simpa using hset
  by_cases hcaller : ∃ th, s.inside th = true
  · obtain ⟨th, hth⟩ := hcaller
    exact h.runStep_isSome hth (Or.inr hunset)
  · have hout : s.inside .owner = false := by
      simpa using fun hne => hcaller ⟨.owner, hne⟩
    exact h.owner_before_run hout hunset
      (by rw [h.pointer_value, hpc]; rfl)

/-- Nobody has asked the loop to exit, and so the owner has not come to the
join. -/
theorem canStep_loop (h : s.Handshake) (hpc : s.worker = .loop)
    (hexit : ¬ s.exitRequested = true) : s.CanStep := by
  have hready := h.ready
  have hends := h.loop_ends
  simp only [ReadyCallback, hpc] at hready
  by_cases hout : s.inside .owner = true
  · exact h.runStep_isSome hout (Or.inl hready.2)
  · refine h.owner_isSome (by simpa using hout)
      (h.built_of_entered (by rw [hpc]; rfl)) (by rw [hpc]; rfl) ?_ ?_
    · intro hjoin
      simp [LoopEnds, hjoin, hpc, hexit, WorkerPc.hasCleared] at hends
    · intro hleft
      simp [LoopEnds, hleft, hpc] at hends

/-- The worker waits for the mutex: the owner holds it, and is about to release
it. -/
theorem canStep_lock (h : s.Handshake) (hpc : s.worker = .lock)
    (hfree : s.loopMutex_ ≠ none) : s.CanStep := by
  have hholds : s.owner.holdsMutex = true := by
    rw [← h.mutex_owner]
    obtain ⟨th, hth⟩ := Option.ne_none_iff_exists'.mp hfree
    cases th with
    | owner => exact hth
    | worker =>
        have := h.mutex_worker.mp hth
        simp [hpc, WorkerPc.holdsMutex] at this
    | caller n => exact absurd hth (h.mutex_caller n)
  refine Or.inl ?_
  cases howner : s.owner with
  | copy | unlock loop =>
      have hout := h.owner_outside (by rw [howner]; rfl)
      simp [EventLoopThread.ownerStep, hout, howner]
  | _ => simp [howner, OwnerPc.holdsMutex] at hholds

theorem finished_or_canStep_done (h : s.Handshake) (hpc : s.worker = .done) :
    s.Finished ∨ s.CanStep := by
  have hready := h.ready
  simp only [ReadyCallback, hpc] at hready
  by_cases hcaller : ∃ th, s.inside th = true
  · obtain ⟨th, hth⟩ := hcaller
    exact Or.inr (h.runStep_isSome hth (Or.inl hready.2))
  · have hout : ∀ th, s.inside th = false := by
      intro th
      simpa using fun hne => hcaller ⟨th, hne⟩
    by_cases hleft : s.owner = .destroyed
    · exact Or.inl ⟨hleft, hpc, hout⟩
    · exact Or.inr (h.owner_isSome (hout _)
        (h.built_of_entered (by rw [hpc]; rfl)) (by rw [hpc]; rfl)
        (fun _ => hpc) hleft)

/-- There is no deadlock. -/
theorem finished_or_canStep (h : s.Handshake) : s.Finished ∨ s.CanStep := by
  by_cases hin : s.inside .worker = true
  · exact Or.inr (h.runStep_isSome hin (Or.inl (h.worker_inside hin).2))
  have hworker : s.workerStep.isSome → s.CanStep :=
    fun hsome => Or.inr (Or.inr (Or.inl hsome))
  cases hpc : s.worker with
  | notStarted => exact Or.inr (h.canStep_notStarted hpc)
  | setName | makeLoop | post | setPointer | getFuture | flush | exitLoop
  | unlock =>
      exact Or.inr (hworker (by simp [EventLoopThread.workerStep, hin, hpc]))
  | callbacks batch =>
      refine Or.inr (hworker ?_)
      rcases batch with _ | ⟨cb, rest⟩
      · simp [EventLoopThread.workerStep, hin, hpc]
      · cases cb
        all_goals simp [EventLoopThread.workerStep, hin, hpc]
  | waitRun =>
      by_cases hset : s.promiseForRun_.satisfied = true
      · exact Or.inr (hworker
          (by simp [EventLoopThread.workerStep, hin, hpc, hset]))
      · exact Or.inr (h.canStep_waitRun hpc hset)
  | loop =>
      by_cases hexit : s.exitRequested = true
      · exact Or.inr (hworker
          (by simp [EventLoopThread.workerStep, hin, hpc, hexit]))
      · exact Or.inr (h.canStep_loop hpc hexit)
  | lock =>
      by_cases hfree : s.loopMutex_ = none
      · exact Or.inr (hworker
          (by simp [EventLoopThread.workerStep, hin, hpc, hfree]))
      · exact Or.inr (h.canStep_lock hpc hfree)
  | done => exact h.finished_or_canStep_done hpc

end Handshake

/-! ## Runs -/

theorem membersConstructed_handshake : membersConstructed.Handshake := by
  constructor
  all_goals simp [membersConstructed, start, Promise.create,
    OnceFlag.hasFuture, OnceFlag.hasSetRun, OnceFlag.sawReady,
    WorkerPc.isStarted, OwnerPc.startedThread, WorkerPc.hasPublished,
    WorkerPc.hasFuture, WorkerPc.hasEnteredRun, ReadyCallback,
    OwnerPc.hasFuture, OwnerPc.isBuilt, OwnerPc.isDestroying, OwnerPc.ranRun,
    LoopEnds, OwnerPc.holdsMutex, WorkerPc.holdsMutex]

theorem membersConstructed_position : membersConstructed.Position 8 0 := by
  refine ⟨?_, fun _ => le_refl 8, rfl⟩
  intro k hk
  cases hk

/-- Once all members are there, the invariant holds in every run. -/
theorem handshake_of_run {schedule : List Action} {s t : EventLoopThread}
    {o w : ℕ} (h : s.Handshake) (hpos : s.Position o w) (ho : 8 ≤ o)
    (hrun : run step s schedule = some t) : t.Handshake := by
  induction schedule generalizing s o w with
  | nil =>
      have heq : s = t := by simpa using hrun
      exact heq ▸ h
  | cons a rest ih =>
      obtain ⟨next, hstep, hrest⟩ := run_cons_eq_some_iff.mp hrun
      have huse : a = .worker → s.UsesConstructed := by
        intro _ m _
        rw [hpos.mem_constructed]
        exact lt_of_lt_of_le m.index_lt ho
      exact ih (h.step hstep huse) (hpos.step h hstep huse) (by omega) hrest

theorem Handshake.ready_of_returned {s : EventLoopThread} (h : s.Handshake)
    (hreturned : 0 < s.runReturns) : s.readied = true := by
  rw [h.readied_eq]
  apply h.saw_ready
  rw [h.returns hreturned]
  rfl

theorem Handshake.called_of_entered {s : EventLoopThread} (h : s.Handshake)
    (hentered : s.worker.hasEnteredRun = true) : 0 < s.runCalls := by
  apply h.begun_calls
  intro hnot
  have hvalue := h.run_value
  rw [h.entered hentered, hnot] at hvalue
  exact absurd hvalue (by decide)

/-- In every run with all members constructed: no promise is satisfied twice,
no future is retrieved twice and no null pointer is used; the worker has
entered `Dispatcher::run` only if `run()` has been called; a call of `run()`
has returned only if the readiness callback has been executed; and either all
threads have finished, or one of them can take a step. -/
theorem start_stop_handshake (schedule : List Action) (t : EventLoopThread)
    (hrun : run step membersConstructed schedule = some t) :
    t.fault = none ∧
      (t.worker.hasEnteredRun = true → 0 < t.runCalls) ∧
      (0 < t.runReturns → t.readied = true) ∧
      (t.Finished ∨ t.CanStep) := by
  have h : t.Handshake := handshake_of_run membersConstructed_handshake
    membersConstructed_position (le_refl 8) hrun
  exact ⟨h.no_fault, h.called_of_entered, h.ready_of_returned,
    h.finished_or_canStep⟩

/-- An exit is requested before the loop starts; the destructor makes the
first call of `run()`, while another thread waits for it. -/
def earlyExit : List Action :=
  [.worker, .worker, .worker, .owner, .worker, .owner, .exitLoop, .worker,
    .destroy, .run .owner, .callRun (.caller 0), .run .owner, .run .owner,
    .worker, .worker, .worker, .run .owner, .run .owner, .run (.caller 0),
    .worker, .worker, .owner, .owner, .owner, .worker, .owner, .worker,
    .worker, .owner]

theorem start_stop_earlyExit :
    ∃ t, run step membersConstructed earlyExit = some t ∧
      (t.fault = none ∧
        (t.worker.hasEnteredRun = true → 0 < t.runCalls) ∧
        (0 < t.runReturns → t.readied = true) ∧
        (t.Finished ∨ t.CanStep)) ∧
      t.owner = .destroyed ∧ t.worker = .done ∧ t.runReturns = 2 := by
  have hrun : ∃ t, run step membersConstructed earlyExit = some t ∧
      (t.owner = .destroyed ∧ t.worker = .done ∧ t.runReturns = 2) := by
    apply exists_run_of_eval
    decide +kernel
  obtain ⟨t, hrun, hdone⟩ := hrun
  exact ⟨t, hrun, start_stop_handshake earlyExit t hrun, hdone⟩

end EventLoopThread

end EventServer.Thread
