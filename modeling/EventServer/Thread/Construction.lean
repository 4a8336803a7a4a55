import EventServer.Thread.Handshake

/-!
# Constructing an `EventLoopThread`

The members are constructed in the order of their declaration, and `thread_`
is the third of eight.  From then on the worker runs beside the constructor,
and nothing makes it wait before it uses the members that follow `thread_`.

What the worker uses after its wait for `promiseForRun_` is always there,
since `run()` cannot be called before the constructor has returned.  The three
uses before this wait are safe on exactly those schedules on which the
constructor has come far enough.
-/

namespace EventServer.Thread

open EventServer.Support

/-- The place of a member in the order of construction. -/
def Member.index : Member → ℕ
  | .loop_ => 0
  | .loopMutex_ => 1
  | .thread_ => 2
  | .loopThreadName_ => 3
  | .promiseForLoopPointer_ => 4
  | .promiseForRun_ => 5
  | .promiseForLoop_ => 6
  | .once_ => 7

theorem Member.index_lt (m : Member) : m.index < 8 := by
  cases m
  all_goals decide

namespace EventLoopThread

/-! ## Schedules -/

/-- How many members have to be constructed before the worker takes its step
with this number, counted from zero. -/
def membersNeeded : ℕ → ℕ
  | 0 => 4
  | 3 => 5
  | 4 => 6
  | _ => 0

/-- After `o` steps of the owner and `w` steps of the worker, the schedule lets
the worker take its steps only when the owner has come far enough. -/
def BenignFrom (o w : ℕ) (schedule : List Action) : Prop :=
  ∀ before after, schedule = before ++ .worker :: after →
    membersNeeded (w + before.count .worker) ≤ o + before.count .owner

/-- The constructor has constructed `loopThreadName_` before the first step of
the worker, `promiseForLoopPointer_` before its fourth one, and
`promiseForRun_` before its fifth one. -/
def Benign (schedule : List Action) : Prop := BenignFrom 0 0 schedule

theorem benignFrom_nil (o w : ℕ) : BenignFrom o w [] := by
  intro before after heq
  simp at heq

theorem benignFrom_cons {o w : ℕ} {a : Action} {rest : List Action} :
    BenignFrom o w (a :: rest) ↔
      (a = .worker → membersNeeded w ≤ o) ∧
        BenignFrom (o + [a].count .owner) (w + [a].count .worker) rest := by
  constructor
  · intro h
    constructor
    · rintro rfl
      simpa using h [] rest rfl
    · intro before after heq
      have := h (a :: before) after (by rw [heq]; rfl)
      rwa [← List.singleton_append, List.count_append, List.count_append,
        ← Nat.add_assoc, ← Nat.add_assoc] at this
  · rintro ⟨hhead, htail⟩ before after heq
    cases before with
    | nil =>
        obtain ⟨rfl, -⟩ := List.cons.inj heq
        simpa using hhead rfl
    | cons b before =>
        obtain ⟨rfl, hrest⟩ := List.cons.inj heq
        have := htail before after hrest
        rwa [← List.singleton_append, List.count_append, List.count_append,
          ← Nat.add_assoc, ← Nat.add_assoc]

/-! ## How far the threads are -/

theorem mem_declared_take {m : Member} {k : ℕ} :
    m ∈ Member.declared.take k ↔ m.index < k := by
  cases m
  all_goals rcases k with _ | _ | _ | _ | _ | _ | _ | _ | k
  all_goals simp [Member.declared, Member.index]

/-- The worker is in this position after `w` steps; the positions behind the
first five steps are not told apart. -/
def WorkerAt : WorkerPc → ℕ → Prop
  | .notStarted, w | .setName, w => w = 0
  | .makeLoop, w => w = 1
  | .post, w => w = 2
  | .setPointer, w => w = 3
  | .getFuture, w => w = 4
  | _, w => 5 ≤ w

/-- The owner has taken `o` steps and the worker `w`; the positions of the
owner behind the members are not told apart. -/
structure Position (s : EventLoopThread) (o w : ℕ) : Prop where
  constructing : ∀ k, s.owner = .constructing k → o = k
  constructed : (∀ k, s.owner ≠ .constructing k) → 8 ≤ o
  worker : WorkerAt s.worker w

theorem start_position : start.Position 0 0 := by
  refine ⟨?_, ?_, rfl⟩
  · intro k hk
    cases hk
    rfl
  · intro hnot
    exact absurd rfl (hnot 0)

theorem Position.mem_constructed {s : EventLoopThread} {o w : ℕ}
    (hpos : s.Position o w) (m : Member) :
    m ∈ s.constructed ↔ m.index < o := by
  by_cases hconstructing : ∃ k, s.owner = .constructing k
  · obtain ⟨k, hk⟩ := hconstructing
    rw [hpos.constructing k hk]
    simp only [EventLoopThread.constructed, hk]
    exact mem_declared_take
  · have hall : m ∈ Member.declared := by
      cases m
      all_goals decide
    have hindex := m.index_lt
    have hmany := hpos.constructed (fun k hk => hconstructing ⟨k, hk⟩)
    have hmem : m ∈ s.constructed := by
      unfold EventLoopThread.constructed
      split
      next k hk => exact absurd ⟨k, hk⟩ hconstructing
      next => exact hall
    exact iff_of_true hmem (by omega)

theorem usesConstructed_of_none {s : EventLoopThread}
    (hnone : s.worker.uses = none) : s.UsesConstructed := by
  intro m hm
  rw [hnone] at hm
  cases hm

theorem Position.usesConstructed_iff_index {s : EventLoopThread} {o w : ℕ}
    (hpos : s.Position o w) {m : Member} (hm : s.worker.uses = some m) :
    s.UsesConstructed ↔ m.index < o := by
  rw [← hpos.mem_constructed]
  constructor
  · intro huse
    exact huse m hm
  · intro hmem other hother
    rw [hm] at hother
    cases hother
    exact hmem

/-- Inside the dispatcher the constructor has returned. -/
theorem Position.usesConstructed_late {s : EventLoopThread} {o w : ℕ}
    (h : s.Handshake) (hpos : s.Position o w)
    (hentered : s.worker.hasEnteredRun = true) (hmany : 5 ≤ w) :
    s.UsesConstructed ↔ membersNeeded w ≤ o := by
  have hbuilt := h.built_of_entered hentered
  have hall : 8 ≤ o := by
    apply hpos.constructed
    intro k hk
    rw [hk] at hbuilt
    cases hbuilt
  have hneeded : membersNeeded w = 0 := by
    obtain ⟨n, rfl⟩ := Nat.exists_eq_add_of_le' hmany
    rfl
  refine iff_of_true ?_ (by omega)
  intro m _
  rw [hpos.mem_constructed]
  exact lt_of_lt_of_le m.index_lt hall

/-- The next step of the worker finds its member exactly when the owner has
come far enough. -/
theorem Position.usesConstructed_iff {s : EventLoopThread} {o w : ℕ}
    (h : s.Handshake) (hpos : s.Position o w)
    (hstarted : s.worker ≠ .notStarted) :
    s.UsesConstructed ↔ membersNeeded w ≤ o := by
  have hw := hpos.worker
  cases hpc : s.worker with
  | notStarted => exact absurd hpc hstarted
  | setName =>
      rw [hpc] at hw
      cases hw
      exact hpos.usesConstructed_iff_index (m := .loopThreadName_)
        (by rw [hpc]; rfl)
  | makeLoop | post =>
      rw [hpc] at hw
      cases hw
      exact iff_of_true (usesConstructed_of_none (by rw [hpc]; rfl))
        (Nat.zero_le _)
  | setPointer =>
      rw [hpc] at hw
      cases hw
      exact hpos.usesConstructed_iff_index (m := .promiseForLoopPointer_)
        (by rw [hpc]; rfl)
  | getFuture =>
      rw [hpc] at hw
      cases hw
      exact hpos.usesConstructed_iff_index (m := .promiseForRun_)
        (by rw [hpc]; rfl)
  | waitRun =>
      rw [hpc] at hw
      obtain ⟨n, rfl⟩ := Nat.exists_eq_add_of_le' hw
      exact iff_of_true (usesConstructed_of_none (by rw [hpc]; rfl))
        (Nat.zero_le _)
  | _ =>
      rw [hpc] at hw
      exact hpos.usesConstructed_late h (by rw [hpc]; rfl) hw

/-! ## One step -/

section Steps

variable {s t : EventLoopThread} {o w : ℕ}

theorem Position.move (hpos : s.Position o w) {w' : ℕ}
    (howner : t.owner = s.owner) (hworker : WorkerAt t.worker w') :
    t.Position o w' := by
  refine ⟨?_, ?_, hworker⟩
  · rw [howner]
    exact hpos.constructing
  · rw [howner]
    exact hpos.constructed

/-- A step that moves neither the owner nor the worker. -/
theorem Position.frame (hpos : s.Position o w)
    (hframe : t.owner = s.owner ∧ t.worker = s.worker) : t.Position o w :=
  hpos.move hframe.1 (by rw [hframe.2]; exact hpos.worker)

theorem attempt_frame {r : Except (ThreadFault Member) Promise}
    {next : Promise → EventLoopThread}
    (hnext : ∀ p, (next p).owner = s.owner ∧ (next p).worker = s.worker) :
    (s.attempt r next).owner = s.owner ∧
      (s.attempt r next).worker = s.worker := by
  cases r with
  | ok p => exact hnext p
  | error fault => exact ⟨rfl, rfl⟩

theorem runStep_frame {th : ThreadId} (hstep : s.runStep th = some t) :
    t.owner = s.owner ∧ t.worker = s.worker := by
  unfold runStep at hstep
  split at hstep
  swap
  · cases hstep
  split at hstep
  · cases hstep
    exact ⟨rfl, rfl⟩
  · cases hstep
    exact ⟨rfl, rfl⟩
  · split at hstep
    swap
    · cases hstep
    split at hstep
    · cases hstep
      exact attempt_frame fun p => ⟨rfl, rfl⟩
    · cases hstep
      exact attempt_frame fun p => ⟨rfl, rfl⟩
    · split at hstep
      · cases hstep
        exact ⟨rfl, rfl⟩
      · cases hstep
    · cases hstep
      exact ⟨rfl, rfl⟩

/-- Behind the members the owner never constructs another one. -/
theorem ownerStep_frame (hbuilt : ∀ k, s.owner ≠ .constructing k)
    (hstep : s.ownerStep = some t) :
    (∀ k, t.owner ≠ .constructing k) ∧ t.worker = s.worker := by
  unfold EventLoopThread.ownerStep at hstep
  split at hstep
  · cases hstep
  cases hpc : s.owner with
  | constructing k => exact absurd hpc (hbuilt k)
  | getFuture =>
      simp only [hpc] at hstep
      cases hstep
      cases s.promiseForLoopPointer_.getFuture with
      | ok p => exact ⟨by simp, rfl⟩
      | error fault => exact ⟨hbuilt, rfl⟩
  | waitPointer | lock | join =>
      simp only [hpc] at hstep
      split at hstep
      · cases hstep
        exact ⟨by simp, rfl⟩
      · cases hstep
  | copy | unlock loop | exitLoop loop =>
      simp only [hpc] at hstep
      cases hstep
      exact ⟨by simp, rfl⟩
  | alive | destroyed => simp [hpc] at hstep

theorem Position.ownerStep (h : s.Handshake) (hpos : s.Position o w)
    (hstep : s.ownerStep = some t) : t.Position (o + 1) w := by
  by_cases hconstructing : ∃ k, s.owner = .constructing k
  swap
  · have hbuilt : ∀ k, s.owner ≠ .constructing k :=
      fun k hk => hconstructing ⟨k, hk⟩
    obtain ⟨hbuilt', hworker⟩ := ownerStep_frame hbuilt hstep
    have hmany := hpos.constructed hbuilt
    refine ⟨fun k hk => absurd hk (hbuilt' k), fun _ => by omega, ?_⟩
    rw [hworker]
    exact hpos.worker
  obtain ⟨k, hk⟩ := hconstructing
  have ho := hpos.constructing k hk
  subst ho
  unfold EventLoopThread.ownerStep at hstep
  split at hstep
  · cases hstep
  simp only [hk] at hstep
  cases hstep
  refine ⟨?_, ?_, ?_⟩
  · intro k hk'
    by_cases hlast : o + 1 < Member.declared.length
    · rw [if_pos hlast] at hk'
      exact OwnerPc.constructing.inj hk'
    · rw [if_neg hlast] at hk'
      cases hk'
  · intro hnot
    by_contra hfew
    have hlast : o + 1 < Member.declared.length := not_le.mp hfew
    exact hnot (o + 1) (if_pos hlast)
  · by_cases hthread : Member.declared[o]? = some .thread_
    · have hstarted := h.started
      rw [hk, Member.declared_thread.mp hthread] at hstarted
      have hworker := hpos.worker
      rw [WorkerPc.isStarted_eq_false.mp hstarted] at hworker
      simp only [if_pos hthread]
      exact hworker
    · simp only [if_neg hthread]
      exact hpos.worker

theorem Position.destroy (hpos : s.Position o w)
    (hstep : s.destroy = some t) : t.Position o w := by
  unfold EventLoopThread.destroy at hstep
  split at hstep
  next halive =>
    cases hstep
    have hbuilt : ∀ k, s.owner ≠ .constructing k := by simp [halive.1]
    exact ⟨by simp, fun _ => hpos.constructed hbuilt, hpos.worker⟩
  next => cases hstep

theorem Position.workerStep (h : s.Handshake) (hpos : s.Position o w)
    (hstep : s.workerStep = some t) (huse : s.UsesConstructed) :
    t.Position o (w + 1) := by
  unfold EventLoopThread.workerStep at hstep
  split at hstep
  · cases hstep
  have hw := hpos.worker
  cases hpc : s.worker with
  | notStarted => simp [hpc] at hstep
  | setName =>
      simp only [hpc] at hstep
      rw [use_of (huse _ (by rw [hpc]; rfl))] at hstep
      cases hstep
      rw [hpc] at hw
      cases hw
      exact hpos.move rfl rfl
  | makeLoop | post =>
      simp only [hpc] at hstep
      cases hstep
      rw [hpc] at hw
      cases hw
      exact hpos.move rfl rfl
  | setPointer =>
      have hnew : s.promiseForLoopPointer_.satisfied = false := by
        rw [h.pointer_value, hpc]
        rfl
      simp only [hpc, Promise.setValue_of hnew, attempt_ok] at hstep
      rw [use_of (huse _ (by rw [hpc]; rfl))] at hstep
      cases hstep
      rw [hpc] at hw
      cases hw
      exact hpos.move rfl rfl
  | getFuture =>
      have hnew : s.promiseForRun_.retrieved = false := by
        rw [h.run_future, hpc]
        rfl
      simp only [hpc, Promise.getFuture_of hnew, attempt_ok] at hstep
      rw [use_of (huse _ (by rw [hpc]; rfl))] at hstep
      cases hstep
      rw [hpc] at hw
      cases hw
      exact hpos.move rfl (le_refl 5)
  | waitRun | loop =>
      simp only [hpc] at hstep
      split at hstep
      · cases hstep
        rw [hpc] at hw
        exact hpos.move rfl (Nat.le_succ_of_le hw)
      · cases hstep
  | flush =>
      simp only [hpc] at hstep
      cases hstep
      rw [hpc] at hw
      exact hpos.move rfl (Nat.le_succ_of_le hw)
  | callbacks batch =>
      rw [hpc] at hw
      have hlate : 5 ≤ w + 1 := Nat.le_succ_of_le hw
      rcases batch with _ | ⟨cb, rest⟩
      · simp only [hpc] at hstep
        cases hstep
        exact hpos.move rfl hlate
      · cases cb with
        | ready =>
            simp only [hpc] at hstep
            rw [use_of (huse _ (by rw [hpc]; rfl))] at hstep
            cases hstep
            cases s.promiseForLoop_.setValue with
            | ok p => exact hpos.move rfl hlate
            | error fault =>
                refine hpos.move rfl ?_
                change WorkerAt s.worker (w + 1)
                rw [hpc]
                exact hlate
        | callsRun | other =>
            simp only [hpc] at hstep
            cases hstep
            exact hpos.move rfl hlate
  | lock =>
      simp only [hpc] at hstep
      split at hstep
      · rw [use_of (huse _ (by rw [hpc]; rfl))] at hstep
        cases hstep
        rw [hpc] at hw
        exact hpos.move rfl (Nat.le_succ_of_le hw)
      · cases hstep
  | exitLoop =>
      simp only [hpc] at hstep
      rw [use_of (huse _ (by rw [hpc]; rfl))] at hstep
      cases hstep
      rw [hpc] at hw
      split
      · exact hpos.move rfl (Nat.le_succ_of_le hw)
      · exact hpos.move rfl (Nat.le_succ_of_le hw)
  | unlock =>
      simp only [hpc] at hstep
      rw [use_of (huse _ (by rw [hpc]; rfl))] at hstep
      cases hstep
      rw [hpc] at hw
      exact hpos.move rfl (Nat.le_succ_of_le hw)
  | done => simp [hpc] at hstep

/-- One step of any thread. -/
theorem Position.step (h : s.Handshake) (hpos : s.Position o w) {a : Action}
    (hstep : s.step a = some t) (huse : a = .worker → s.UsesConstructed) :
    t.Position (o + [a].count .owner) (w + [a].count .worker) := by
  simp only [EventLoopThread.step, h.no_fault, if_true] at hstep
  cases a with
  | owner => exact hpos.ownerStep h hstep
  | destroy => exact hpos.destroy hstep
  | worker => exact hpos.workerStep h hstep (huse rfl)
  | runPostCallbacks =>
      simp only [EventLoopThread.runPostCallbacks] at hstep
      split at hstep
      next hloop =>
        cases hstep
        have hw := hpos.worker
        rw [hloop.1] at hw
        exact hpos.move rfl hw
      next => cases hstep
  | run th => exact hpos.frame (runStep_frame hstep)
  | callRun th =>
      simp only [EventLoopThread.callRun] at hstep
      split at hstep
      · cases hstep
        exact hpos.frame ⟨rfl, rfl⟩
      · cases hstep
  | post cb =>
      simp only [EventLoopThread.post] at hstep
      split at hstep
      · cases hstep
        exact hpos.frame ⟨rfl, rfl⟩
      · cases hstep
  | exitLoop =>
      simp only [EventLoopThread.exitLoop] at hstep
      split at hstep
      · cases hstep
        exact hpos.frame ⟨rfl, rfl⟩
      · cases hstep

/-- The worker uses a member that is not there yet. -/
theorem workerStep_early (hstep : s.workerStep = some t)
    (huse : ¬ s.UsesConstructed) : ∃ m, t.fault = some (.earlyUse m) := by
  obtain ⟨m, huses⟩ := not_forall.mp huse
  obtain ⟨hm, hmissing⟩ := Classical.not_imp.mp huses
  refine ⟨m, ?_⟩
  have hearly : ∀ next, (s.use m next).fault = some (.earlyUse m) := by
    intro next
    simp [EventLoopThread.use, hmissing]
  unfold EventLoopThread.workerStep at hstep
  split at hstep
  · cases hstep
  cases hpc : s.worker with
  | setName | setPointer | getFuture | exitLoop | unlock =>
      rw [hpc] at hm
      cases hm
      simp only [hpc] at hstep
      cases hstep
      exact hearly _
  | lock =>
      rw [hpc] at hm
      cases hm
      simp only [hpc] at hstep
      split at hstep
      · cases hstep
        exact hearly _
      · cases hstep
  | callbacks batch =>
      rw [hpc] at hm
      rcases batch with _ | ⟨cb, rest⟩
      · cases hm
      · cases cb with
        | ready =>
            cases hm
            simp only [hpc] at hstep
            cases hstep
            exact hearly _
        | callsRun | other => cases hm
  | _ =>
      rw [hpc] at hm
      cases hm

end Steps

/-! ## Runs -/

theorem no_early_use_iff {s t : EventLoopThread} {o w : ℕ}
    {schedule : List Action} (h : s.Handshake) (hpos : s.Position o w)
    (hrun : run step s schedule = some t) :
    (∀ m, t.fault ≠ some (.earlyUse m)) ↔ BenignFrom o w schedule := by
  induction schedule generalizing s o w with
  | nil =>
      have heq : s = t := by simpa using hrun
      subst heq
      exact iff_of_true (by simp [h.no_fault]) (benignFrom_nil o w)
  | cons a rest ih =>
      obtain ⟨next, hstep, hrest⟩ := run_cons_eq_some_iff.mp hrun
      have hneeds : a = .worker → (s.UsesConstructed ↔ membersNeeded w ≤ o) := by
        rintro rfl
        apply hpos.usesConstructed_iff h
        intro hnot
        simp [step, h.no_fault, workerStep, hnot] at hstep
      rw [benignFrom_cons]
      by_cases huse : a = .worker → s.UsesConstructed
      · rw [ih (h.step hstep huse) (hpos.step h hstep huse) hrest]
        exact (and_iff_right fun ha => (hneeds ha).mp (huse ha)).symm
      · -- the program has ended, so this was the last step
        obtain ⟨ha, hearly⟩ := Classical.not_imp.mp huse
        have hfault : ∃ m, next.fault = some (.earlyUse m) := by
          subst ha
          simp only [step, h.no_fault, if_true] at hstep
          exact workerStep_early hstep hearly
        obtain ⟨m, hm⟩ := hfault
        have hlast : next = t := by
          cases rest with
          | nil => simpa using hrest
          | cons b rest =>
              obtain ⟨other, hother, -⟩ := run_cons_eq_some_iff.mp hrest
              simp [step, hm] at hother
        subst hlast
        constructor
        · intro hnone
          exact absurd hm (hnone m)
        · rintro ⟨hfirst, -⟩
          exact absurd ((hneeds ha).mpr (hfirst ha)) hearly

/-- The worker never uses a member before its construction exactly on the
benign schedules. -/
theorem no_early_use_iff_benign (schedule : List Action)
    (t : EventLoopThread) (hrun : run step start schedule = some t) :
    (∀ m, t.fault ≠ some (.earlyUse m)) ↔ Benign schedule :=
  no_early_use_iff start_handshake start_position hrun

/-- The worker starts when four members are there, and its later steps follow
the constructor closely. -/
def closeSchedule : List Action :=
  [.owner, .owner, .owner, .owner, .worker, .worker, .worker, .owner, .worker,
    .owner, .worker, .owner, .owner, .owner, .owner]

theorem no_early_use_of_closeSchedule :
    ∃ t, run step start closeSchedule = some t ∧
      ((∀ m, t.fault ≠ some (.earlyUse m)) ↔ Benign closeSchedule) ∧
      t.fault = none ∧ t.owner = .alive := by
  have hrun : ∃ t, run step start closeSchedule = some t ∧
      (t.fault = none ∧ t.owner = .alive) := by
    apply exists_run_of_eval
    decide +kernel
  obtain ⟨t, hrun, hdone⟩ := hrun
  exact ⟨t, hrun, no_early_use_iff_benign closeSchedule t hrun, hdone⟩

/-- The worker takes its first step right after the construction of
`thread_`: it names itself by a string that does not exist yet. -/
theorem worker_overtakes_constructor :
    ∃ t, run step start [.owner, .owner, .owner, .worker] = some t ∧
      t.fault = some (.earlyUse .loopThreadName_) := by
  apply exists_run_of_eval
  decide +kernel

end EventLoopThread

end EventServer.Thread
