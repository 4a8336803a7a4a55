import EventServer.Event.DispatcherInvariant

/-!
# The turns of a dispatcher

What the documentation of the dispatcher promises: posted callbacks and
deferred deletions are done in the turn of the loop in which they are asked
for, and an object is not deleted while a callback of the program runs.  For
requests from other threads, and for the length of the wait, there is a bound:
the events that stand in libevent's queue are taken out in their order.
-/

namespace EventServer.Event

open EventServer.Support

namespace Dispatcher

variable {Tid α Obj Task ι : Type} [DecidableEq ι]
  {s t : Dispatcher Tid α Obj Task ι}

/-! ## Nothing is left -/

/-- Outside of the program, without a pending `deferred_delete_cb_`, everything
has been destroyed. -/
theorem Coherent.all_destroyed (h : s.Coherent)
    (hcode : ¬ s.posts.loopPc.RunsUserCode)
    (hlist : .deferred_delete_cb_ ∉ s.workList) :
    s.deletion.destroyed = s.deletion.submitted := by
  have hempty : s.deletion.current = [] := by
    by_contra hne
    exact hlist (h.pending.deferred_iff.mpr (h.ordered.scheduled hne))
  have hwhole := h.ordered.underway_append
  rw [hempty, h.ordered.underway_of_frames (h.clearing hcode)] at hwhole
  simpa using hwhole

/-- Between two events, without a pending `post_cb_` and without a thread
inside `post`, everything has run. -/
theorem Coherent.all_ran (h : s.Coherent) (hbatch : s.posts.loopPc.batch = [])
    (hpc : s.posts.loopPc ≠ .dequeued) (hlist : .post_cb_ ∉ s.workList)
    (hidle : ∀ th, s.posts.posters th = .idle) :
    s.posts.ran = s.posts.pushed := by
  have hempty : s.posts.post_callbacks_ = [] := by
    by_contra hne
    rcases h.sound.awaited hne with hpending | ⟨th, hth⟩ | hdequeued
    · exact hlist (h.pending.post_iff.mpr hpending)
    · exact hth (hidle th)
    · exact hpc hdequeued
  have haccounted := h.sound.accounted
  rw [PostQueue.Accounted, hbatch, hempty] at haccounted
  simpa using haccounted

variable [DecidableEq Tid] {loop : Tid} {a : Action Tid α Obj Task ι}

/-- While the loop's thread runs no code of the program, it is not inside
`post`. -/
theorem own_idle_of_run {actions : List (Action Tid α Obj Task ι)}
    (hrun : run (step loop) create actions = some s) :
    ¬ s.posts.loopPc.RunsUserCode → s.posts.posters loop = .idle := by
  refine run_invariant
    (I := fun u : Dispatcher Tid α Obj Task ι =>
      ¬ u.posts.loopPc.RunsUserCode → u.posts.posters loop = .idle)
    (fun u b v hu hstep => ?_) (fun _ => rfl) hrun
  rcases (step_moves hstep).posts with hsame | ⟨c, hc⟩
  · rw [hsame]
    exact hu
  · exact PostQueue.own_idle_step hu hc

/-! ## Where objects are destroyed -/

/-- A clear in progress was begun by `deferred_delete_cb_`. -/
def ClearsInTurn (s : Dispatcher Tid α Obj Task ι) : Prop :=
  s.deletion.frames ≠ [] → s.running = some .deferred_delete_cb_

/-- During a clear the loop stays in the callback that it is in. -/
theorem running_step (h : s.Coherent) (hstep : step loop s a = some t)
    (hframes : s.deletion.frames ≠ []) : t.running = s.running := by
  rcases (step_moves hstep).running with hsame | rfl | rfl | rfl
  · exact hsame
  · have hpc := PostQueue.callFront_eq_some (callFront_posts hstep).1
    refine absurd (h.clearing ?_) hframes
    rcases hpc with ⟨callback, rest, hpc, -⟩ | ⟨hpc, -⟩
    all_goals rw [hpc]; exact id
  · exact absurd (callbackReturns_posts hstep).1 hframes
  · obtain ⟨-, hpc, -⟩ := runFirst_eq_some hstep
    exact absurd (h.clearing (by rw [hpc]; exact id)) hframes

theorem clearsInTurn_step (h : s.Coherent) (hturn : s.ClearsInTurn)
    (hcall : a ≠ .deferred .clearDeferredDeleteList)
    (hstep : step loop s a = some t) : t.ClearsInTurn := by
  intro hframes
  rcases (step_moves hstep).deletion with hsame | ⟨b, hb, ha⟩
  · rw [hsame] at hframes
    rw [running_step h hstep hframes]
    exact hturn hframes
  · rcases ha with rfl | hrunning
    · have hne : b ≠ .clearDeferredDeleteList := by
        rintro rfl
        exact hcall rfl
      have hbefore := DeferredDelete.frames_of_step h.ordered hb hne
        (deferred_eq_some hstep).1 hframes
      rw [running_step h hstep hbefore]
      exact hturn hbefore
    · exact hrunning

theorem clearsInTurn_of_run {actions : List (Action Tid α Obj Task ι)}
    (hcalls : ∀ b ∈ actions, b ≠ .deferred .clearDeferredDeleteList)
    (hrun : run (step loop) create actions = some s) : s.ClearsInTurn := by
  have hguard : Guarded (step loop)
      (fun _ b => b ≠ .deferred .clearDeferredDeleteList) create actions :=
    (guarded_iff_forall hrun).mpr hcalls
  exact (run_invariant_of_guarded
    (I := fun u : Dispatcher Tid α Obj Task ι => u.Coherent ∧ u.ClearsInTurn)
    (fun u b v hu hb hstep =>
      ⟨step_coherent hu.1 hstep, clearsInTurn_step hu.1 hu.2 hb hstep⟩)
    ⟨create_coherent, fun hne => absurd rfl hne⟩ hguard hrun).2

/-! ## Where the loop ends a turn, waits or returns -/

/-- `deferred_delete_cb_` is not pending. -/
theorem Coherent.ends_destroyed (h : s.Coherent)
    (ha : a = .endIteration ∨ a = .block ∨ a = .leaveRun)
    (hstep : step loop s a = some t) :
    t.deletion.destroyed = t.deletion.submitted := by
  rcases ha with rfl | rfl | rfl
  · obtain ⟨-, hpc, hlist, rfl⟩ := endIteration_eq_some hstep
    exact h.all_destroyed (by rw [hpc]; exact id)
      (by rw [hlist]; exact List.not_mem_nil)
  · obtain ⟨-, -, hlist, posts, hposts, rfl⟩ := block_eq_some hstep
    have hpc := (PostQueue.block_eq_some hposts).1
    exact h.all_destroyed (by rw [hpc]; exact id)
      (by rw [hlist]; exact List.not_mem_nil)
  · obtain ⟨⟨hprocessing, hleave⟩, hstep⟩ :=
      Option.ite_none_right_eq_some.mp hstep
    obtain ⟨posts, hposts, rfl⟩ := Option.map_eq_some_iff.mp hstep
    have hpc := (PostQueue.leaveRun_eq_some hposts).1
    refine h.all_destroyed (by rw [hpc]; exact id) ?_
    -- After `exit()` the queue may hold events, but not this one.
    rcases hleave with hgotterm | hlist
    · have hplaced := h.placed
      rw [hpc] at hplaced
      exact hplaced.2 hprocessing hgotterm
    · rw [hlist]
      exact List.not_mem_nil

/-- The queue is empty, and the posts stay as they are. -/
theorem ends_posts (ha : a = .endIteration ∨ a = .block)
    (hstep : step loop s a = some t) :
    s.posts.loopPc = .looping ∧ s.workList = [] ∧
      t.posts.posters = s.posts.posters ∧ t.posts.ran = s.posts.ran ∧
      t.posts.pushed = s.posts.pushed := by
  rcases ha with rfl | rfl
  · obtain ⟨-, hpc, hlist, rfl⟩ := endIteration_eq_some hstep
    exact ⟨hpc, hlist, rfl, rfl, rfl⟩
  · obtain ⟨-, -, hlist, posts, hposts, rfl⟩ := block_eq_some hstep
    obtain ⟨hpc, -, rfl⟩ := PostQueue.block_eq_some hposts
    exact ⟨hpc, hlist, rfl, rfl, rfl⟩

/-- In every run of a dispatcher: when a turn ends, when libevent waits and
when `run()` returns, every submitted object has been destroyed; when a turn
ends or libevent waits, every posted callback has run unless another thread is
still inside `post`; and unless the program calls `clearDeferredDeleteList`
itself, objects are destroyed inside the callback of `deferred_delete_cb_`
only. -/
theorem turn_leaves_nothing (loop : Tid)
    {actions : List (Action Tid α Obj Task ι)}
    (hrun : run (step loop) create actions = some s)
    (hstep : step loop s a = some t) :
    (a = .endIteration ∨ a = .block ∨ a = .leaveRun →
        t.deletion.destroyed = t.deletion.submitted) ∧
      (a = .endIteration ∨ a = .block →
        (∀ th, th ≠ loop → t.posts.posters th = .idle) →
        t.posts.ran = t.posts.pushed) ∧
      ((∀ b ∈ actions, b ≠ .deferred .clearDeferredDeleteList) →
        t.deletion.destroyed ≠ s.deletion.destroyed →
        t.running = some .deferred_delete_cb_) := by
  have h := coherent_of_run hrun
  refine ⟨fun ha => h.ends_destroyed ha hstep, ?_, ?_⟩
  · intro ha hidle
    obtain ⟨hpc, hlist, hposters, hran, hpushed⟩ := ends_posts ha hstep
    rw [hran, hpushed]
    refine h.all_ran (by rw [hpc]; rfl) (by rw [hpc]; exact nofun)
      (by rw [hlist]; exact List.not_mem_nil) fun th => ?_
    by_cases hth : th = loop
    · rw [hth]
      exact own_idle_of_run hrun (by rw [hpc]; exact id)
    · rw [← hposters]
      exact hidle th hth
  · intro hcalls hdestroyed
    rcases (step_moves hstep).deletion with hsame | ⟨b, hb, ha⟩
    · exact absurd (by rw [hsame]) hdestroyed
    · have hframes :=
        DeferredDelete.frames_of_destroyed h.ordered hb hdestroyed
      rw [running_step h hstep hframes]
      exact clearsInTurn_of_run hcalls hrun hframes

/-- Thread 1 posts before the loop begins.  The posted callback submits an
object in the flush of `run()`, and so does the callback of a timer in the first
turn. -/
def firstTurn : List (Action (Fin 2) ℕ ℕ ℕ ℕ) :=
  [.push 1 10, .testEnabled 1, .activate 1, .enterRun, .takeAll, .callFront,
    .deferred (.deferredDelete (some (.object 5))), .callbackReturns,
    .callFront, .startIteration [7], .runFirst, .takeAll, .callFront,
    .runFirst, .deferred .resetNext, .deferred .destructorReturns,
    .deferred .finishClear, .callbackReturns, .runFirst,
    .deferred (.deferredDelete (some (.object 6))), .callbackReturns]

/-- The second object is destroyed. -/
def secondClear : List (Action (Fin 2) ℕ ℕ ℕ ℕ) :=
  [.runFirst, .deferred .resetNext, .deferred .destructorReturns,
    .deferred .finishClear, .callbackReturns]

theorem turn_leaves_nothing_firstTurn :
    ∃ s t, run (step 0) create (firstTurn ++ secondClear) = some s ∧
      step 0 s .endIteration = some t ∧
      t.deletion.destroyed = [.object 5, .object 6] ∧
      t.deletion.destroyed = t.deletion.submitted ∧
      t.posts.ran = t.posts.pushed := by
  suffices hexists : ∃ s, run (step 0) create (firstTurn ++ secondClear) =
      some s ∧ (step 0 s .endIteration).any (fun t => decide
        (t.deletion.destroyed = [.object 5, .object 6] ∧
          ∀ th, t.posts.posters th = .idle)) = true by
    obtain ⟨s, hrun, hs⟩ := hexists
    obtain ⟨t, hstep, ht⟩ := (Option.any_eq_true _ _).mp hs
    obtain ⟨hdestroyed, hidle⟩ := of_decide_eq_true ht
    obtain ⟨hall, hran, -⟩ := turn_leaves_nothing 0 hrun hstep
    exact ⟨s, t, hrun, hstep, hdestroyed, hall (Or.inl rfl),
      hran (Or.inl rfl) fun th _ => hidle th⟩
  apply exists_run_of_eval
  decide

/-! ## The length of the wait -/

/-- The events of the dispatcher are taken out in the order in which they came
in. -/
theorem begun_step (hstep : step loop s a = some t) :
    (s.begun ++ s.workList).filter ActiveEvent.own <+:
      (t.begun ++ t.workList).filter ActiveEvent.own := by
  rcases (step_moves hstep).workList with
    ⟨hbegun, ⟨new, hlist⟩ | ⟨i, hlist⟩⟩ | ⟨e, -, hlist, hbegun⟩
  · rw [hbegun, hlist, ← List.append_assoc]
    exact (List.prefix_append _ _).filter _
  · rw [hbegun, hlist, List.filter_append, List.filter_append,
      List.filter_filter]
    have hown : (fun e : ActiveEvent ι => e.own && decide (e ≠ .other i)) =
        ActiveEvent.own := by
      funext e
      cases e with
      | other j => rfl
      | _ => simp [ActiveEvent.own]
    rw [hown]
  · rw [hbegun, hlist, List.append_assoc, List.singleton_append]

/-- An event of the dispatcher keeps its turn until it is taken out. -/
theorem inTurn_step {e : ActiveEvent ι} (he : e.own = true) {bound : ℕ}
    (hturn : InTurn s.workList s.begun.length bound e)
    (hstep : step loop s a = some t) :
    InTurn t.workList t.begun.length bound e ∨
      (a = .runFirst ∧ s.workList = e :: t.workList) := by
  rcases (step_moves hstep).workList with
    ⟨hbegun, ⟨new, hlist⟩ | ⟨i, hlist⟩⟩ | ⟨x, ha, hlist, hbegun⟩
  · rw [hbegun, hlist]
    exact Or.inl (hturn.append new)
  · rw [hbegun, hlist]
    refine Or.inl (hturn.filter (decide_eq_true ?_))
    rintro rfl
    cases he
  · by_cases hx : x = e
    · subst hx
      exact Or.inr ⟨ha, hlist⟩
    · rw [hlist] at hturn
      rw [hbegun, List.length_append]
      exact Or.inl (hturn.tail hx)

/-- The objects are being destroyed, or `deferred_delete_cb_` is in turn. -/
def DeletesInTurn (objs : List (DeferredDeletable Obj Task)) (bound : ℕ)
    (s : Dispatcher Tid α Obj Task ι) : Prop :=
  objs <+: s.deletion.submitted ∧
    (objs <+: s.deletion.underway ∨
      InTurn s.workList s.begun.length bound .deferred_delete_cb_)

omit [DecidableEq Tid] in
theorem deletesInTurn_self (h : s.Coherent) :
    DeletesInTurn s.deletion.submitted
      (s.begun.length + s.workList.length) s := by
  refine ⟨List.prefix_rfl, ?_⟩
  by_cases hempty : s.deletion.current = []
  · have hwhole := h.ordered.underway_append
    rw [hempty, List.filterMap_nil, List.append_nil] at hwhole
    exact Or.inl (hwhole ▸ List.prefix_rfl)
  · exact Or.inr (inTurn_of_mem
      (h.pending.deferred_iff.mpr (h.ordered.scheduled hempty)))

theorem deletesInTurn_step {objs : List (DeferredDeletable Obj Task)}
    {bound : ℕ} (h : s.Coherent) (hturn : DeletesInTurn objs bound s)
    (hstep : step loop s a = some t) : DeletesInTurn objs bound t := by
  have hgrows : s.deletion.underway <+: t.deletion.underway ∧
      s.deletion.submitted <+: t.deletion.submitted := by
    rcases (step_moves hstep).deletion with hsame | ⟨b, hb, -⟩
    · rw [hsame]
      exact ⟨List.prefix_rfl, List.prefix_rfl⟩
    · exact DeferredDelete.step_grows h.ordered hb
  refine ⟨hturn.1.trans hgrows.2, ?_⟩
  rcases hturn.2 with hunderway | hwaiting
  · exact Or.inl (hunderway.trans hgrows.1)
  · rcases inTurn_step rfl hwaiting hstep with hstill | ⟨rfl, hlist⟩
    · exact Or.inr hstill
    · -- `deferred_delete_cb_` is taken out, and its callback clears.
      obtain ⟨-, -, e, hfirst, -, -, hcases⟩ := runFirst_eq_some hstep
      obtain ⟨rfl, -⟩ := List.cons.inj (hlist.symm.trans hfirst)
      obtain ⟨hfalse, -⟩ | ⟨-, -, hfire, -⟩ | ⟨hfalse, -⟩ | ⟨i, hfalse, -⟩ :=
        hcases
      · cases hfalse
      · obtain ⟨-, -, hunderway, -⟩ :=
          DeferredDelete.fire_underway h.ordered hfire
        rw [hunderway]
        exact Or.inl (hturn.1.trans hgrows.2)
      · cases hfalse
      · cases hfalse

/-- The callbacks are being run, will be taken next, or `post_cb_` is in
turn. -/
def RunsInTurn (callbacks : List α) (bound : ℕ)
    (s : Dispatcher Tid α Obj Task ι) : Prop :=
  callbacks <+: s.posts.pushed ∧
    (callbacks <+: s.posts.handled ∨ s.posts.loopPc = .dequeued ∨
      InTurn s.workList s.begun.length bound .post_cb_)

omit [DecidableEq Tid] in
theorem runsInTurn_self (h : s.Coherent)
    (hidle : ∀ th, s.posts.posters th = .idle) :
    RunsInTurn s.posts.pushed (s.begun.length + s.workList.length) s := by
  refine ⟨List.prefix_rfl, ?_⟩
  by_cases hempty : s.posts.post_callbacks_ = []
  · have haccounted := h.sound.accounted
    rw [PostQueue.Accounted, hempty, List.append_nil] at haccounted
    exact Or.inl (haccounted ▸ List.prefix_rfl)
  · rcases h.sound.awaited hempty with hpending | ⟨th, hth⟩ | hdequeued
    · exact Or.inr (Or.inr (inTurn_of_mem (h.pending.post_iff.mpr hpending)))
    · exact absurd (hidle th) hth
    · exact Or.inr (Or.inl hdequeued)

theorem runsInTurn_step {callbacks : List α} {bound : ℕ} (h : s.Coherent)
    (hturn : RunsInTurn callbacks bound s)
    (hstep : step loop s a = some t) : RunsInTurn callbacks bound t := by
  have hgrows : s.posts.handled <+: t.posts.handled ∧
      s.posts.pushed <+: t.posts.pushed := by
    rcases (step_moves hstep).posts with hsame | ⟨b, hb⟩
    · rw [hsame]
      exact ⟨List.prefix_rfl, List.prefix_rfl⟩
    · exact PostQueue.step_grows hb
  refine ⟨hturn.1.trans hgrows.2, ?_⟩
  rcases hturn.2 with hhandled | hdequeued | hwaiting
  · exact Or.inl (hhandled.trans hgrows.1)
  · -- Nothing but taking the list leads on from here.
    rcases (step_moves hstep).posts with hsame | ⟨b, hb⟩
    · exact Or.inr (Or.inl (hsame ▸ hdequeued))
    · rcases PostQueue.dequeued_step h.sound hdequeued hb with hstill | htaken
      · exact Or.inr (Or.inl hstill)
      · rw [htaken]
        exact Or.inl (hturn.1.trans hgrows.2)
  · rcases inTurn_step rfl hwaiting hstep with hstill | ⟨rfl, hlist⟩
    · exact Or.inr (Or.inr hstill)
    · obtain ⟨-, -, e, hfirst, -, -, hcases⟩ := runFirst_eq_some hstep
      obtain ⟨rfl, -⟩ := List.cons.inj (hlist.symm.trans hfirst)
      obtain ⟨-, hposts, -⟩ | ⟨hfalse, -⟩ | ⟨hfalse, -⟩ | ⟨i, hfalse, -⟩ :=
        hcases
      · obtain ⟨-, post_cb, -, ht⟩ := PostQueue.dequeue_eq_some hposts
        exact Or.inr (Or.inl (by rw [ht]))
      · cases hfalse
      · cases hfalse
      · cases hfalse

/-- In every run of a dispatcher its own events are taken out of libevent's
queue in the order in which they came in.  Take a state with `n` active events.
As soon as `n` further events have been taken out and done, the objects that
had been submitted by then have been destroyed, before all later ones; and so
have the callbacks been run that had been posted by then, if no thread was
inside `post`. -/
theorem requests_in_turn (loop : Tid)
    {actions later : List (Action Tid α Obj Task ι)}
    (hrun : run (step loop) create actions = some s)
    (hlater : run (step loop) s later = some t) :
    (s.begun ++ s.workList).filter ActiveEvent.own <+:
        (t.begun ++ t.workList).filter ActiveEvent.own ∧
      (t.posts.loopPc = .looping →
        s.begun.length + s.workList.length ≤ t.begun.length →
        s.deletion.submitted <+: t.deletion.destroyed ∧
          ((∀ th, s.posts.posters th = .idle) →
            s.posts.pushed <+: t.posts.ran)) := by
  have h := coherent_of_run hrun
  constructor
  · exact run_invariant
      (I := fun u : Dispatcher Tid α Obj Task ι =>
        (s.begun ++ s.workList).filter ActiveEvent.own <+:
          (u.begun ++ u.workList).filter ActiveEvent.own)
      (fun u b v hu hstep => hu.trans (begun_step hstep)) List.prefix_rfl hlater
  intro hpc hcount
  have hpassed (e : ActiveEvent ι) : ¬ InTurn t.workList t.begun.length
      (s.begun.length + s.workList.length) e :=
    fun hturn => absurd hturn.lt (by omega)
  have ht : t.Coherent := coherent_of_run (run_append hrun hlater)
  constructor
  · obtain ⟨-, hdeletes⟩ := (run_invariant
      (I := fun u : Dispatcher Tid α Obj Task ι => u.Coherent ∧
        DeletesInTurn s.deletion.submitted
          (s.begun.length + s.workList.length) u)
      (fun u b v hu hstep => ⟨step_coherent hu.1 hstep,
        deletesInTurn_step hu.1 hu.2 hstep⟩)
      ⟨h, deletesInTurn_self h⟩ hlater).2
    have hunderway := hdeletes.resolve_right (hpassed _)
    rwa [ht.ordered.underway_of_frames
      (ht.clearing (by rw [hpc]; exact id))] at hunderway
  · intro hidle
    obtain ⟨-, hruns⟩ := (run_invariant
      (I := fun u : Dispatcher Tid α Obj Task ι => u.Coherent ∧
        RunsInTurn s.posts.pushed (s.begun.length + s.workList.length) u)
      (fun u b v hu hstep => ⟨step_coherent hu.1 hstep,
        runsInTurn_step hu.1 hu.2 hstep⟩)
      ⟨h, runsInTurn_self h hidle⟩ hlater).2
    rcases hruns with hhandled | hdequeued | hwaiting
    · rw [PostQueue.handled, hpc] at hhandled
      simpa [PostLoopPc.batch] using hhandled
    · rw [hpc] at hdequeued
      cases hdequeued
    · exact absurd hwaiting (hpassed _)

theorem requests_in_turn_firstTurn :
    ∃ s t, run (step 0) create firstTurn = some s ∧
      run (step 0) s secondClear = some t ∧
      s.workList = [.deferred_delete_cb_] ∧
      s.deletion.submitted <+: t.deletion.destroyed ∧
      s.posts.pushed <+: t.posts.ran := by
  suffices hexists : ∃ s, run (step 0) create firstTurn = some s ∧
      s.workList = [.deferred_delete_cb_] ∧
      (∀ th, s.posts.posters th = .idle) ∧
      (run (step 0) s secondClear).any (fun t => decide
        (t.posts.loopPc = .looping ∧
          s.begun.length + s.workList.length ≤ t.begun.length)) = true by
    obtain ⟨s, hrun, hlist, hidle, hs⟩ := hexists
    obtain ⟨t, hlater, ht⟩ := (Option.any_eq_true _ _).mp hs
    obtain ⟨hpc, hcount⟩ := of_decide_eq_true ht
    obtain ⟨hdestroyed, hran⟩ := (requests_in_turn 0 hrun hlater).2 hpc hcount
    exact ⟨s, t, hrun, hlater, hlist, hdestroyed, hran hidle⟩
  apply exists_run_of_eval
  decide

end Dispatcher

end EventServer.Event
