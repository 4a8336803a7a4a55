import EventServer.Event.DispatcherTurns

/-!
# Progress of a dispatcher

A turn of the loop comes to its end.  From every state of a turn the loop's
thread can go on by itself, if only the callbacks and destructors of the program
return, and it gets to the end of the turn when they make no further requests.
Each of its steps lowers the work that is left.
-/

namespace EventServer.Event

open EventServer.Support

namespace Dispatcher

variable {Tid α Obj Task ι : Type} {loop : Tid}
  {s t : Dispatcher Tid α Obj Task ι} {a : Action Tid α Obj Task ι}

/-- A step by which the loop's thread goes on without a new request. -/
def Action.Completes (loop : Tid) : Action Tid α Obj Task ι → Prop
  | .testEnabled th | .activate th => th = loop
  | .deferred .resetNext | .deferred .destructorReturns
  | .deferred .finishClear => True
  | .takeAll | .callFront | .callbackReturns | .runFirst | .endIteration => True
  | _ => False

/-! ## The work that is left -/

/-- The steps from a place to the next event. -/
def placeWork : PostLoopPc α → ℕ
  | .outside | .flushing | .blocked | .looping => 0
  | .otherEvent => 1
  | .dequeued => 2
  | .draining rest => 2 * rest.length + 1
  | .calling rest => 2 * rest.length + 2

/-- A `post` that is not finished may put an event into the queue. -/
def posterWork : PosterPc → ℕ
  | .idle => 0
  | .activating => 7
  | .scheduling => 8

/-- The steps to the end of the turn: an event costs at most six, apart from
the callbacks and the objects that are waiting. -/
def turnWork (loop : Tid) (s : Dispatcher Tid α Obj Task ι) : ℕ :=
  6 * s.workList.length + posterWork (s.posts.posters loop) +
    2 * s.posts.post_callbacks_.length + s.deletion.clearWork +
    placeWork s.posts.loopPc

/-- No event of the dispatcher is among libevent's timers. -/
def Untimed (s : Dispatcher Tid α Obj Task ι) : Prop :=
  s.posts.post_cb_.raw_event_ ≠ .timed ∧
    s.deletion.deferred_delete_cb_.raw_event_ ≠ .timed

variable [DecidableEq Tid] [DecidableEq ι]

theorem untimed_step (h : s.Coherent) (huntimed : s.Untimed)
    (hstep : step loop s a = some t) : t.Untimed := by
  constructor
  · rcases (step_moves hstep).posts with hsame | ⟨b, hb⟩
    · rw [hsame]
      exact huntimed.1
    · exact PostQueue.untimed_step huntimed.1 hb
  · rcases (step_moves hstep).deletion with hsame | ⟨b, hb, -⟩
    · rw [hsame]
      exact huntimed.2
    · exact DeferredDelete.untimed_step h.ordered huntimed.2 hb

theorem untimed_of_run {actions : List (Action Tid α Obj Task ι)}
    (hrun : run (step loop) create actions = some s) : s.Untimed :=
  (run_invariant
    (I := fun u : Dispatcher Tid α Obj Task ι => u.Coherent ∧ u.Untimed)
    (fun _ _ _ hu hstep =>
      ⟨step_coherent hu.1 hstep, untimed_step hu.1 hu.2 hstep⟩)
    ⟨create_coherent, nofun, nofun⟩ hrun).2

/-! ## A step can always be taken -/

/-- There is a step that goes on with the turn. -/
def GoesOn (loop : Tid) (s : Dispatcher Tid α Obj Task ι) : Prop :=
  ∃ a t, a.Completes loop ∧ step loop s a = some t ∧ t.processing = true ∧
    turnWork loop t < turnWork loop s

theorem goesOn_of_poster (hprocessing : s.processing = true)
    (hplaced : s.PlacedAt s.posts.loopPc)
    (hposter : s.posts.posters loop ≠ .idle) : GoesOn loop s := by
  cases hpc : s.posts.posters loop with
  | idle => exact absurd hpc hposter
  | scheduling =>
      have hstep : s.posts.testEnabled loop = some { s.posts with
          posters := Function.update s.posts.posters loop
            (if s.posts.post_cb_.enabled then .idle else .activating) } :=
        if_pos hpc
      refine ⟨.testEnabled loop, _, rfl,
        Option.map_eq_some_iff.mpr ⟨_, hstep, rfl⟩, hprocessing, ?_⟩
      have hless : posterWork (if s.posts.post_cb_.enabled = true then .idle
          else .activating) ≤ 7 := by
        split
        · exact Nat.zero_le 7
        · exact le_rfl
      have hnow : posterWork (s.posts.posters loop) = 8 := by rw [hpc]; rfl
      simp only [turnWork, Function.update_self]
      omega
  | activating =>
      obtain ⟨posts, hposts⟩ : ∃ posts, s.posts.activate loop = some posts :=
        ⟨_, if_pos hpc⟩
      have hmoved := (PostQueue.activate_loopPc hposts).2
      obtain ⟨-, heq⟩ := Option.ite_none_right_eq_some.mp hposts
      have hsame : posts.posters loop = .idle ∧
          posts.post_callbacks_ = s.posts.post_callbacks_ := by
        rw [← Option.some.inj heq]
        exact ⟨Function.update_self _ _ _, rfl⟩
      have hloopPc : posts.loopPc = s.posts.loopPc := by
        rcases hmoved with hmoved | ⟨hblocked, -⟩
        · exact hmoved
        · rw [hblocked] at hplaced
          rw [hplaced.2.1] at hprocessing
          cases hprocessing
      refine ⟨.activate loop, _, rfl,
        Option.map_eq_some_iff.mpr ⟨_, hposts, rfl⟩, hprocessing, ?_⟩
      have hlength := length_enqueue_le s.workList ActiveEvent.post_cb_
      have hnow : posterWork (s.posts.posters loop) = 7 := by rw [hpc]; rfl
      have hthen : posterWork (posts.posters loop) = 0 := by rw [hsame.1]; rfl
      simp only [turnWork, eventActive, hsame.2, hloopPc]
      omega

/-- A clear in progress goes on, in the code of the program that called it. -/
theorem goesOn_of_frames (h : s.Coherent) (hprocessing : s.processing = true)
    (hidle : s.posts.posters loop = .idle) (hframes : s.deletion.frames ≠ []) :
    GoesOn loop s := by
  have hcode : s.posts.loopPc.RunsUserCode := by
    by_contra hno
    exact hframes (h.clearing hno)
  obtain ⟨b, deletion, hb, hstep, hless⟩ :=
    DeferredDelete.exists_clearStep h.ordered hframes
  have hcb : deletion.deferred_delete_cb_ = s.deletion.deferred_delete_cb_ :=
    (DeferredDelete.clearing_step h.ordered (hb.clearing hstep)).2.2.2
  -- The event is in the queue already when it is enabled.
  have hsame : (if deletion.deferred_delete_cb_.enabled = true
      then { s with deletion := deletion }.eventActive .deferred_delete_cb_
      else { s with deletion := deletion }) = { s with deletion := deletion } := by
    split
    · rename_i henabled
      rw [hcb] at henabled
      have hmem := h.pending.deferred_iff.mpr henabled
      simp [eventActive, enqueue, hmem]
    · rfl
  have hready : s.posts.loopPc.RunsUserCode ∧ s.posts.posters loop = .idle :=
    ⟨hcode, hidle⟩
  have hdeferred : s.deferred loop b = some { s with deletion := deletion } := by
    cases b with
    | resetNext | destructorReturns | finishClear =>
        simp only [deferred, if_pos hready, hstep, Option.map_some, hsame]
    | _ => exact hb.elim
  refine ⟨.deferred b, { s with deletion := deletion }, ?_, hdeferred,
    hprocessing, ?_⟩
  · cases b with
    | resetNext | destructorReturns | finishClear => trivial
    | _ => exact hb.elim
  · simp only [turnWork]
    omega

/-- The event that is taken out pays for its callback. -/
theorem goesOn_of_runFirst (hstep : s.runFirst = some t)
    (hposters : t.posts.posters = s.posts.posters)
    (hcallbacks : t.posts.post_callbacks_ = s.posts.post_callbacks_)
    (hclear : t.deletion.clearWork ≤ s.deletion.clearWork + 1)
    (hplace : placeWork t.posts.loopPc ≤ placeWork s.posts.loopPc + 2) :
    GoesOn loop s := by
  obtain ⟨-, -, e, hlist, -, hprocessing, -⟩ := runFirst_eq_some hstep
  refine ⟨.runFirst, t, trivial, hstep, hprocessing, ?_⟩
  have hlength : s.workList.length = t.workList.length + 1 := by
    rw [hlist, List.length_cons]
  simp only [turnWork, hposters, hcallbacks]
  omega

/-- Between two events the first one of the queue is taken out. -/
theorem goesOn_of_workList (h : s.Coherent) (huntimed : s.Untimed)
    (hprocessing : s.processing = true) (hpc : s.posts.loopPc = .looping)
    (hlist : s.workList ≠ []) : GoesOn loop s := by
  obtain ⟨e, rest, hlist⟩ := List.exists_cons_of_ne_nil hlist
  have hframes : s.deletion.frames = [] := h.clearing (by rw [hpc]; exact id)
  have hother : s.posts.runOther = some (s.posts.goto .otherEvent) := by
    simp [PostQueue.runOther, hpc]
  cases e with
  | post_cb_ =>
      have henabled := h.pending.post_iff.mp (by rw [hlist]; simp)
      obtain ⟨cb, hcb⟩ :=
        SchedulableCallbackImpl.exists_dequeue henabled huntimed.1
      have hstep : s.runFirst = some { s with
          workList := rest
          begun := s.begun ++ [.post_cb_]
          posts := { s.posts with post_cb_ := cb, loopPc := .dequeued }
          running := some .post_cb_ } := by
        simp [runFirst, hprocessing, hpc, hlist, PostQueue.dequeue, hcb]
      exact goesOn_of_runFirst hstep rfl rfl (Nat.le_succ _)
        (Nat.le_add_left _ _)
  | deferred_delete_cb_ =>
      have henabled := h.pending.deferred_iff.mp (by rw [hlist]; simp)
      obtain ⟨cb, hcb⟩ :=
        SchedulableCallbackImpl.exists_dequeue henabled huntimed.2
      obtain ⟨deletion, hfire⟩ : ∃ deletion,
          s.deletion.fire = some deletion := by
        simp [DeferredDelete.fire, hframes, hcb]
      have hstep : s.runFirst = some { s with
          workList := rest
          begun := s.begun ++ [.deferred_delete_cb_]
          posts := s.posts.goto .otherEvent
          deletion := deletion
          running := some .deferred_delete_cb_ } := by
        simp [runFirst, hprocessing, hpc, hlist, hother, hfire]
      exact goesOn_of_runFirst hstep rfl rfl
        (DeferredDelete.fire_clearWork hfire) (Nat.le_add_left 1 _)
  | loopexit =>
      have hstep : s.runFirst = some { s with
          workList := rest
          begun := s.begun ++ [.loopexit]
          event_gotterm := true } := by
        simp [runFirst, hprocessing, hpc, hlist]
      exact goesOn_of_runFirst hstep rfl rfl (Nat.le_succ _)
        (Nat.le_add_right _ _)
  | other i =>
      have hstep : s.runFirst = some { s with
          workList := rest
          begun := s.begun ++ [.other i]
          posts := s.posts.goto .otherEvent
          running := some (.other i) } := by
        simp [runFirst, hprocessing, hpc, hlist, hother]
      exact goesOn_of_runFirst hstep rfl rfl (Nat.le_succ _)
        (Nat.le_add_left 1 _)

/-- Inside the callback of an event the batch goes on, or the callback
returns. -/
theorem goesOn_of_callback (hprocessing : s.processing = true)
    (hplaced : s.PlacedAt s.posts.loopPc)
    (hidle : s.posts.posters loop = .idle) (hframes : s.deletion.frames = [])
    (hpc : s.posts.loopPc ≠ .looping) : GoesOn loop s := by
  cases hplace : s.posts.loopPc with
  | looping => exact absurd hplace hpc
  | outside =>
      rw [hplace] at hplaced
      rw [hplaced.2] at hprocessing
      cases hprocessing
  | flushing =>
      rw [hplace] at hplaced
      rw [hplaced.2] at hprocessing
      cases hprocessing
  | blocked =>
      rw [hplace] at hplaced
      rw [hplaced.2.1] at hprocessing
      cases hprocessing
  | dequeued =>
      have hstep : s.takeAll = some { s with posts := { s.posts with
          post_callbacks_ := [], loopPc := .draining s.posts.post_callbacks_ } } := by
        simp [takeAll, PostQueue.takeAll, hplace]
      refine ⟨.takeAll, _, trivial, hstep, hprocessing, ?_⟩
      simp only [turnWork, hplace, placeWork, List.length_nil]
      omega
  | draining rest =>
      cases rest with
      | nil =>
          have hstep : s.callFront = some { s with
              posts := s.posts.goto .looping
              event_gotterm := s.running.isSome && s.event_gotterm
              running := none } := by
            simp [callFront, PostQueue.callFront, hplace, PostQueue.goto]
          refine ⟨.callFront, _, trivial, hstep, hprocessing, ?_⟩
          simp only [turnWork, PostQueue.goto, hplace, placeWork]
          omega
      | cons callback rest =>
          have hstep : s.callFront = some { s with posts := { s.posts with
              ran := s.posts.ran ++ [callback], loopPc := .calling rest } } := by
            simp [callFront, PostQueue.callFront, hplace]
          refine ⟨.callFront, _, trivial, hstep, hprocessing, ?_⟩
          simp only [turnWork, hplace, placeWork, List.length_cons]
          omega
  | calling rest =>
      have hstep : s.callbackReturns loop =
          some { s with posts := s.posts.goto (.draining rest) } := by
        simp [callbackReturns, PostQueue.callbackReturns, hframes, hplace, hidle,
          PostQueue.goto]
      refine ⟨.callbackReturns, _, trivial, hstep, hprocessing, ?_⟩
      simp only [turnWork, PostQueue.goto, hplace, placeWork]
      omega
  | otherEvent =>
      have hstep : s.callbackReturns loop = some { s with
          posts := s.posts.goto .looping, running := none } := by
        simp [callbackReturns, PostQueue.callbackReturns, hframes, hplace, hidle,
          PostQueue.goto]
      refine ⟨.callbackReturns, _, trivial, hstep, hprocessing, ?_⟩
      simp only [turnWork, PostQueue.goto, hplace, placeWork]
      omega

/-- In a turn the loop's thread can go on until the queue is empty. -/
theorem goesOn_of_turn (h : s.Coherent) (huntimed : s.Untimed)
    (hprocessing : s.processing = true)
    (hopen : ¬ (s.posts.loopPc = .looping ∧ s.workList = [])) :
    GoesOn loop s := by
  by_cases hidle : s.posts.posters loop = .idle
  swap
  · exact goesOn_of_poster hprocessing h.placed hidle
  by_cases hframes : s.deletion.frames = []
  swap
  · exact goesOn_of_frames h hprocessing hidle hframes
  by_cases hpc : s.posts.loopPc = .looping
  · exact goesOn_of_workList h huntimed hprocessing hpc
      fun hlist => hopen ⟨hpc, hlist⟩
  · exact goesOn_of_callback hprocessing h.placed hidle hframes hpc

/-! ## The end of the turn -/

/-- What the program has asked for, and what the other threads do. -/
structure SameRequests (loop : Tid) (s t : Dispatcher Tid α Obj Task ι) :
    Prop where
  submitted : t.deletion.submitted = s.deletion.submitted
  pushed : t.posts.pushed = s.posts.pushed
  posters : ∀ th, th ≠ loop → t.posts.posters th = s.posts.posters th

omit [DecidableEq Tid] [DecidableEq ι] in
theorem SameRequests.trans {u : Dispatcher Tid α Obj Task ι}
    (hst : SameRequests loop s t) (htu : SameRequests loop t u) :
    SameRequests loop s u where
  submitted := htu.submitted.trans hst.submitted
  pushed := htu.pushed.trans hst.pushed
  posters := fun th hth => (htu.posters th hth).trans (hst.posters th hth)

/-- Going on makes no request, and leaves the other threads alone. -/
theorem completes_step (h : s.Coherent) (ha : a.Completes loop)
    (hstep : step loop s a = some t) : SameRequests loop s t := by
  cases a with
  | testEnabled th =>
      obtain rfl : th = loop := ha
      obtain ⟨posts, hposts, rfl⟩ := Option.map_eq_some_iff.mp hstep
      obtain ⟨-, heq⟩ := Option.ite_none_right_eq_some.mp hposts
      obtain rfl := Option.some.inj heq
      exact ⟨rfl, rfl, fun u hu => Function.update_of_ne hu _ _⟩
  | activate th =>
      obtain rfl : th = loop := ha
      obtain ⟨posts, hposts, rfl⟩ := Option.map_eq_some_iff.mp hstep
      obtain ⟨-, heq⟩ := Option.ite_none_right_eq_some.mp hposts
      obtain rfl := Option.some.inj heq
      exact ⟨rfl, rfl, fun u hu => Function.update_of_ne hu _ _⟩
  | deferred b =>
      obtain ⟨-, -, -, deletion, hdeletion, rfl⟩ := deferred_eq_some hstep
      refine ⟨(DeferredDelete.clearing_step h.ordered (t := deletion) ?_).2.1,
        rfl, fun _ _ => rfl⟩
      cases b with
      | resetNext => exact Or.inl hdeletion
      | destructorReturns => exact Or.inr (Or.inl hdeletion)
      | finishClear => exact Or.inr (Or.inr hdeletion)
      | _ => exact ha.elim
  | takeAll =>
      obtain ⟨posts, hposts, rfl⟩ := Option.map_eq_some_iff.mp hstep
      obtain ⟨-, rfl⟩ := PostQueue.takeAll_eq_some hposts
      exact ⟨rfl, rfl, fun _ _ => rfl⟩
  | callFront =>
      obtain ⟨hposts, hdeletion, -⟩ := callFront_posts hstep
      rcases PostQueue.callFront_eq_some hposts with
        ⟨callback, rest, -, ht⟩ | ⟨-, ht⟩
      · exact ⟨by rw [hdeletion], by rw [ht], fun _ _ => by rw [ht]⟩
      · exact ⟨by rw [hdeletion], by rw [ht]; rfl, fun _ _ => by rw [ht]; rfl⟩
  | callbackReturns =>
      obtain ⟨-, hposts, hdeletion, -⟩ := callbackReturns_posts hstep
      obtain ⟨-, ⟨rest, -, ht⟩ | ⟨-, ht⟩⟩ :=
        PostQueue.callbackReturns_eq_some hposts
      · exact ⟨by rw [hdeletion], by rw [ht]; rfl, fun _ _ => by rw [ht]; rfl⟩
      · exact ⟨by rw [hdeletion], by rw [ht]; rfl, fun _ _ => by rw [ht]; rfl⟩
  | runFirst =>
      obtain ⟨-, -, e, -, -, -, ⟨-, hposts, hdeletion, -⟩ |
        ⟨-, hposts, hfire, -⟩ | ⟨-, hposts, hdeletion, -⟩ |
        ⟨i, -, hposts, hdeletion, -⟩⟩ := runFirst_eq_some hstep
      · obtain ⟨-, cb, -, ht⟩ := PostQueue.dequeue_eq_some hposts
        exact ⟨by rw [hdeletion], by rw [ht], fun _ _ => by rw [ht]⟩
      · obtain ⟨-, ht⟩ := PostQueue.runOther_eq_some hposts
        exact ⟨(DeferredDelete.fire_underway h.ordered hfire).2.1,
          by rw [ht]; rfl, fun _ _ => by rw [ht]; rfl⟩
      · exact ⟨by rw [hdeletion], by rw [hposts], fun _ _ => by rw [hposts]⟩
      · obtain ⟨-, ht⟩ := PostQueue.runOther_eq_some hposts
        exact ⟨by rw [hdeletion], by rw [ht]; rfl, fun _ _ => by rw [ht]; rfl⟩
  | endIteration =>
      obtain ⟨-, -, -, rfl⟩ := endIteration_eq_some hstep
      exact ⟨rfl, rfl, fun _ _ => rfl⟩
  | _ => exact ha.elim

/-- `t` belongs to the same turn as `s`, and nothing was requested since. -/
structure SameTurn (loop : Tid) (s t : Dispatcher Tid α Obj Task ι) :
    Prop where
  coherent : t.Coherent
  untimed : t.Untimed
  processing : t.processing = true
  requests : SameRequests loop s t

theorem sameTurn_progress (h : SameTurn loop s t)
    (hopen : ¬ (t.posts.loopPc = .looping ∧ t.workList = [])) :
    ∃ a u, a.Completes loop ∧ step loop t a = some u ∧ SameTurn loop s u ∧
      turnWork loop u < turnWork loop t := by
  obtain ⟨a, u, ha, hstep, hprocessing, hless⟩ :
      GoesOn loop t := goesOn_of_turn h.coherent h.untimed h.processing hopen
  exact ⟨a, u, ha, hstep, ⟨step_coherent h.coherent hstep,
    untimed_step h.coherent h.untimed hstep, hprocessing,
    h.requests.trans (completes_step h.coherent ha hstep)⟩, hless⟩

/-- From every state of a turn that a run reaches, the loop's thread gets to
the end of the turn without a further request.  Then every object that was
submitted is destroyed, and every callback that was posted has run if no other
thread is inside `post`. -/
theorem turn_ends (loop : Tid) {actions : List (Action Tid α Obj Task ι)}
    (hrun : run (step loop) create actions = some s)
    (hturn : s.processing = true) :
    ∃ t, Reaches (step loop) (Action.Completes loop) s t ∧
      t.posts.loopPc = .looping ∧ t.processing = false ∧ t.workList = [] ∧
      t.deletion.destroyed = s.deletion.submitted ∧
      ((∀ th, th ≠ loop → s.posts.posters th = .idle) →
        t.posts.ran = s.posts.pushed) := by
  have hbegin : SameTurn loop s s :=
    ⟨coherent_of_run hrun, untimed_of_run hrun, hturn,
      rfl, rfl, fun _ _ => rfl⟩
  obtain ⟨u, hreach, hsame, hpc, hlist⟩ := reaches_of_measure (turnWork loop)
    (fun _ hu hopen => sameTurn_progress hu hopen) hbegin
  have hend : step loop u .endIteration =
      some { u with processing := false } := by
    simp [step, endIteration, hsame.processing, hpc, hlist]
  have hcode : ¬ u.posts.loopPc.RunsUserCode := by
    rw [hpc]
    exact id
  have hnone (e : ActiveEvent ι) : e ∉ u.workList := by
    rw [hlist]
    exact List.not_mem_nil
  refine ⟨_, hreach.trans (.of_step hend trivial), hpc, rfl, hlist, ?_, ?_⟩
  · rw [← hsame.requests.submitted]
    exact hsame.coherent.all_destroyed hcode (hnone _)
  · intro hidle
    rw [← hsame.requests.pushed]
    refine hsame.coherent.all_ran (by rw [hpc]; rfl) (by rw [hpc]; exact nofun)
      (hnone _) fun th => ?_
    by_cases hth : th = loop
    · obtain ⟨later, hlater, -⟩ := hreach
      rw [hth]
      exact own_idle_of_run (run_append hrun hlater) hcode
    · exact (hsame.requests.posters th hth).trans (hidle th hth)

theorem turn_ends_firstTurn :
    ∃ s t, run (step 0) create firstTurn = some s ∧
      Reaches (step 0) (Action.Completes 0) s t ∧ t.workList = [] ∧
      t.deletion.destroyed = [.object 5, .object 6] ∧
      t.posts.ran = s.posts.pushed := by
  suffices hexists : ∃ s, run (step 0) create firstTurn = some s ∧
      s.processing = true ∧
      s.deletion.submitted = [.object 5, .object 6] ∧
      (∀ th, s.posts.posters th = .idle) by
    obtain ⟨s, hrun, hturn, hsubmitted, hidle⟩ := hexists
    obtain ⟨t, hreach, -, -, hlist, hdestroyed, hran⟩ := turn_ends 0 hrun hturn
    exact ⟨s, t, hrun, hreach, hlist, hdestroyed.trans hsubmitted,
      hran fun th _ => hidle th⟩
  apply exists_run_of_eval
  decide

end Dispatcher

end EventServer.Event
