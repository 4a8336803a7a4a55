import EventServer.Event.Dispatcher

/-!
# The invariant of a dispatcher

The events of `post_cb_` and `deferred_delete_cb_` are in libevent's queue
exactly when they are enabled, and the place of the loop's thread fits to what
is being run.  The invariants of the posts and of the deferred deletions hold
because a dispatcher behaves like each of them.
-/

namespace EventServer.Event

open EventServer.Support

namespace Dispatcher

variable {Tid α Obj Task ι : Type}

/-- The queue holds the events of `post_cb_` and `deferred_delete_cb_` exactly
when they are enabled, and only `loopexit` more than once. -/
structure Pending [DecidableEq ι] (workList : List (ActiveEvent ι))
    (post deferred : Bool) : Prop where
  post_iff : .post_cb_ ∈ workList ↔ post = true
  deferred_iff : .deferred_delete_cb_ ∈ workList ↔ deferred = true
  count_le : ∀ e, e ≠ .loopexit → workList.count e ≤ 1

/-- Where the loop's thread is, `running`, `processing` and `event_gotterm` fit
together.  A loop that is about to leave `run()` has cleared everything. -/
def PlacedAt (s : Dispatcher Tid α Obj Task ι) : PostLoopPc α → Prop
  | .outside | .flushing => s.running = none ∧ s.processing = false
  | .blocked =>
      s.running = none ∧ s.processing = false ∧ s.event_gotterm = false
  | .looping => s.running = none ∧
      (s.processing = false → s.event_gotterm = true →
        .deferred_delete_cb_ ∉ s.workList)
  | .dequeued => s.running = some .post_cb_ ∧ s.processing = true
  | .draining _ | .calling _ =>
      (s.running = none ∧ s.processing = false) ∨
        (s.running = some .post_cb_ ∧ s.processing = true)
  | .otherEvent => s.processing = true

/-- The invariant of every run. -/
structure Coherent [DecidableEq ι] (s : Dispatcher Tid α Obj Task ι) :
    Prop where
  sound : s.posts.Sound
  ordered : s.deletion.Ordered
  pending : Pending s.workList s.posts.post_cb_.enabled
    s.deletion.deferred_delete_cb_.enabled
  placed : s.PlacedAt s.posts.loopPc
  clearing : ¬ s.posts.loopPc.RunsUserCode → s.deletion.frames = []

section Invariant

variable [DecidableEq ι]

namespace Pending

variable {workList : List (ActiveEvent ι)} {post deferred : Bool}

theorem enqueue_post (h : Pending workList post deferred) :
    Pending (enqueue workList .post_cb_) true deferred where
  post_iff := by simp
  deferred_iff := by simpa using h.deferred_iff
  count_le := fun e he => count_enqueue_le (h.count_le e he)

theorem enqueue_deferred (h : Pending workList post deferred) :
    Pending (enqueue workList .deferred_delete_cb_) post true where
  post_iff := by simpa using h.post_iff
  deferred_iff := by simp
  count_le := fun e he => count_enqueue_le (h.count_le e he)

theorem enqueue_other (h : Pending workList post deferred) (i : ι) :
    Pending (enqueue workList (.other i)) post deferred where
  post_iff := by simpa using h.post_iff
  deferred_iff := by simpa using h.deferred_iff
  count_le := fun e he => count_enqueue_le (h.count_le e he)

theorem cancel_other (h : Pending workList post deferred) (i : ι) :
    Pending (workList.filter fun e => e ≠ .other i) post deferred where
  post_iff := by simpa using h.post_iff
  deferred_iff := by simpa using h.deferred_iff
  count_le := fun e he =>
    (List.filter_sublist.count_le e).trans (h.count_le e he)

theorem append_loopexit (h : Pending workList post deferred) :
    Pending (workList ++ [.loopexit]) post deferred where
  post_iff := by simpa using h.post_iff
  deferred_iff := by simpa using h.deferred_iff
  count_le := fun e he => by
    rw [List.count_append, List.count_singleton]
    simpa [Ne.symm he] using h.count_le e he

theorem append_ready (h : Pending workList post deferred) {ready : List ι}
    (hnodup : ready.Nodup) (hfresh : ∀ i ∈ ready, .other i ∉ workList) :
    Pending (workList ++ ready.map .other) post deferred where
  post_iff := by simpa using h.post_iff
  deferred_iff := by simpa using h.deferred_iff
  count_le := fun e he => by
    rw [List.count_append]
    have hinjective : Function.Injective (ActiveEvent.other : ι → _) :=
      fun i j hij => ActiveEvent.other.inj hij
    by_cases hmem : e ∈ ready.map .other
    · obtain ⟨i, hi, rfl⟩ := List.mem_map.mp hmem
      rw [List.count_eq_zero_of_not_mem (hfresh i hi), Nat.zero_add]
      exact List.nodup_iff_count_le_one.mp (hnodup.map hinjective) _
    · rw [List.count_eq_zero_of_not_mem hmem]
      exact h.count_le e he

/-- The event that is taken out is not in the queue any more. -/
theorem tail {e : ActiveEvent ι} (h : Pending (e :: workList) post deferred) :
    Pending workList (decide (e ≠ .post_cb_) && post)
      (decide (e ≠ .deferred_delete_cb_) && deferred) := by
  have hcount (x : ActiveEvent ι) (hx : x ≠ .loopexit) :
      workList.count x ≤ 1 ∧ (e = x → x ∉ workList) := by
    have hle := h.count_le x hx
    rw [List.count_cons] at hle
    refine ⟨by omega, ?_⟩
    rintro rfl hmem
    have hpos := List.count_pos_iff.mpr hmem
    simp only [BEq.rfl, if_true] at hle
    omega
  have hpost := h.post_iff
  have hdeferred := h.deferred_iff
  rw [List.mem_cons] at hpost hdeferred
  refine ⟨?_, ?_, fun x hx => (hcount x hx).1⟩
  · by_cases he : e = .post_cb_
    · simp [he, (hcount .post_cb_ nofun).2 he]
    · simpa [he, Ne.symm he] using hpost
  · by_cases he : e = .deferred_delete_cb_
    · simp [he, (hcount .deferred_delete_cb_ nofun).2 he]
    · simpa [he, Ne.symm he] using hdeferred

end Pending

theorem create_coherent : (create : Dispatcher Tid α Obj Task ι).Coherent where
  sound := PostQueue.create_sound
  ordered := DeferredDelete.create_ordered
  pending := ⟨by simp [create, PostQueue.create],
    by simp [create, DeferredDelete.create], fun e _ => by simp [create]⟩
  placed := ⟨rfl, rfl⟩
  clearing := fun _ => rfl

/-- The loop's thread moves on, with the queue and the deferred deletions as
they are. -/
theorem Coherent.move {s t : Dispatcher Tid α Obj Task ι} (h : s.Coherent)
    (hsound : t.posts.Sound) (hcb : t.posts.post_cb_ = s.posts.post_cb_)
    (hdeletion : t.deletion = s.deletion) (hlist : t.workList = s.workList)
    (hplaced : t.PlacedAt t.posts.loopPc)
    (hclearing : ¬ t.posts.loopPc.RunsUserCode → s.deletion.frames = []) :
    t.Coherent where
  sound := hsound
  ordered := hdeletion ▸ h.ordered
  pending := by
    rw [hcb, hdeletion, hlist]
    exact h.pending
  placed := hplaced
  clearing := hdeletion ▸ hclearing

/-- The same when nothing but the posts changes. -/
theorem Coherent.of_posts {s : Dispatcher Tid α Obj Task ι}
    {posts : PostQueue Tid α} (h : s.Coherent) (hsound : posts.Sound)
    (hcb : posts.post_cb_ = s.posts.post_cb_)
    (hplaced : s.PlacedAt posts.loopPc)
    (hclearing : ¬ posts.loopPc.RunsUserCode → s.deletion.frames = []) :
    Coherent { s with posts := posts } :=
  h.move hsound hcb rfl rfl hplaced hclearing

/-- The same when the loop's thread does not move. -/
theorem Coherent.of_poster {s : Dispatcher Tid α Obj Task ι}
    {posts : PostQueue Tid α} (h : s.Coherent) (hsound : posts.Sound)
    (hcb : posts.post_cb_ = s.posts.post_cb_)
    (hpc : posts.loopPc = s.posts.loopPc) :
    Coherent { s with posts := posts } := by
  apply h.of_posts hsound hcb
  · rw [hpc]
    exact h.placed
  · rw [hpc]
    exact h.clearing

omit [DecidableEq ι] in
/-- A loop that is woken has not been asked to leave. -/
theorem PlacedAt.wake {s : Dispatcher Tid α Obj Task ι}
    (h : s.PlacedAt .blocked) : s.PlacedAt .looping := by
  refine ⟨h.1, fun _ hgotterm => ?_⟩
  rw [h.2.2] at hgotterm
  cases hgotterm

theorem Coherent.notify {s : Dispatcher Tid α Obj Task ι} (h : s.Coherent) :
    s.notify.Coherent := by
  unfold Dispatcher.notify
  split
  · rename_i hpc
    have hplaced := h.placed
    rw [hpc] at hplaced
    have hwake : s.posts.wake = some (s.posts.goto .looping) := by
      simp [PostQueue.wake, hpc]
    refine h.of_posts (PostQueue.wake_sound h.sound hwake) rfl hplaced.wake ?_
    intro _
    exact h.clearing (by rw [hpc]; exact id)
  · exact h

omit [DecidableEq ι] in
/-- A new event in the queue is not the one of `deferred_delete_cb_`. -/
theorem PlacedAt.of_workList {s : Dispatcher Tid α Obj Task ι}
    {pc : PostLoopPc α} (h : s.PlacedAt pc) {workList : List (ActiveEvent ι)}
    (hlist : .deferred_delete_cb_ ∈ workList →
      .deferred_delete_cb_ ∈ s.workList) :
    PlacedAt { s with workList := workList } pc := by
  cases pc with
  | looping =>
      exact ⟨h.1, fun hprocessing hgotterm hmem =>
        h.2 hprocessing hgotterm (hlist hmem)⟩
  | _ => exact h

theorem Coherent.of_workList {s : Dispatcher Tid α Obj Task ι}
    (h : s.Coherent) {workList : List (ActiveEvent ι)}
    (hpending : Pending workList s.posts.post_cb_.enabled
      s.deletion.deferred_delete_cb_.enabled) :
    Coherent { s with workList := workList } where
  sound := h.sound
  ordered := h.ordered
  pending := hpending
  placed := h.placed.of_workList fun hmem =>
    h.pending.deferred_iff.mpr (hpending.deferred_iff.mp hmem)
  clearing := h.clearing

variable {loop : Tid} {s t : Dispatcher Tid α Obj Task ι}
  {a : Action Tid α Obj Task ι}

theorem activate_coherent [DecidableEq Tid] {th : Tid} (h : s.Coherent)
    (hstep : s.activate th = some t) : t.Coherent := by
  obtain ⟨posts, hposts, rfl⟩ := Option.map_eq_some_iff.mp hstep
  obtain ⟨henabled, hpc⟩ := PostQueue.activate_loopPc hposts
  have hplaced := h.placed
  have hwoken : s.PlacedAt posts.loopPc ∧
      (¬ posts.loopPc.RunsUserCode → s.deletion.frames = []) := by
    rcases hpc with hpc | ⟨hblocked, hpc⟩
    · rw [hpc]
      exact ⟨hplaced, h.clearing⟩
    · rw [hblocked] at hplaced
      rw [hpc]
      exact ⟨hplaced.wake, fun _ => h.clearing (by rw [hblocked]; exact id)⟩
  refine ⟨PostQueue.activate_sound h.sound hposts, h.ordered, ?_, ?_, hwoken.2⟩
  · change Pending _ posts.post_cb_.enabled _
    rw [henabled]
    exact h.pending.enqueue_post
  · exact hwoken.1.of_workList
      fun hmem => (mem_enqueue.mp hmem).resolve_right nofun

theorem deferred_coherent [DecidableEq Tid]
    {b : DeferredDelete.Action Obj Task} (h : s.Coherent)
    (hstep : s.deferred loop b = some t) : t.Coherent := by
  obtain ⟨hb, hcode, -, deletion, hdeletion, rfl⟩ := deferred_eq_some hstep
  have hordered := DeferredDelete.step_ordered h.ordered hdeletion
  refine ⟨h.sound, hordered, ?_, ?_, fun hno => absurd hcode hno⟩
  · by_cases henabled : deletion.deferred_delete_cb_.enabled = true
    · rw [if_pos henabled, henabled]
      exact h.pending.enqueue_deferred
    · have hbefore : s.deletion.deferred_delete_cb_.enabled = false := by
        by_contra hne
        exact henabled (DeferredDelete.enabled_of_step h.ordered hdeletion hb
          (by simpa using hne))
      rw [if_neg henabled, Bool.eq_false_of_not_eq_true henabled, ← hbefore]
      exact h.pending
  · -- The loop's thread runs code of the program, so it is not looping.
    have hplaced := h.placed
    cases hpc : s.posts.loopPc with
    | looping =>
        rw [hpc] at hcode
        exact hcode.elim
    | _ =>
        rw [hpc] at hplaced
        exact hplaced

theorem enterRun_coherent [DecidableEq Tid] (h : s.Coherent)
    (hstep : s.enterRun loop = some t) : t.Coherent := by
  obtain ⟨hframes, hstep⟩ := Option.ite_none_right_eq_some.mp hstep
  obtain ⟨posts, hposts, rfl⟩ := Option.map_eq_some_iff.mp hstep
  have hsound := PostQueue.enterRun_sound h.sound hposts
  obtain ⟨hpc, -, rfl⟩ := PostQueue.enterRun_eq_some hposts
  have hplaced := h.placed
  rw [hpc] at hplaced
  exact h.of_posts hsound rfl hplaced fun _ => hframes

theorem takeAll_coherent (h : s.Coherent) (hstep : s.takeAll = some t) :
    t.Coherent := by
  obtain ⟨posts, hposts, rfl⟩ := Option.map_eq_some_iff.mp hstep
  have hsound := PostQueue.takeAll_sound h.sound hposts
  obtain ⟨hpc, rfl⟩ := PostQueue.takeAll_eq_some hposts
  have hplaced := h.placed
  rcases hpc with hpc | hpc
  · rw [hpc] at hplaced
    exact h.of_posts hsound rfl (Or.inl hplaced)
      fun _ => h.clearing (by rw [hpc]; exact id)
  · rw [hpc] at hplaced
    exact h.of_posts hsound rfl (Or.inr hplaced)
      fun _ => h.clearing (by rw [hpc]; exact id)

theorem block_coherent (h : s.Coherent) (hstep : s.block = some t) :
    t.Coherent := by
  obtain ⟨hprocessing, hgotterm, -, posts, hposts, rfl⟩ := block_eq_some hstep
  have hsound := PostQueue.block_sound h.sound hposts
  obtain ⟨hpc, -, rfl⟩ := PostQueue.block_eq_some hposts
  have hplaced := h.placed
  rw [hpc] at hplaced
  exact h.of_posts hsound rfl ⟨hplaced.1, hprocessing, hgotterm⟩
    fun _ => h.clearing (by rw [hpc]; exact id)

theorem wake_coherent (h : s.Coherent) (hstep : s.wake = some t) :
    t.Coherent := by
  obtain ⟨posts, hposts, rfl⟩ := Option.map_eq_some_iff.mp hstep
  have hsound := PostQueue.wake_sound h.sound hposts
  obtain ⟨hpc, rfl⟩ := PostQueue.wake_eq_some hposts
  have hplaced := h.placed
  rw [hpc] at hplaced
  exact h.of_posts hsound rfl hplaced.wake
    fun _ => h.clearing (by rw [hpc]; exact id)

theorem leaveRun_coherent (h : s.Coherent) (hstep : s.leaveRun = some t) :
    t.Coherent := by
  obtain ⟨⟨hprocessing, -⟩, hstep⟩ := Option.ite_none_right_eq_some.mp hstep
  obtain ⟨posts, hposts, rfl⟩ := Option.map_eq_some_iff.mp hstep
  have hsound := PostQueue.leaveRun_sound h.sound hposts
  obtain ⟨hpc, rfl⟩ := PostQueue.leaveRun_eq_some hposts
  have hplaced := h.placed
  rw [hpc] at hplaced
  exact h.of_posts hsound rfl ⟨hplaced.1, hprocessing⟩
    fun hcode => absurd trivial hcode

omit [DecidableEq ι] in
/-- A batch goes on in the callback in which it was begun, or in none. -/
theorem PlacedAt.batch {rest : List α} (h : s.PlacedAt (.draining rest))
    (hrunning : t.running = s.running) (hprocessing : t.processing = s.processing)
    (rest' : List α) :
    t.PlacedAt (.draining rest') ∧ t.PlacedAt (.calling rest') := by
  have hsame : (t.running = none ∧ t.processing = false) ∨
      (t.running = some .post_cb_ ∧ t.processing = true) := by
    rw [hrunning, hprocessing]
    exact h
  exact ⟨hsame, hsame⟩

/-- A batch goes on, or it ends: before `event_base_loop`, which forgets an
earlier `exit()`, or in a callback of `post_cb_`. -/
theorem callFront_coherent (h : s.Coherent) (hstep : s.callFront = some t) :
    t.Coherent := by
  obtain ⟨hposts, hdeletion, hlist, -, hprocessing, hloop, hcalling⟩ :=
    callFront_posts hstep
  have hsound := PostQueue.callFront_sound h.sound hposts
  have hplaced := h.placed
  rcases PostQueue.callFront_eq_some hposts with
    ⟨callback, rest, hpc, ht⟩ | ⟨hpc, ht⟩
  · rw [hpc] at hplaced
    have hnew : t.posts.loopPc = .calling rest := by rw [ht]
    refine h.move hsound (by rw [ht]) hdeletion hlist ?_
      fun _ => h.clearing (by rw [hpc]; exact id)
    rw [hnew]
    exact (hplaced.batch (hcalling (by rw [hnew]; exact nofun))
      hprocessing rest).2
  · rw [hpc] at hplaced
    have hnew : t.posts.loopPc = .looping := by
      rw [ht]
      rfl
    obtain ⟨hrunning, hgotterm⟩ := hloop hnew
    refine h.move hsound (by rw [ht]; rfl) hdeletion hlist ?_
      fun _ => h.clearing (by rw [hpc]; exact id)
    rw [hnew]
    refine ⟨hrunning, fun hno hyes => ?_⟩
    rcases hplaced with ⟨hnone, -⟩ | ⟨-, hprocessed⟩
    · rw [hgotterm, hnone] at hyes
      cases hyes
    · rw [hprocessing, hprocessed] at hno
      cases hno

theorem callbackReturns_coherent [DecidableEq Tid] (h : s.Coherent)
    (hstep : s.callbackReturns loop = some t) : t.Coherent := by
  obtain ⟨hframes, hposts, hdeletion, hlist, -, hprocessing, -, hloop,
    hcalling⟩ := callbackReturns_posts hstep
  have hsound := PostQueue.callbackReturns_sound h.sound hposts
  have hplaced := h.placed
  obtain ⟨-, ⟨rest, hpc, ht⟩ | ⟨hpc, ht⟩⟩ :=
    PostQueue.callbackReturns_eq_some hposts
  · rw [hpc] at hplaced
    have hnew : t.posts.loopPc = .draining rest := by
      rw [ht]
      rfl
    refine h.move hsound (by rw [ht]; rfl) hdeletion hlist ?_ fun _ => hframes
    rw [hnew]
    have hbatch : s.PlacedAt (.draining rest) := hplaced
    exact (hbatch.batch (hcalling (by rw [hnew]; exact nofun))
      hprocessing rest).1
  · rw [hpc] at hplaced
    have hnew : t.posts.loopPc = .looping := by
      rw [ht]
      rfl
    refine h.move hsound (by rw [ht]; rfl) hdeletion hlist ?_ fun _ => hframes
    rw [hnew]
    refine ⟨hloop hnew, fun hno => ?_⟩
    have hprocessed : s.processing = true := hplaced
    rw [hprocessing, hprocessed] at hno
    cases hno

theorem startIteration_coherent {ready : List ι} (h : s.Coherent)
    (hstep : s.startIteration ready = some t) : t.Coherent := by
  obtain ⟨hpc, -, -, hnodup, hfresh, rfl⟩ := startIteration_eq_some hstep
  have hplaced := h.placed
  rw [hpc] at hplaced
  refine ⟨h.sound, h.ordered, h.pending.append_ready hnodup hfresh, ?_,
    h.clearing⟩
  change PlacedAt _ s.posts.loopPc
  rw [hpc]
  exact ⟨hplaced.1, nofun⟩

theorem endIteration_coherent (h : s.Coherent)
    (hstep : s.endIteration = some t) : t.Coherent := by
  obtain ⟨-, hpc, hlist, rfl⟩ := endIteration_eq_some hstep
  have hplaced := h.placed
  rw [hpc] at hplaced
  refine ⟨h.sound, h.ordered, h.pending, ?_, h.clearing⟩
  change PlacedAt _ s.posts.loopPc
  rw [hpc]
  refine ⟨hplaced.1, fun _ _ hmem => ?_⟩
  have hnil : ActiveEvent.deferred_delete_cb_ ∈ s.workList := hmem
  rw [hlist] at hnil
  cases hnil

theorem runFirst_coherent (h : s.Coherent) (hstep : s.runFirst = some t) :
    t.Coherent := by
  obtain ⟨-, hpc, e, hlist, -, hprocessing, hcases⟩ := runFirst_eq_some hstep
  have hpending := h.pending
  rw [hlist] at hpending
  have htail := hpending.tail
  have hframes : s.deletion.frames = [] := h.clearing (by rw [hpc]; exact id)
  rcases hcases with ⟨rfl, hposts, hdeletion, hrunning⟩ |
    ⟨rfl, hposts, hfire, hrunning⟩ | ⟨rfl, hposts, hdeletion, hrunning⟩ |
    ⟨i, rfl, hposts, hdeletion, hrunning⟩
  · have hsound := PostQueue.dequeue_sound h.sound hposts
    obtain ⟨-, post_cb, hdequeue, ht⟩ := PostQueue.dequeue_eq_some hposts
    have hdisabled := (SchedulableCallbackImpl.dequeue_enabled hdequeue).2
    refine ⟨hsound, hdeletion ▸ h.ordered, ?_, ?_, fun _ => hdeletion ▸ hframes⟩
    · rw [ht, hdeletion, hdisabled]
      simpa using htail
    · rw [ht]
      exact ⟨hrunning, hprocessing⟩
  · have hsound := PostQueue.runOther_sound h.sound hposts
    obtain ⟨-, ht⟩ := PostQueue.runOther_eq_some hposts
    obtain ⟨-, -, -, hdequeue⟩ := DeferredDelete.fire_underway h.ordered hfire
    have hdisabled := (SchedulableCallbackImpl.dequeue_enabled hdequeue).2
    refine ⟨hsound, DeferredDelete.fire_ordered h.ordered hfire, ?_, ?_, ?_⟩
    · rw [ht, hdisabled]
      simpa [PostQueue.goto] using htail
    · rw [ht]
      exact hprocessing
    · rw [ht]
      exact fun hcode => absurd trivial hcode
  · refine ⟨hposts ▸ h.sound, hdeletion ▸ h.ordered, ?_, ?_,
      fun _ => hdeletion ▸ hframes⟩
    · rw [hposts, hdeletion]
      simpa using htail
    · have hplaced := h.placed
      rw [hpc] at hplaced
      rw [hposts, hpc]
      refine ⟨hrunning.trans hplaced.1, fun hno => ?_⟩
      rw [hprocessing] at hno
      cases hno
  · have hsound := PostQueue.runOther_sound h.sound hposts
    obtain ⟨-, ht⟩ := PostQueue.runOther_eq_some hposts
    refine ⟨hsound, hdeletion ▸ h.ordered, ?_, ?_, ?_⟩
    · rw [ht, hdeletion]
      simpa [PostQueue.goto] using htail
    · rw [ht]
      exact hprocessing
    · rw [ht]
      exact fun hcode => absurd trivial hcode

theorem step_coherent [DecidableEq Tid] (h : s.Coherent)
    (hstep : step loop s a = some t) : t.Coherent := by
  cases a with
  | push th callback =>
      obtain ⟨-, hstep⟩ := Option.ite_none_right_eq_some.mp hstep
      obtain ⟨posts, hposts, rfl⟩ := Option.map_eq_some_iff.mp hstep
      obtain ⟨hpc, hcb⟩ := PostQueue.push_loopPc hposts
      exact h.of_poster (PostQueue.push_sound h.sound hposts) hcb hpc
  | testEnabled th =>
      obtain ⟨posts, hposts, rfl⟩ := Option.map_eq_some_iff.mp hstep
      obtain ⟨hpc, hcb⟩ := PostQueue.testEnabled_loopPc hposts
      exact h.of_poster (PostQueue.testEnabled_sound h.sound hposts) hcb hpc
  | activate th => exact activate_coherent h hstep
  | deferred b => exact deferred_coherent h hstep
  | activateOther i =>
      obtain rfl := Option.some.inj hstep
      exact (h.of_workList (h.pending.enqueue_other i)).notify
  | cancelOther i =>
      obtain rfl := Option.some.inj hstep
      exact h.of_workList (h.pending.cancel_other i)
  | exit =>
      obtain rfl := Option.some.inj hstep
      exact (h.of_workList h.pending.append_loopexit).notify
  | enterRun => exact enterRun_coherent h hstep
  | takeAll => exact takeAll_coherent h hstep
  | callFront => exact callFront_coherent h hstep
  | callbackReturns => exact callbackReturns_coherent h hstep
  | startIteration ready => exact startIteration_coherent h hstep
  | runFirst => exact runFirst_coherent h hstep
  | endIteration => exact endIteration_coherent h hstep
  | block => exact block_coherent h hstep
  | wake => exact wake_coherent h hstep
  | leaveRun => exact leaveRun_coherent h hstep

theorem coherent_of_run [DecidableEq Tid]
    {actions : List (Action Tid α Obj Task ι)}
    (hrun : run (step loop) create actions = some s) : s.Coherent :=
  run_invariant (fun _ _ _ h hstep => step_coherent h hstep) create_coherent hrun

end Invariant

end Dispatcher

end EventServer.Event
