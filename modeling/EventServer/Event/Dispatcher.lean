import EventServer.Support.WorkList
import EventServer.Event.DeferredDelete
import EventServer.Event.PostQueue

/-!
# The dispatcher

A dispatcher puts the posted callbacks and the deferred deletions on one loop
of libevent.  Both have an event of their own, `post_cb_` and
`deferred_delete_cb_`, which stand in libevent's queue of active events among
all others.  Callbacks of any event, posted callbacks and destructors are code
of the program, which may submit objects, post, clear, schedule other events
and call `exit()`; other threads may post, schedule and call `exit()` at any
time.

`event_base_loop` takes turns: it collects what is ready, empties the queue,
and looks whether it has to return.  `exit()` is an event of the queue too.
-/

namespace EventServer.Event

open EventServer.Support

/-- An event in libevent's queue of active events.  `loopexit` is the one that
`event_base_loopexit` creates; `other` are timers, descriptors and the
schedulable callbacks of the program. -/
inductive ActiveEvent (ι : Type) where
  | post_cb_
  | deferred_delete_cb_
  | loopexit
  | other (event : ι)
  deriving DecidableEq, Repr

/-- The events of the dispatcher itself, which nobody cancels. -/
def ActiveEvent.own {ι : Type} : ActiveEvent ι → Bool
  | .post_cb_ | .deferred_delete_cb_ | .loopexit => true
  | .other _ => false

/-- A dispatcher with its loop.  `processing` tells the second part of a turn
from the first, `running` is the event whose callback is being called, and
`begun` is the history of the events that were taken out of the queue. -/
structure Dispatcher (Tid α Obj Task ι : Type) where
  posts : PostQueue Tid α
  deletion : DeferredDelete Obj Task
  workList : List (ActiveEvent ι)
  processing : Bool
  event_gotterm : Bool
  running : Option (ActiveEvent ι)
  begun : List (ActiveEvent ι)

namespace Dispatcher

variable {Tid α Obj Task ι : Type}

/-- A new dispatcher. -/
def create : Dispatcher Tid α Obj Task ι where
  posts := .create
  deletion := .create
  workList := []
  processing := false
  event_gotterm := false
  running := none
  begun := []

/-- `event_active`: an event that is active already stays where it is. -/
def eventActive [DecidableEq ι] (s : Dispatcher Tid α Obj Task ι)
    (e : ActiveEvent ι) : Dispatcher Tid α Obj Task ι :=
  { s with workList := enqueue s.workList e }

/-- The loop waits no longer. -/
def notify (s : Dispatcher Tid α Obj Task ι) : Dispatcher Tid α Obj Task ι :=
  match s.posts.loopPc with
  | .blocked => { s with posts := s.posts.goto .looping }
  | _ => s

/-! ## Steps of the program -/

/-- The part of `post` under the lock.  On the loop's thread it is called by
code of the program only. -/
def push [DecidableEq Tid] (loop : Tid) (s : Dispatcher Tid α Obj Task ι)
    (t : Tid) (callback : α) : Option (Dispatcher Tid α Obj Task ι) :=
  if t = loop → s.deletion.RunsUserCode
  then (s.posts.push loop t callback).map fun posts => { s with posts := posts }
  else none

/-- The test of `enabled()`. -/
def testEnabled [DecidableEq Tid] (s : Dispatcher Tid α Obj Task ι) (t : Tid) :
    Option (Dispatcher Tid α Obj Task ι) :=
  (s.posts.testEnabled t).map fun posts => { s with posts := posts }

/-- The call of `event_active` for `post_cb_`. -/
def activate [DecidableEq Tid] [DecidableEq ι]
    (s : Dispatcher Tid α Obj Task ι) (t : Tid) :
    Option (Dispatcher Tid α Obj Task ι) :=
  (s.posts.activate t).map fun posts =>
    { s with posts := posts }.eventActive .post_cb_

/-- What the program does with deferred deletions on the loop's thread: submit,
clear, and the steps of a clear in progress.  When `deferred_delete_cb_` is
enabled its event is active. -/
def deferred [DecidableEq Tid] [DecidableEq ι] (loop : Tid)
    (s : Dispatcher Tid α Obj Task ι) (a : DeferredDelete.Action Obj Task) :
    Option (Dispatcher Tid α Obj Task ι) :=
  match a with
  | .fire => none
  | a =>
      if s.posts.loopPc.RunsUserCode ∧ s.posts.posters loop = .idle
      then (DeferredDelete.step s.deletion a).map fun deletion =>
        if deletion.deferred_delete_cb_.enabled
        then { s with deletion := deletion }.eventActive .deferred_delete_cb_
        else { s with deletion := deletion }
      else none

/-- Any thread activates another event. -/
def activateOther [DecidableEq ι] (s : Dispatcher Tid α Obj Task ι) (i : ι) :
    Dispatcher Tid α Obj Task ι :=
  (s.eventActive (.other i)).notify

/-- Any thread cancels or destroys another event. -/
def cancelOther [DecidableEq ι] (s : Dispatcher Tid α Obj Task ι) (i : ι) :
    Dispatcher Tid α Obj Task ι :=
  { s with workList := s.workList.filter fun e => e ≠ .other i }

/-- `exit()`, on any thread: `event_base_loopexit` activates a new event. -/
def exit (s : Dispatcher Tid α Obj Task ι) : Dispatcher Tid α Obj Task ι :=
  notify { s with workList := s.workList ++ [.loopexit] }

/-! ## Steps of the loop -/

/-- `run()` is called. -/
def enterRun [DecidableEq Tid] (loop : Tid) (s : Dispatcher Tid α Obj Task ι) :
    Option (Dispatcher Tid α Obj Task ι) :=
  if s.deletion.frames = []
  then (s.posts.enterRun loop).map fun posts => { s with posts := posts }
  else none

/-- The part of `runPostCallbacks` under the lock. -/
def takeAll (s : Dispatcher Tid α Obj Task ι) :
    Option (Dispatcher Tid α Obj Task ι) :=
  s.posts.takeAll.map fun posts => { s with posts := posts }

/-- The loop of `runPostCallbacks` calls the callback at the front, or ends.
Where it was called by `run()`, `event_base_loop` begins, else the callback of
`post_cb_` has returned. -/
def callFront (s : Dispatcher Tid α Obj Task ι) :
    Option (Dispatcher Tid α Obj Task ι) :=
  s.posts.callFront.map fun posts =>
    match posts.loopPc with
    | .looping => { s with
        posts := posts
        event_gotterm := s.running.isSome && s.event_gotterm
        running := none }
    | _ => { s with posts := posts }

/-- A callback returns, of a post or of another event.  A clear that it has
called has ended. -/
def callbackReturns [DecidableEq Tid] (loop : Tid)
    (s : Dispatcher Tid α Obj Task ι) : Option (Dispatcher Tid α Obj Task ι) :=
  if s.deletion.frames = []
  then (s.posts.callbackReturns loop).map fun posts =>
    match posts.loopPc with
    | .looping => { s with posts := posts, running := none }
    | _ => { s with posts := posts }
  else none

/-- A turn begins: behind what is active already come the descriptors and
timers that are ready. -/
def startIteration [DecidableEq ι] (s : Dispatcher Tid α Obj Task ι)
    (ready : List ι) : Option (Dispatcher Tid α Obj Task ι) :=
  match s.posts.loopPc with
  | .looping =>
      if s.processing = false ∧ s.event_gotterm = false ∧ ready.Nodup ∧
          ∀ i ∈ ready, .other i ∉ s.workList
      then some { s with
        workList := s.workList ++ ready.map .other
        processing := true }
      else none
  | _ => none

/-- The first event is taken out of the queue and its callback called. -/
def runFirst (s : Dispatcher Tid α Obj Task ι) :
    Option (Dispatcher Tid α Obj Task ι) :=
  match s.processing, s.posts.loopPc, s.workList with
  | true, .looping, e :: rest =>
      let s' := { s with workList := rest, begun := s.begun ++ [e] }
      match e with
      | .post_cb_ => s.posts.dequeue.map fun posts =>
          { s' with posts := posts, running := some e }
      | .deferred_delete_cb_ => s.posts.runOther.bind fun posts =>
          s.deletion.fire.map fun deletion =>
            { s' with posts := posts, deletion := deletion, running := some e }
      | .loopexit => some { s' with event_gotterm := true }
      | .other _ => s.posts.runOther.map fun posts =>
          { s' with posts := posts, running := some e }
  | _, _, _ => none

/-- The queue is found empty, and the turn ends. -/
def endIteration (s : Dispatcher Tid α Obj Task ι) :
    Option (Dispatcher Tid α Obj Task ι) :=
  match s.processing, s.posts.loopPc, s.workList with
  | true, .looping, [] => some { s with processing := false }
  | _, _, _ => none

/-- With no active event, libevent waits. -/
def block (s : Dispatcher Tid α Obj Task ι) :
    Option (Dispatcher Tid α Obj Task ι) :=
  match s.processing, s.event_gotterm, s.workList with
  | false, false, [] =>
      s.posts.block.map fun posts => { s with posts := posts }
  | _, _, _ => none

/-- The loop is woken by something else. -/
def wake (s : Dispatcher Tid α Obj Task ι) :
    Option (Dispatcher Tid α Obj Task ι) :=
  s.posts.wake.map fun posts => { s with posts := posts }

/-- `run()` returns, after `exit()` or because no event is left. -/
def leaveRun (s : Dispatcher Tid α Obj Task ι) :
    Option (Dispatcher Tid α Obj Task ι) :=
  if s.processing = false ∧ (s.event_gotterm = true ∨ s.workList = [])
  then s.posts.leaveRun.map fun posts => { s with posts := posts }
  else none

inductive Action (Tid α Obj Task ι : Type) where
  | push (t : Tid) (callback : α)
  | testEnabled (t : Tid)
  | activate (t : Tid)
  | deferred (a : DeferredDelete.Action Obj Task)
  | activateOther (i : ι)
  | cancelOther (i : ι)
  | exit
  | enterRun
  | takeAll
  | callFront
  | callbackReturns
  | startIteration (ready : List ι)
  | runFirst
  | endIteration
  | block
  | wake
  | leaveRun

/-- The step function, for a dispatcher whose thread is `loop`. -/
def step [DecidableEq Tid] [DecidableEq ι] (loop : Tid)
    (s : Dispatcher Tid α Obj Task ι) :
    Action Tid α Obj Task ι → Option (Dispatcher Tid α Obj Task ι)
  | .push t callback => s.push loop t callback
  | .testEnabled t => s.testEnabled t
  | .activate t => s.activate t
  | .deferred a => s.deferred loop a
  | .activateOther i => some (s.activateOther i)
  | .cancelOther i => some (s.cancelOther i)
  | .exit => some s.exit
  | .enterRun => s.enterRun loop
  | .takeAll => s.takeAll
  | .callFront => s.callFront
  | .callbackReturns => s.callbackReturns loop
  | .startIteration ready => s.startIteration ready
  | .runFirst => s.runFirst
  | .endIteration => s.endIteration
  | .block => s.block
  | .wake => s.wake
  | .leaveRun => s.leaveRun

/-! ## The parts -/

section Parts

variable {loop : Tid} {s t : Dispatcher Tid α Obj Task ι}

/-- What the program does with deferred deletions. -/
theorem deferred_eq_some [DecidableEq Tid] [DecidableEq ι]
    {b : DeferredDelete.Action Obj Task}
    (h : s.deferred loop b = some t) :
    b ≠ .fire ∧ s.posts.loopPc.RunsUserCode ∧ s.posts.posters loop = .idle ∧
      ∃ deletion, DeferredDelete.step s.deletion b = some deletion ∧
        t = { s with
          deletion := deletion
          workList :=
            if deletion.deferred_delete_cb_.enabled
            then enqueue s.workList .deferred_delete_cb_ else s.workList } := by
  cases b with
  | fire => cases h
  | _ =>
      obtain ⟨⟨hcode, hidle⟩, h⟩ := Option.ite_none_right_eq_some.mp h
      obtain ⟨deletion, hdeletion, rfl⟩ := Option.map_eq_some_iff.mp h
      refine ⟨nofun, hcode, hidle, deletion, hdeletion, ?_⟩
      split
      · rfl
      · rfl

/-- What taking the first event out of the queue does. -/
theorem runFirst_eq_some (h : s.runFirst = some t) :
    s.processing = true ∧ s.posts.loopPc = .looping ∧ ∃ e,
      s.workList = e :: t.workList ∧ t.begun = s.begun ++ [e] ∧
      t.processing = true ∧
      ((e = .post_cb_ ∧ s.posts.dequeue = some t.posts ∧
          t.deletion = s.deletion ∧ t.running = some e) ∨
        (e = .deferred_delete_cb_ ∧ s.posts.runOther = some t.posts ∧
          s.deletion.fire = some t.deletion ∧ t.running = some e) ∨
        (e = .loopexit ∧ t.posts = s.posts ∧ t.deletion = s.deletion ∧
          t.running = s.running) ∨
        (∃ i, e = .other i ∧ s.posts.runOther = some t.posts ∧
          t.deletion = s.deletion ∧ t.running = some e)) := by
  unfold runFirst at h
  split at h
  · rename_i e rest hprocessing hpc hlist
    refine ⟨hprocessing, hpc, e, ?_⟩
    cases e with
    | post_cb_ =>
        obtain ⟨posts, hposts, rfl⟩ := Option.map_eq_some_iff.mp h
        exact ⟨hlist, rfl, hprocessing, Or.inl ⟨rfl, hposts, rfl, rfl⟩⟩
    | deferred_delete_cb_ =>
        obtain ⟨posts, hposts, h⟩ := Option.bind_eq_some_iff.mp h
        obtain ⟨deletion, hdeletion, rfl⟩ := Option.map_eq_some_iff.mp h
        exact ⟨hlist, rfl, hprocessing,
          Or.inr (Or.inl ⟨rfl, hposts, hdeletion, rfl⟩)⟩
    | loopexit =>
        obtain rfl := Option.some.inj h
        exact ⟨hlist, rfl, hprocessing,
          Or.inr (Or.inr (Or.inl ⟨rfl, rfl, rfl, rfl⟩))⟩
    | other i =>
        obtain ⟨posts, hposts, rfl⟩ := Option.map_eq_some_iff.mp h
        exact ⟨hlist, rfl, hprocessing,
          Or.inr (Or.inr (Or.inr ⟨i, rfl, hposts, rfl, rfl⟩))⟩
  · cases h

theorem callFront_posts (h : s.callFront = some t) :
    s.posts.callFront = some t.posts ∧ t.deletion = s.deletion ∧
      t.workList = s.workList ∧ t.begun = s.begun ∧
      t.processing = s.processing ∧
      (t.posts.loopPc = .looping →
        t.running = none ∧
          t.event_gotterm = (s.running.isSome && s.event_gotterm)) ∧
      (t.posts.loopPc ≠ .looping → t.running = s.running) := by
  obtain ⟨posts, hposts, rfl⟩ := Option.map_eq_some_iff.mp h
  split
  · rename_i hpc
    exact ⟨hposts, rfl, rfl, rfl, rfl, fun _ => ⟨rfl, rfl⟩,
      fun hne => absurd hpc hne⟩
  · rename_i hpc
    exact ⟨hposts, rfl, rfl, rfl, rfl, fun heq => absurd heq hpc, fun _ => rfl⟩

theorem callbackReturns_posts [DecidableEq Tid]
    (h : s.callbackReturns loop = some t) :
    s.deletion.frames = [] ∧ s.posts.callbackReturns loop = some t.posts ∧
      t.deletion = s.deletion ∧ t.workList = s.workList ∧ t.begun = s.begun ∧
      t.processing = s.processing ∧ t.event_gotterm = s.event_gotterm ∧
      (t.posts.loopPc = .looping → t.running = none) ∧
      (t.posts.loopPc ≠ .looping → t.running = s.running) := by
  obtain ⟨hframes, h⟩ := Option.ite_none_right_eq_some.mp h
  obtain ⟨posts, hposts, rfl⟩ := Option.map_eq_some_iff.mp h
  split
  · rename_i hpc
    exact ⟨hframes, hposts, rfl, rfl, rfl, rfl, rfl, fun _ => rfl,
      fun hne => absurd hpc hne⟩
  · rename_i hpc
    exact ⟨hframes, hposts, rfl, rfl, rfl, rfl, rfl,
      fun heq => absurd heq hpc, fun _ => rfl⟩

theorem startIteration_eq_some [DecidableEq ι] {ready : List ι}
    (h : s.startIteration ready = some t) :
    s.posts.loopPc = .looping ∧ s.processing = false ∧
      s.event_gotterm = false ∧ ready.Nodup ∧
      (∀ i ∈ ready, .other i ∉ s.workList) ∧
      t = { s with
        workList := s.workList ++ ready.map .other
        processing := true } := by
  unfold startIteration at h
  split at h
  · rename_i hpc
    obtain ⟨⟨hprocessing, hgotterm, hnodup, hfresh⟩, h⟩ :=
      Option.ite_none_right_eq_some.mp h
    exact ⟨hpc, hprocessing, hgotterm, hnodup, hfresh, (Option.some.inj h).symm⟩
  · cases h

theorem endIteration_eq_some (h : s.endIteration = some t) :
    s.processing = true ∧ s.posts.loopPc = .looping ∧ s.workList = [] ∧
      t = { s with processing := false } := by
  unfold endIteration at h
  split at h
  · rename_i hprocessing hpc hlist
    exact ⟨hprocessing, hpc, hlist, (Option.some.inj h).symm⟩
  · cases h

theorem block_eq_some (h : s.block = some t) :
    s.processing = false ∧ s.event_gotterm = false ∧ s.workList = [] ∧
      ∃ posts, s.posts.block = some posts ∧ t = { s with posts := posts } := by
  unfold block at h
  split at h
  · rename_i hprocessing hgotterm hlist
    obtain ⟨posts, hposts, rfl⟩ := Option.map_eq_some_iff.mp h
    exact ⟨hprocessing, hgotterm, hlist, posts, hposts, rfl⟩
  · cases h

/-- Waking the loop is a step of the posts, or none. -/
theorem notify_posts [DecidableEq Tid] (loop : Tid)
    (s : Dispatcher Tid α Obj Task ι) :
    s.notify.posts = s.posts ∨
      PostQueue.step loop s.posts .wake = some s.notify.posts := by
  unfold notify
  split
  · rename_i hpc
    refine Or.inr ?_
    simp [PostQueue.step, PostQueue.wake, hpc]
  · exact Or.inl rfl

@[simp] theorem notify_deletion (s : Dispatcher Tid α Obj Task ι) :
    s.notify.deletion = s.deletion := by
  unfold notify
  split
  · rfl
  · rfl

@[simp] theorem notify_workList (s : Dispatcher Tid α Obj Task ι) :
    s.notify.workList = s.workList := by
  unfold notify
  split
  · rfl
  · rfl

@[simp] theorem notify_running (s : Dispatcher Tid α Obj Task ι) :
    s.notify.running = s.running := by
  unfold notify
  split
  · rfl
  · rfl

@[simp] theorem notify_begun (s : Dispatcher Tid α Obj Task ι) :
    s.notify.begun = s.begun := by
  unfold notify
  split
  · rfl
  · rfl

variable [DecidableEq Tid] [DecidableEq ι] {a : Action Tid α Obj Task ι}

/-- What one step does to each part: in its posts the dispatcher behaves like
one that only posts, in its deferred deletions like one that only deletes, and
the queue of active events is filled at the back and emptied at the front. -/
structure Moves (loop : Tid) (s : Dispatcher Tid α Obj Task ι)
    (a : Action Tid α Obj Task ι) (t : Dispatcher Tid α Obj Task ι) :
    Prop where
  posts : t.posts = s.posts ∨
    ∃ b, PostQueue.step loop s.posts b = some t.posts
  deletion : t.deletion = s.deletion ∨
    ∃ b, DeferredDelete.step s.deletion b = some t.deletion ∧
      (a = .deferred b ∨ t.running = some .deferred_delete_cb_)
  workList : (t.begun = s.begun ∧
      ((∃ new, t.workList = s.workList ++ new) ∨
        ∃ i, t.workList = s.workList.filter fun e => e ≠ .other i)) ∨
    ∃ e, a = .runFirst ∧ s.workList = e :: t.workList ∧
      t.begun = s.begun ++ [e]
  running : t.running = s.running ∨
    a = .callFront ∨ a = .callbackReturns ∨ a = .runFirst

theorem Moves.of_posts {posts : PostQueue Tid α} {b : PostQueue.Action Tid α}
    (h : PostQueue.step loop s.posts b = some posts) :
    Moves loop s a { s with posts := posts } where
  posts := Or.inr ⟨b, h⟩
  deletion := Or.inl rfl
  workList := Or.inl ⟨rfl, Or.inl ⟨[], (List.append_nil _).symm⟩⟩
  running := Or.inl rfl

theorem Moves.of_append {new : List (ActiveEvent ι)}
    (hposts : t.posts = s.posts ∨
      ∃ b, PostQueue.step loop s.posts b = some t.posts)
    (hdeletion : t.deletion = s.deletion) (hbegun : t.begun = s.begun)
    (hlist : t.workList = s.workList ++ new)
    (hrunning : t.running = s.running ∨
      a = .callFront ∨ a = .callbackReturns ∨ a = .runFirst) :
    Moves loop s a t where
  posts := hposts
  deletion := Or.inl hdeletion
  workList := Or.inl ⟨hbegun, Or.inl ⟨new, hlist⟩⟩
  running := hrunning

theorem step_moves (h : step loop s a = some t) : Moves loop s a t := by
  cases a with
  | push th callback =>
      obtain ⟨-, h⟩ := Option.ite_none_right_eq_some.mp h
      obtain ⟨posts, hposts, rfl⟩ := Option.map_eq_some_iff.mp h
      exact .of_posts (b := .push th callback) hposts
  | testEnabled th =>
      obtain ⟨posts, hposts, rfl⟩ := Option.map_eq_some_iff.mp h
      exact .of_posts (b := .testEnabled th) hposts
  | activate th =>
      obtain ⟨posts, hposts, rfl⟩ := Option.map_eq_some_iff.mp h
      obtain ⟨new, hnew⟩ := enqueue_eq_append s.workList .post_cb_
      exact .of_append (Or.inr ⟨.activate th, hposts⟩) rfl rfl hnew (Or.inl rfl)
  | deferred b =>
      obtain ⟨-, -, -, deletion, hdeletion, rfl⟩ := deferred_eq_some h
      refine ⟨Or.inl rfl, Or.inr ⟨b, hdeletion, Or.inl rfl⟩,
        Or.inl ⟨rfl, Or.inl ?_⟩, Or.inl rfl⟩
      by_cases henabled : deletion.deferred_delete_cb_.enabled = true
      · rw [if_pos henabled]
        exact enqueue_eq_append _ _
      · rw [if_neg henabled]
        exact ⟨[], (List.append_nil _).symm⟩
  | activateOther i =>
      obtain rfl := Option.some.inj h
      obtain ⟨new, hnew⟩ := enqueue_eq_append s.workList (.other i)
      have hposts := notify_posts loop (s.eventActive (.other i))
      exact .of_append (hposts.imp id fun hwake => ⟨.wake, hwake⟩)
        (notify_deletion _) (notify_begun _) ((notify_workList _).trans hnew)
        (Or.inl (notify_running _))
  | cancelOther i =>
      obtain rfl := Option.some.inj h
      exact ⟨Or.inl rfl, Or.inl rfl, Or.inl ⟨rfl, Or.inr ⟨i, rfl⟩⟩, Or.inl rfl⟩
  | exit =>
      obtain rfl := Option.some.inj h
      have hposts := notify_posts loop
        { s with workList := s.workList ++ [.loopexit] }
      exact .of_append (hposts.imp id fun hwake => ⟨.wake, hwake⟩)
        (notify_deletion _) (notify_begun _) (notify_workList _)
        (Or.inl (notify_running _))
  | enterRun =>
      obtain ⟨-, h⟩ := Option.ite_none_right_eq_some.mp h
      obtain ⟨posts, hposts, rfl⟩ := Option.map_eq_some_iff.mp h
      exact .of_posts (b := .enterRun) hposts
  | takeAll =>
      obtain ⟨posts, hposts, rfl⟩ := Option.map_eq_some_iff.mp h
      exact .of_posts (b := .takeAll) hposts
  | callFront =>
      obtain ⟨hposts, hdeletion, hlist, hbegun, -⟩ := callFront_posts h
      exact .of_append (Or.inr ⟨.callFront, hposts⟩) hdeletion hbegun
        (hlist.trans (List.append_nil _).symm) (Or.inr (Or.inl rfl))
  | callbackReturns =>
      obtain ⟨-, hposts, hdeletion, hlist, hbegun, -⟩ := callbackReturns_posts h
      exact .of_append (Or.inr ⟨.callbackReturns, hposts⟩) hdeletion hbegun
        (hlist.trans (List.append_nil _).symm) (Or.inr (Or.inr (Or.inl rfl)))
  | startIteration ready =>
      obtain ⟨-, -, -, -, -, rfl⟩ := startIteration_eq_some h
      exact .of_append (Or.inl rfl) rfl rfl rfl (Or.inl rfl)
  | runFirst =>
      obtain ⟨-, -, e, hlist, hbegun, -, hcases⟩ := runFirst_eq_some h
      refine ⟨?_, ?_, Or.inr ⟨e, rfl, hlist, hbegun⟩,
        Or.inr (Or.inr (Or.inr rfl))⟩
      · rcases hcases with ⟨-, hposts, -⟩ | ⟨-, hposts, -⟩ | ⟨-, hposts, -⟩ |
          ⟨i, -, hposts, -⟩
        · exact Or.inr ⟨.dequeue, hposts⟩
        · exact Or.inr ⟨.runOther, hposts⟩
        · exact Or.inl hposts
        · exact Or.inr ⟨.runOther, hposts⟩
      · rcases hcases with ⟨-, -, hdeletion, -⟩ |
          ⟨rfl, -, hdeletion, hrunning⟩ | ⟨-, -, hdeletion, -⟩ |
          ⟨i, -, -, hdeletion, -⟩
        · exact Or.inl hdeletion
        · exact Or.inr ⟨.fire, hdeletion, Or.inr hrunning⟩
        · exact Or.inl hdeletion
        · exact Or.inl hdeletion
  | endIteration =>
      obtain ⟨-, -, -, rfl⟩ := endIteration_eq_some h
      exact .of_append (Or.inl rfl) rfl rfl (List.append_nil _).symm (Or.inl rfl)
  | block =>
      obtain ⟨-, -, -, posts, hposts, rfl⟩ := block_eq_some h
      exact .of_posts (b := .block) hposts
  | wake =>
      obtain ⟨posts, hposts, rfl⟩ := Option.map_eq_some_iff.mp h
      exact .of_posts (b := .wake) hposts
  | leaveRun =>
      obtain ⟨-, h⟩ := Option.ite_none_right_eq_some.mp h
      obtain ⟨posts, hposts, rfl⟩ := Option.map_eq_some_iff.mp h
      exact .of_posts (b := .leaveRun) hposts

end Parts

end Dispatcher

end EventServer.Event
