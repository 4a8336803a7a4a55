import EventServer.Support.Run
import EventServer.Event.SchedulableCallback

/-!
# Posting callbacks to a dispatcher

`Dispatcher::post` may be called on any thread.  It pushes the callback under
`post_lock_`, and if the list was empty before it schedules `post_cb_`, which
is a test of `enabled()` and then a call of `event_active`, both outside the
lock.  The loop takes the whole list when it runs `post_cb_`, and once more at
the start of `run()`.
-/

namespace EventServer.Event

open EventServer.Support

/-- How far a thread is inside `post`: it has pushed to an empty list and will
test `enabled()`, or it has found `post_cb_` disabled and will call
`event_active`. -/
inductive PosterPc where
  | idle
  | scheduling
  | activating
  deriving DecidableEq, Repr

/-- What the thread of the dispatcher is doing.  `calling rest` is inside a
posted callback, and `rest` is what the batch still holds behind it. -/
inductive PostLoopPc (α : Type) where
  | outside
  | flushing
  | looping
  | blocked
  | otherEvent
  | dequeued
  | draining (rest : List α)
  | calling (rest : List α)
  deriving DecidableEq, Repr

/-- The code of the program runs on the dispatcher's thread, so that it may
call `post`. -/
def PostLoopPc.RunsUserCode {α : Type} : PostLoopPc α → Prop
  | .outside | .otherEvent | .calling _ => True
  | .flushing | .looping | .blocked | .dequeued | .draining _ => False

instance {α : Type} : DecidablePred (@PostLoopPc.RunsUserCode α)
  | .outside | .otherEvent | .calling _ => isTrue trivial
  | .flushing | .looping | .blocked | .dequeued | .draining _ => isFalse id

/-- The callbacks that the batch in progress has not begun to run. -/
def PostLoopPc.batch {α : Type} : PostLoopPc α → List α
  | .draining rest | .calling rest => rest
  | .outside | .flushing | .looping | .blocked | .otherEvent | .dequeued => []

/-- A dispatcher with the threads that post to it.  `pushed` and `ran` are the
histories of the pushes and of the calls of posted callbacks. -/
structure PostQueue (Tid α : Type) where
  post_callbacks_ : List α
  post_cb_ : SchedulableCallbackImpl
  posters : Tid → PosterPc
  loopPc : PostLoopPc α
  pushed : List α
  ran : List α

namespace PostQueue

variable {Tid α : Type}

/-- A new dispatcher. -/
def create : PostQueue Tid α where
  post_callbacks_ := []
  post_cb_ := .create
  posters := fun _ => .idle
  loopPc := .outside
  pushed := []
  ran := []

/-! ## Steps of a poster -/

/-- The part of `post` under the lock. -/
def push [DecidableEq Tid] (loop : Tid) (s : PostQueue Tid α) (t : Tid)
    (callback : α) : Option (PostQueue Tid α) :=
  if s.posters t = .idle ∧ (t = loop → s.loopPc.RunsUserCode) then
    let do_post := s.post_callbacks_.isEmpty
    some { s with
      post_callbacks_ := s.post_callbacks_ ++ [callback]
      pushed := s.pushed ++ [callback]
      posters := Function.update s.posters t
        (if do_post then .scheduling else .idle) }
  else none

/-- The test of `enabled()` in `scheduleCallbackCurrentIteration`. -/
def testEnabled [DecidableEq Tid] (s : PostQueue Tid α) (t : Tid) :
    Option (PostQueue Tid α) :=
  if s.posters t = .scheduling then
    let pc := if s.post_cb_.enabled then .idle else .activating
    some { s with posters := Function.update s.posters t pc }
  else none

/-- The call of `event_active`, which wakes the loop. -/
def activate [DecidableEq Tid] (s : PostQueue Tid α) (t : Tid) :
    Option (PostQueue Tid α) :=
  if s.posters t = .activating then
    some { s with
      post_cb_ := s.post_cb_.eventActive
      posters := Function.update s.posters t .idle
      loopPc := match s.loopPc with
        | .blocked => .looping
        | pc => pc }
  else none

/-! ## Steps of the loop -/

/-- Move the dispatcher's thread from one place to another. -/
def goto (s : PostQueue Tid α) (pc : PostLoopPc α) : PostQueue Tid α :=
  { s with loopPc := pc }

/-- `run()` is called. -/
def enterRun (loop : Tid) (s : PostQueue Tid α) : Option (PostQueue Tid α) :=
  match s.loopPc, s.posters loop with
  | .outside, .idle => some (s.goto .flushing)
  | _, _ => none

/-- The part of `runPostCallbacks` under the lock. -/
def takeAll (s : PostQueue Tid α) : Option (PostQueue Tid α) :=
  match s.loopPc with
  | .flushing | .dequeued =>
      some { s with
        post_callbacks_ := []
        loopPc := .draining s.post_callbacks_ }
  | _ => none

/-- The loop of `runPostCallbacks` calls the callback at the front, or ends. -/
def callFront (s : PostQueue Tid α) : Option (PostQueue Tid α) :=
  match s.loopPc with
  | .draining (callback :: rest) =>
      some { s with ran := s.ran ++ [callback], loopPc := .calling rest }
  | .draining [] => some (s.goto .looping)
  | _ => none

/-- A callback returns, of a post or of another event. -/
def callbackReturns (loop : Tid) (s : PostQueue Tid α) :
    Option (PostQueue Tid α) :=
  match s.loopPc, s.posters loop with
  | .calling rest, .idle => some (s.goto (.draining rest))
  | .otherEvent, .idle => some (s.goto .looping)
  | _, _ => none

/-- libevent dequeues `post_cb_` and calls `runPostCallbacks`. -/
def dequeue (s : PostQueue Tid α) : Option (PostQueue Tid α) :=
  match s.loopPc with
  | .looping => s.post_cb_.dequeue.map fun post_cb =>
      { s with post_cb_ := post_cb, loopPc := .dequeued }
  | _ => none

/-- libevent runs the callback of another event. -/
def runOther (s : PostQueue Tid α) : Option (PostQueue Tid α) :=
  match s.loopPc with
  | .looping => some (s.goto .otherEvent)
  | _ => none

/-- With no active event, libevent waits. -/
def block (s : PostQueue Tid α) : Option (PostQueue Tid α) :=
  match s.loopPc with
  | .looping => if s.post_cb_.enabled then none else some (s.goto .blocked)
  | _ => none

/-- The loop is woken by something else. -/
def wake (s : PostQueue Tid α) : Option (PostQueue Tid α) :=
  match s.loopPc with
  | .blocked => some (s.goto .looping)
  | _ => none

/-- `run()` returns after `exit()`. -/
def leaveRun (s : PostQueue Tid α) : Option (PostQueue Tid α) :=
  match s.loopPc with
  | .looping => some (s.goto .outside)
  | _ => none

inductive Action (Tid α : Type) where
  | push (t : Tid) (callback : α)
  | testEnabled (t : Tid)
  | activate (t : Tid)
  | enterRun
  | takeAll
  | callFront
  | callbackReturns
  | dequeue
  | runOther
  | block
  | wake
  | leaveRun
  deriving DecidableEq

/-- The step function, for a dispatcher whose thread is `loop`. -/
def step [DecidableEq Tid] (loop : Tid) (s : PostQueue Tid α) :
    Action Tid α → Option (PostQueue Tid α)
  | .push t callback => s.push loop t callback
  | .testEnabled t => s.testEnabled t
  | .activate t => s.activate t
  | .enterRun => s.enterRun loop
  | .takeAll => s.takeAll
  | .callFront => s.callFront
  | .callbackReturns => s.callbackReturns loop
  | .dequeue => s.dequeue
  | .runOther => s.runOther
  | .block => s.block
  | .wake => s.wake
  | .leaveRun => s.leaveRun

/-! ## The invariant -/

/-- A thread is between its push and its activation of `post_cb_`. -/
def InWindow (s : PostQueue Tid α) : Prop := ∃ t, s.posters t ≠ .idle

/-- Nothing that was pushed is lost, repeated or run out of order. -/
def Accounted (s : PostQueue Tid α) : Prop :=
  s.ran ++ s.loopPc.batch ++ s.post_callbacks_ = s.pushed

/-- Whenever callbacks wait, somebody is on the way to take them. -/
def Awaited (s : PostQueue Tid α) : Prop :=
  s.post_callbacks_ ≠ [] →
    s.post_cb_.enabled = true ∨ s.InWindow ∨ s.loopPc = .dequeued

/-- The invariant of every run. -/
structure Sound (s : PostQueue Tid α) : Prop where
  accounted : s.Accounted
  awaited : s.Awaited
  blocked_disabled : s.loopPc = .blocked → s.post_cb_.enabled = false

theorem create_sound : (create : PostQueue Tid α).Sound where
  accounted := rfl
  awaited := fun h => absurd rfl h
  blocked_disabled := by
    intro h
    cases h

/-- The wake-up stays on its way when nothing of it changes but the place of
the loop, which is not the one between dequeuing and taking the list. -/
theorem Awaited.goto {s : PostQueue Tid α} (h : s.Awaited)
    {pc : PostLoopPc α} (hpc : s.loopPc ≠ .dequeued) : (s.goto pc).Awaited := by
  intro hwaiting
  rcases h hwaiting with hpending | hwindow | hdequeued
  · exact Or.inl hpending
  · exact Or.inr (Or.inl hwindow)
  · exact absurd hdequeued hpc

/-- The loop goes on without touching the posts. -/
theorem Sound.goto {s : PostQueue Tid α} (h : s.Sound) {pc : PostLoopPc α}
    (hbatch : pc.batch = s.loopPc.batch) (hpc : s.loopPc ≠ .dequeued)
    (hblocked : pc = .blocked → s.post_cb_.enabled = false) :
    (s.goto pc).Sound where
  accounted := by
    change s.ran ++ pc.batch ++ s.post_callbacks_ = s.pushed
    rw [hbatch]
    exact h.accounted
  awaited := h.awaited.goto hpc
  blocked_disabled := hblocked

/-! ## Steps of a poster keep the invariant -/

/-- A poster other than `t` stays in its window, and so does `t` unless it
becomes idle. -/
theorem inWindow_update [DecidableEq Tid] {s : PostQueue Tid α} {t : Tid}
    {pc : PosterPc} (hpc : pc ≠ .idle) :
    ∃ u, Function.update s.posters t pc u ≠ .idle := by
  refine ⟨t, ?_⟩
  rw [Function.update_self]
  exact hpc

theorem push_sound [DecidableEq Tid] {loop t : Tid}
    {s next : PostQueue Tid α} {callback : α} (h : s.Sound)
    (hstep : s.push loop t callback = some next) : next.Sound := by
  unfold push at hstep
  split at hstep
  · rename_i hready
    have heq := Option.some.inj hstep
    subst heq
    refine ⟨?_, ?_, h.blocked_disabled⟩
    · change s.ran ++ s.loopPc.batch ++ (s.post_callbacks_ ++ [callback]) =
        s.pushed ++ [callback]
      rw [← List.append_assoc, h.accounted]
    · intro _
      by_cases hempty : s.post_callbacks_ = []
      · -- the push found an empty list, so this thread will schedule
        refine Or.inr (Or.inl ?_)
        change ∃ u, Function.update s.posters t _ u ≠ .idle
        rw [hempty]
        exact inWindow_update nofun
      · have hnonempty : s.post_callbacks_.isEmpty = false := by
          simpa using hempty
        rcases h.awaited hempty with hpending | ⟨u, hu⟩ | hdequeued
        · exact Or.inl hpending
        · refine Or.inr (Or.inl ⟨u, ?_⟩)
          change Function.update s.posters t _ u ≠ .idle
          have hut : u ≠ t := by
            rintro rfl
            exact hu hready.1
          rw [Function.update_of_ne hut]
          exact hu
        · exact Or.inr (Or.inr hdequeued)
  · cases hstep

theorem testEnabled_sound [DecidableEq Tid] {t : Tid}
    {s next : PostQueue Tid α} (h : s.Sound)
    (hstep : s.testEnabled t = some next) : next.Sound := by
  unfold testEnabled at hstep
  split at hstep
  · have heq := Option.some.inj hstep
    subst heq
    refine ⟨h.accounted, ?_, h.blocked_disabled⟩
    intro _
    by_cases henabled : s.post_cb_.enabled = true
    · -- a pending `post_cb_` will still take the callback
      exact Or.inl henabled
    · refine Or.inr (Or.inl ?_)
      change ∃ u, Function.update s.posters t _ u ≠ .idle
      rw [if_neg henabled]
      exact inWindow_update nofun
  · cases hstep

theorem activate_sound [DecidableEq Tid] {t : Tid}
    {s next : PostQueue Tid α} (h : s.Sound)
    (hstep : s.activate t = some next) : next.Sound := by
  unfold activate at hstep
  split at hstep
  · have heq := Option.some.inj hstep
    subst heq
    refine ⟨?_, fun _ => Or.inl rfl, ?_⟩
    · have haccounted := h.accounted
      unfold Accounted at haccounted ⊢
      cases hpc : s.loopPc
      all_goals simpa [hpc, PostLoopPc.batch] using haccounted
    · intro hblocked
      cases hpc : s.loopPc
      all_goals simp [hpc] at hblocked
  · cases hstep

/-! ## Steps of the loop keep the invariant -/

theorem takeAll_sound {s next : PostQueue Tid α} (h : s.Sound)
    (hstep : s.takeAll = some next) : next.Sound := by
  suffices hbatch : s.loopPc.batch = [] ∧ next = { s with
      post_callbacks_ := [], loopPc := .draining s.post_callbacks_ } by
    obtain ⟨hbatch, rfl⟩ := hbatch
    refine ⟨?_, fun hwaiting => absurd rfl hwaiting, ?_⟩
    · have haccounted := h.accounted
      rw [Accounted, hbatch, List.append_nil] at haccounted
      change s.ran ++ s.post_callbacks_ ++ [] = s.pushed
      rw [List.append_nil]
      exact haccounted
    · intro hblocked
      cases hblocked
  unfold takeAll at hstep
  cases hpc : s.loopPc with
  | flushing =>
      rw [hpc] at hstep
      exact ⟨rfl, (Option.some.inj hstep).symm⟩
  | dequeued =>
      rw [hpc] at hstep
      exact ⟨rfl, (Option.some.inj hstep).symm⟩
  | outside | looping | blocked | otherEvent | draining rest | calling rest =>
      rw [hpc] at hstep
      cases hstep

theorem callFront_sound {s next : PostQueue Tid α} (h : s.Sound)
    (hstep : s.callFront = some next) : next.Sound := by
  unfold callFront at hstep
  split at hstep
  · rename_i callback rest hpc
    have heq := Option.some.inj hstep
    subst heq
    refine ⟨?_, ?_, ?_⟩
    · have haccounted := h.accounted
      rw [Accounted, hpc] at haccounted
      change s.ran ++ [callback] ++ rest ++ s.post_callbacks_ = s.pushed
      rw [← haccounted]
      simp [PostLoopPc.batch]
    · apply h.awaited.goto
      rw [hpc]
      exact nofun
    · intro hblocked
      cases hblocked
  · rename_i hpc
    have heq := Option.some.inj hstep
    subst heq
    apply h.goto
    · rw [hpc]
      rfl
    · rw [hpc]
      exact nofun
    · intro hblocked
      cases hblocked
  · cases hstep

/-- Once dequeued, `post_cb_` is disabled, but the list will be taken. -/
theorem dequeue_sound {s next : PostQueue Tid α} (h : s.Sound)
    (hstep : s.dequeue = some next) : next.Sound := by
  unfold dequeue at hstep
  split at hstep
  · rename_i hpc
    obtain ⟨post_cb, -, heq⟩ := Option.map_eq_some_iff.mp hstep
    subst heq
    refine ⟨?_, fun _ => Or.inr (Or.inr rfl), ?_⟩
    · have haccounted := h.accounted
      rw [Accounted, hpc] at haccounted
      exact haccounted
    · intro hblocked
      cases hblocked
  · cases hstep

theorem block_sound {s next : PostQueue Tid α} (h : s.Sound)
    (hstep : s.block = some next) : next.Sound := by
  unfold block at hstep
  split at hstep
  · rename_i hpc
    split at hstep
    · cases hstep
    · rename_i henabled
      have heq := Option.some.inj hstep
      subst heq
      apply h.goto
      · rw [hpc]
        rfl
      · rw [hpc]
        exact nofun
      · intro _
        simpa using henabled
  · cases hstep

/-- The loop moves on, from a place other than the one between dequeuing and
taking the list, and does not block. -/
theorem Sound.move {s next : PostQueue Tid α} (h : s.Sound)
    {old pc : PostLoopPc α} (hpc : s.loopPc = old)
    (hstep : some (s.goto pc) = some next) (hbatch : pc.batch = old.batch)
    (hold : old ≠ .dequeued) (hnew : pc ≠ .blocked) : next.Sound := by
  have heq := Option.some.inj hstep
  subst hpc heq
  exact h.goto hbatch hold (fun hblocked => absurd hblocked hnew)

theorem enterRun_sound {loop : Tid} {s next : PostQueue Tid α}
    (h : s.Sound) (hstep : s.enterRun loop = some next) : next.Sound := by
  unfold enterRun at hstep
  split at hstep
  · rename_i hpc _
    exact h.move hpc hstep rfl nofun nofun
  · cases hstep

theorem callbackReturns_sound {loop : Tid} {s next : PostQueue Tid α}
    (h : s.Sound) (hstep : s.callbackReturns loop = some next) :
    next.Sound := by
  unfold callbackReturns at hstep
  split at hstep
  · rename_i rest hpc _
    exact h.move hpc hstep rfl nofun nofun
  · rename_i hpc _
    exact h.move hpc hstep rfl nofun nofun
  · cases hstep

theorem runOther_sound {s next : PostQueue Tid α} (h : s.Sound)
    (hstep : s.runOther = some next) : next.Sound := by
  unfold runOther at hstep
  split at hstep
  · rename_i hpc
    exact h.move hpc hstep rfl nofun nofun
  · cases hstep

theorem wake_sound {s next : PostQueue Tid α} (h : s.Sound)
    (hstep : s.wake = some next) : next.Sound := by
  unfold wake at hstep
  split at hstep
  · rename_i hpc
    exact h.move hpc hstep rfl nofun nofun
  · cases hstep

theorem leaveRun_sound {s next : PostQueue Tid α} (h : s.Sound)
    (hstep : s.leaveRun = some next) : next.Sound := by
  unfold leaveRun at hstep
  split at hstep
  · rename_i hpc
    exact h.move hpc hstep rfl nofun nofun
  · cases hstep

/-! ## What each step does -/

section Steps

variable {s t : PostQueue Tid α}

theorem push_loopPc [DecidableEq Tid] {loop th : Tid} {callback : α}
    (h : s.push loop th callback = some t) :
    t.loopPc = s.loopPc ∧ t.post_cb_ = s.post_cb_ := by
  obtain ⟨-, heq⟩ := Option.ite_none_right_eq_some.mp h
  obtain rfl := Option.some.inj heq
  exact ⟨rfl, rfl⟩

theorem testEnabled_loopPc [DecidableEq Tid] {th : Tid}
    (h : s.testEnabled th = some t) :
    t.loopPc = s.loopPc ∧ t.post_cb_ = s.post_cb_ := by
  obtain ⟨-, heq⟩ := Option.ite_none_right_eq_some.mp h
  obtain rfl := Option.some.inj heq
  exact ⟨rfl, rfl⟩

theorem activate_loopPc [DecidableEq Tid] {th : Tid}
    (h : s.activate th = some t) :
    t.post_cb_.enabled = true ∧
      (t.loopPc = s.loopPc ∨ (s.loopPc = .blocked ∧ t.loopPc = .looping)) := by
  obtain ⟨-, heq⟩ := Option.ite_none_right_eq_some.mp h
  obtain rfl := Option.some.inj heq
  refine ⟨rfl, ?_⟩
  dsimp only
  split
  · rename_i hpc
    exact Or.inr ⟨hpc, rfl⟩
  · exact Or.inl rfl

theorem enterRun_eq_some {loop : Tid} (h : s.enterRun loop = some t) :
    s.loopPc = .outside ∧ s.posters loop = .idle ∧ t = s.goto .flushing := by
  unfold enterRun at h
  split at h
  · rename_i hpc hidle
    exact ⟨hpc, hidle, (Option.some.inj h).symm⟩
  · cases h

theorem takeAll_eq_some (h : s.takeAll = some t) :
    (s.loopPc = .flushing ∨ s.loopPc = .dequeued) ∧ t = { s with
      post_callbacks_ := [], loopPc := .draining s.post_callbacks_ } := by
  unfold takeAll at h
  split at h
  · rename_i hpc
    exact ⟨Or.inl hpc, (Option.some.inj h).symm⟩
  · rename_i hpc
    exact ⟨Or.inr hpc, (Option.some.inj h).symm⟩
  · cases h

theorem callFront_eq_some (h : s.callFront = some t) :
    (∃ callback rest, s.loopPc = .draining (callback :: rest) ∧
      t = { s with ran := s.ran ++ [callback], loopPc := .calling rest }) ∨
    (s.loopPc = .draining [] ∧ t = s.goto .looping) := by
  unfold callFront at h
  split at h
  · rename_i callback rest hpc
    exact Or.inl ⟨callback, rest, hpc, (Option.some.inj h).symm⟩
  · rename_i hpc
    exact Or.inr ⟨hpc, (Option.some.inj h).symm⟩
  · cases h

theorem callbackReturns_eq_some {loop : Tid}
    (h : s.callbackReturns loop = some t) :
    s.posters loop = .idle ∧
      ((∃ rest, s.loopPc = .calling rest ∧ t = s.goto (.draining rest)) ∨
        (s.loopPc = .otherEvent ∧ t = s.goto .looping)) := by
  unfold callbackReturns at h
  split at h
  · rename_i rest hpc hidle
    exact ⟨hidle, Or.inl ⟨rest, hpc, (Option.some.inj h).symm⟩⟩
  · rename_i hpc hidle
    exact ⟨hidle, Or.inr ⟨hpc, (Option.some.inj h).symm⟩⟩
  · cases h

theorem dequeue_eq_some (h : s.dequeue = some t) :
    s.loopPc = .looping ∧ ∃ post_cb, s.post_cb_.dequeue = some post_cb ∧
      t = { s with post_cb_ := post_cb, loopPc := .dequeued } := by
  unfold dequeue at h
  split at h
  · rename_i hpc
    obtain ⟨post_cb, hdequeue, heq⟩ := Option.map_eq_some_iff.mp h
    exact ⟨hpc, post_cb, hdequeue, heq.symm⟩
  · cases h

theorem runOther_eq_some (h : s.runOther = some t) :
    s.loopPc = .looping ∧ t = s.goto .otherEvent := by
  unfold runOther at h
  split at h
  · rename_i hpc
    exact ⟨hpc, (Option.some.inj h).symm⟩
  · cases h

theorem block_eq_some (h : s.block = some t) :
    s.loopPc = .looping ∧ s.post_cb_.enabled = false ∧ t = s.goto .blocked := by
  unfold block at h
  split at h
  · rename_i hpc
    split at h
    · cases h
    · rename_i henabled
      exact ⟨hpc, by simpa using henabled, (Option.some.inj h).symm⟩
  · cases h

theorem wake_eq_some (h : s.wake = some t) :
    s.loopPc = .blocked ∧ t = s.goto .looping := by
  unfold wake at h
  split at h
  · rename_i hpc
    exact ⟨hpc, (Option.some.inj h).symm⟩
  · cases h

theorem leaveRun_eq_some (h : s.leaveRun = some t) :
    s.loopPc = .looping ∧ t = s.goto .outside := by
  unfold leaveRun at h
  split at h
  · rename_i hpc
    exact ⟨hpc, (Option.some.inj h).symm⟩
  · cases h

/-- The loop's thread moves to a place with the same batch.  It does not skip
taking the list, and where it leaves code of the program, it is not inside
`post`. -/
structure MovesTo (loop : Tid) (s : PostQueue Tid α) (pc : PostLoopPc α) :
    Prop where
  batch : pc.batch = s.loopPc.batch
  not_dequeued : s.loopPc ≠ .dequeued
  own : ¬ pc.RunsUserCode → ¬ s.loopPc.RunsUserCode ∨ s.posters loop = .idle

theorem exists_movesTo {loop : Tid} {old pc : PostLoopPc α}
    (hpc : s.loopPc = old) (ht : t = s.goto pc) (hbatch : pc.batch = old.batch)
    (hold : old ≠ .dequeued)
    (hown : ¬ pc.RunsUserCode → ¬ old.RunsUserCode ∨ s.posters loop = .idle) :
    ∃ pc, s.MovesTo loop pc ∧ t = s.goto pc := by
  subst hpc
  exact ⟨pc, ⟨hbatch, hold, hown⟩, ht⟩

/-- A step only moves the loop's thread, is one of a poster, takes the list,
calls a posted callback, or dequeues `post_cb_`. -/
theorem step_cases [DecidableEq Tid] {loop : Tid} {a : Action Tid α}
    (hstep : step loop s a = some t) :
    (∃ pc, s.MovesTo loop pc ∧ t = s.goto pc) ∨
    (∃ th callback, s.push loop th callback = some t) ∨
    (∃ th, s.testEnabled th = some t) ∨
    (∃ th, s.activate th = some t) ∨
    s.takeAll = some t ∨
    (∃ callback rest, s.loopPc = .draining (callback :: rest) ∧
      t = { s with ran := s.ran ++ [callback], loopPc := .calling rest }) ∨
    s.dequeue = some t := by
  cases a with
  | push th callback => exact Or.inr (Or.inl ⟨th, callback, hstep⟩)
  | testEnabled th => exact Or.inr (Or.inr (Or.inl ⟨th, hstep⟩))
  | activate th => exact Or.inr (Or.inr (Or.inr (Or.inl ⟨th, hstep⟩)))
  | takeAll => exact Or.inr (Or.inr (Or.inr (Or.inr (Or.inl hstep))))
  | callFront =>
      rcases callFront_eq_some hstep with hcalls | ⟨hpc, ht⟩
      · exact Or.inr (Or.inr (Or.inr (Or.inr (Or.inr (Or.inl hcalls)))))
      · exact Or.inl (exists_movesTo hpc ht rfl nofun fun _ => Or.inl id)
  | dequeue =>
      exact Or.inr (Or.inr (Or.inr (Or.inr (Or.inr (Or.inr hstep)))))
  | enterRun =>
      obtain ⟨hpc, hidle, ht⟩ := enterRun_eq_some hstep
      exact Or.inl (exists_movesTo hpc ht rfl nofun fun _ => Or.inr hidle)
  | callbackReturns =>
      obtain ⟨hidle, ⟨rest, hpc, ht⟩ | ⟨hpc, ht⟩⟩ :=
        callbackReturns_eq_some hstep
      · exact Or.inl (exists_movesTo hpc ht rfl nofun fun _ => Or.inr hidle)
      · exact Or.inl (exists_movesTo hpc ht rfl nofun fun _ => Or.inr hidle)
  | runOther =>
      obtain ⟨hpc, ht⟩ := runOther_eq_some hstep
      exact Or.inl (exists_movesTo hpc ht rfl nofun fun _ => Or.inl id)
  | block =>
      obtain ⟨hpc, -, ht⟩ := block_eq_some hstep
      exact Or.inl (exists_movesTo hpc ht rfl nofun fun _ => Or.inl id)
  | wake =>
      obtain ⟨hpc, ht⟩ := wake_eq_some hstep
      exact Or.inl (exists_movesTo hpc ht rfl nofun fun _ => Or.inl id)
  | leaveRun =>
      obtain ⟨hpc, ht⟩ := leaveRun_eq_some hstep
      exact Or.inl (exists_movesTo hpc ht rfl nofun fun _ => Or.inl id)

/-- The list is taken before a batch. -/
theorem takeAll_batch (h : s.takeAll = some t) :
    s.loopPc.batch = [] ∧ ¬ s.loopPc.RunsUserCode := by
  rcases (takeAll_eq_some h).1 with hpc | hpc
  · rw [hpc]
    exact ⟨rfl, id⟩
  · rw [hpc]
    exact ⟨rfl, id⟩

end Steps

/-- `post_cb_` is never given to libevent's timers. -/
theorem untimed_step [DecidableEq Tid] {loop : Tid} {s t : PostQueue Tid α}
    {a : Action Tid α} (h : s.post_cb_.raw_event_ ≠ .timed)
    (hstep : step loop s a = some t) : t.post_cb_.raw_event_ ≠ .timed := by
  rcases step_cases hstep with ⟨pc, -, rfl⟩ | ⟨th, callback, hpush⟩ |
    ⟨th, htest⟩ | ⟨th, hactivate⟩ | htake | ⟨callback, rest, -, rfl⟩ | hdequeue
  · exact h
  · rwa [(push_loopPc hpush).2]
  · rwa [(testEnabled_loopPc htest).2]
  · obtain ⟨-, heq⟩ := Option.ite_none_right_eq_some.mp hactivate
    obtain rfl := Option.some.inj heq
    exact nofun
  · obtain ⟨-, rfl⟩ := takeAll_eq_some htake
    exact h
  · exact h
  · obtain ⟨-, post_cb, hcb, rfl⟩ := dequeue_eq_some hdequeue
    exact SchedulableCallbackImpl.dequeue_untimed hcb

/-! ## What is handled -/

/-- The callbacks that have begun to run or will do so in the batch in
progress. -/
def handled (s : PostQueue Tid α) : List α := s.ran ++ s.loopPc.batch

/-- What is handled stays handled, and what is pushed stays pushed. -/
theorem step_grows [DecidableEq Tid] {loop : Tid} {s t : PostQueue Tid α}
    {a : Action Tid α} (hstep : step loop s a = some t) :
    s.handled <+: t.handled ∧ s.pushed <+: t.pushed := by
  rcases step_cases hstep with ⟨pc, hmoves, rfl⟩ | ⟨th, callback, hpush⟩ |
    ⟨th, htest⟩ | ⟨th, hactivate⟩ | htake | ⟨callback, rest, hpc, rfl⟩ |
    hdequeue
  · refine ⟨?_, List.prefix_rfl⟩
    change s.ran ++ s.loopPc.batch <+: s.ran ++ pc.batch
    rw [hmoves.batch]
  · obtain ⟨-, heq⟩ := Option.ite_none_right_eq_some.mp hpush
    obtain rfl := Option.some.inj heq
    exact ⟨List.prefix_rfl, List.prefix_append _ _⟩
  · obtain ⟨-, heq⟩ := Option.ite_none_right_eq_some.mp htest
    obtain rfl := Option.some.inj heq
    exact ⟨List.prefix_rfl, List.prefix_rfl⟩
  · obtain ⟨-, heq⟩ := Option.ite_none_right_eq_some.mp hactivate
    obtain rfl := Option.some.inj heq
    refine ⟨?_, List.prefix_rfl⟩
    change s.ran ++ s.loopPc.batch <+: s.ran ++ _
    split
    · rename_i hblocked
      rw [hblocked]
      exact List.prefix_rfl
    · exact List.prefix_rfl
  · have hbatch := (takeAll_batch htake).1
    obtain ⟨-, rfl⟩ := takeAll_eq_some htake
    refine ⟨?_, List.prefix_rfl⟩
    change s.ran ++ s.loopPc.batch <+: s.ran ++ s.post_callbacks_
    rw [hbatch, List.append_nil]
    exact List.prefix_append _ _
  · -- The callback moves from the batch to those that have begun to run.
    refine ⟨?_, List.prefix_rfl⟩
    change s.ran ++ s.loopPc.batch <+: s.ran ++ [callback] ++ rest
    rw [hpc, List.append_assoc]
    exact List.prefix_rfl
  · obtain ⟨hpc, post_cb, -, rfl⟩ := dequeue_eq_some hdequeue
    refine ⟨?_, List.prefix_rfl⟩
    change s.ran ++ s.loopPc.batch <+: s.ran ++ []
    rw [hpc]
    exact List.prefix_rfl

/-- While the loop's thread runs no code of the program, it is not inside
`post`. -/
theorem own_idle_step [DecidableEq Tid] {loop : Tid} {s t : PostQueue Tid α}
    {a : Action Tid α}
    (h : ¬ s.loopPc.RunsUserCode → s.posters loop = .idle)
    (hstep : step loop s a = some t) :
    ¬ t.loopPc.RunsUserCode → t.posters loop = .idle := by
  intro hcode
  rcases step_cases hstep with ⟨pc, hmoves, rfl⟩ | ⟨th, callback, hpush⟩ |
    ⟨th, htest⟩ | ⟨th, hactivate⟩ | htake | ⟨callback, rest, -, rfl⟩ | hdequeue
  · rcases hmoves.own hcode with hbefore | hidle
    · exact h hbefore
    · exact hidle
  · obtain ⟨⟨-, hown⟩, heq⟩ := Option.ite_none_right_eq_some.mp hpush
    obtain rfl := Option.some.inj heq
    have hne : loop ≠ th := fun hloop => hcode (hown hloop.symm)
    exact (Function.update_of_ne hne _ _).trans (h hcode)
  · obtain ⟨hscheduling, heq⟩ := Option.ite_none_right_eq_some.mp htest
    obtain rfl := Option.some.inj heq
    have hne : loop ≠ th := by
      rintro rfl
      have hidle := h hcode
      rw [hscheduling] at hidle
      cases hidle
    exact (Function.update_of_ne hne _ _).trans (h hcode)
  · have hpc := (activate_loopPc hactivate).2
    obtain ⟨-, heq⟩ := Option.ite_none_right_eq_some.mp hactivate
    obtain rfl := Option.some.inj heq
    by_cases hth : loop = th
    · subst hth
      exact Function.update_self _ _ _
    · refine (Function.update_of_ne hth _ _).trans (h ?_)
      rcases hpc with hpc | ⟨hpc, -⟩
      · rwa [hpc] at hcode
      · rw [hpc]
        exact id
  · have hbefore := (takeAll_batch htake).2
    obtain ⟨-, rfl⟩ := takeAll_eq_some htake
    exact h hbefore
  · exact absurd trivial hcode
  · obtain ⟨hpc, post_cb, -, rfl⟩ := dequeue_eq_some hdequeue
    exact h (by rw [hpc]; exact id)

/-- Taking the list makes everything handled that was pushed. -/
theorem takeAll_handled {s t : PostQueue Tid α} (h : s.Sound)
    (hstep : s.takeAll = some t) : t.handled = t.pushed := by
  have hbatch := (takeAll_batch hstep).1
  have haccounted := h.accounted
  obtain ⟨-, rfl⟩ := takeAll_eq_some hstep
  rw [Accounted, hbatch, List.append_nil] at haccounted
  exact haccounted

/-- Between dequeuing `post_cb_` and taking the list, the loop only waits for
the lock. -/
theorem dequeued_step [DecidableEq Tid] {loop : Tid} {s t : PostQueue Tid α}
    {a : Action Tid α} (h : s.Sound) (hpc : s.loopPc = .dequeued)
    (hstep : step loop s a = some t) :
    t.loopPc = .dequeued ∨ t.handled = t.pushed := by
  rcases step_cases hstep with ⟨pc, hmoves, -⟩ | ⟨th, callback, hpush⟩ |
    ⟨th, htest⟩ | ⟨th, hactivate⟩ | htake | ⟨callback, rest, hdraining, -⟩ |
    hdequeue
  · exact absurd hpc hmoves.not_dequeued
  · exact Or.inl ((push_loopPc hpush).1.trans hpc)
  · exact Or.inl ((testEnabled_loopPc htest).1.trans hpc)
  · rcases (activate_loopPc hactivate).2 with hsame | ⟨hblocked, -⟩
    · exact Or.inl (hsame.trans hpc)
    · rw [hpc] at hblocked
      cases hblocked
  · exact Or.inr (takeAll_handled h htake)
  · rw [hpc] at hdraining
    cases hdraining
  · have hlooping := (dequeue_eq_some hdequeue).1
    rw [hpc] at hlooping
    cases hlooping

/-! ## Runs -/

theorem step_sound [DecidableEq Tid] {loop : Tid}
    {s next : PostQueue Tid α} {a : Action Tid α} (h : s.Sound)
    (hstep : step loop s a = some next) : next.Sound := by
  cases a with
  | push t callback => exact push_sound h hstep
  | testEnabled t => exact testEnabled_sound h hstep
  | activate t => exact activate_sound h hstep
  | enterRun => exact enterRun_sound h hstep
  | takeAll => exact takeAll_sound h hstep
  | callFront => exact callFront_sound h hstep
  | callbackReturns => exact callbackReturns_sound h hstep
  | dequeue => exact dequeue_sound h hstep
  | runOther => exact runOther_sound h hstep
  | block => exact block_sound h hstep
  | wake => exact wake_sound h hstep
  | leaveRun => exact leaveRun_sound h hstep

/-- When the loop waits and no thread is inside `post`, every posted callback
has been run. -/
theorem Sound.all_ran {s : PostQueue Tid α} (h : s.Sound)
    (hblocked : s.loopPc = .blocked) (hidle : ∀ t, s.posters t = .idle) :
    s.ran = s.pushed := by
  have hnone : s.post_callbacks_ = [] := by
    by_contra hwaiting
    rcases h.awaited hwaiting with hpending | ⟨t, ht⟩ | hdequeued
    · rw [h.blocked_disabled hblocked] at hpending
      cases hpending
    · exact ht (hidle t)
    · rw [hblocked] at hdequeued
      cases hdequeued
  have haccounted := h.accounted
  rw [Accounted, hblocked, hnone] at haccounted
  simpa [PostLoopPc.batch] using haccounted

/-- On every run of a dispatcher with any threads that post to it, each posted
callback has been run once, is in the batch being run, or still waits, all in
the order of the pushes; whenever callbacks wait, `post_cb_` is pending, a
poster is about to activate it, or the loop is about to take them; and when the
loop waits and no thread is inside `post`, all have been run. -/
theorem post_no_callback_lost [DecidableEq Tid] (loop : Tid)
    (actions : List (Action Tid α)) (s : PostQueue Tid α)
    (hrun : run (step loop) create actions = some s) :
    (s.ran ++ s.loopPc.batch ++ s.post_callbacks_ = s.pushed) ∧
      (s.post_callbacks_ ≠ [] →
        s.post_cb_.enabled = true ∨ s.InWindow ∨ s.loopPc = .dequeued) ∧
      (s.loopPc = .blocked → (∀ t, s.posters t = .idle) →
        s.ran = s.pushed) := by
  have hsound : s.Sound :=
    run_invariant (fun _ _ _ h hstep => step_sound h hstep) create_sound hrun
  exact ⟨hsound.accounted, hsound.awaited, hsound.all_ran⟩

/-- Thread 1 posts while the loop runs a callback that itself posts, after a
flush that left `post_cb_` pending. -/
theorem post_no_callback_lost_of_two_posters :
    ∃ s, run (step 0) (create : PostQueue (Fin 2) ℕ)
        [.push 0 10, .testEnabled 0, .activate 0, .enterRun, .takeAll,
          .callFront, .push 0 11, .push 1 12, .testEnabled 0,
          .callbackReturns, .callFront, .dequeue] = some s ∧
      s.post_callbacks_ = [11, 12] ∧
      (s.ran ++ s.loopPc.batch ++ s.post_callbacks_ = s.pushed) ∧
      (s.post_callbacks_ ≠ [] →
        s.post_cb_.enabled = true ∨ s.InWindow ∨ s.loopPc = .dequeued) ∧
      (s.loopPc = .blocked → (∀ t, s.posters t = .idle) →
        s.ran = s.pushed) := by
  suffices hexists : ∃ s, run (step 0) (create : PostQueue (Fin 2) ℕ)
      [.push 0 10, .testEnabled 0, .activate 0, .enterRun, .takeAll,
        .callFront, .push 0 11, .push 1 12, .testEnabled 0,
        .callbackReturns, .callFront, .dequeue] = some s ∧
      s.post_callbacks_ = [11, 12] by
    obtain ⟨s, hrun, hwaiting⟩ := hexists
    exact ⟨s, hrun, hwaiting, post_no_callback_lost 0 _ s hrun⟩
  apply exists_run_of_eval
  decide

end PostQueue

end EventServer.Event
