import EventServer.Support.Run
import EventServer.Event.FileEvent

/-!
# Runs of a file event

Between two steps of the loop the program calls `activate` and `setEnabled`,
inside and outside the callback of the event.  What happened so far is kept as
a history, newest first, from which the meaning of the mask of a callback is
read off: it is the readiness of the delivery together with everything that
was injected since the last callback or `setEnabled`.
-/

namespace EventServer.Event

open EventServer.Support

/-- What can be observed of a file event.  A callback is recorded with the
readiness of its delivery and with the mask that it received. -/
inductive FileObservation where
  | activated (events : ReadyMask)
  | enabledSet (events : ReadyMask)
  | called (delivered events : ReadyMask)
  deriving DecidableEq, Repr

namespace FileObservation

/-- The observation ends the collection of injected events. -/
def Boundary : FileObservation → Prop
  | .activated _ => False
  | .enabledSet _ | .called _ _ => True

/-- Everything injected since the last callback or `setEnabled`. -/
def injectedSince : List FileObservation → ReadyMask
  | [] => 0
  | .activated events :: older => injectedSince older ||| events
  | .enabledSet _ :: _ => 0
  | .called _ _ :: _ => 0

/-- The last mask given to `setEnabled`, or else to the constructor. -/
def lastEnabled (initial : ReadyMask) : List FileObservation → ReadyMask
  | [] => initial
  | .enabledSet events :: _ => events
  | .activated _ :: older => lastEnabled initial older
  | .called _ _ :: older => lastEnabled initial older

/-- Every callback received its delivery together with everything injected
since the last callback or `setEnabled` before it. -/
def CallsMerged : List FileObservation → Prop
  | [] => True
  | .called delivered events :: older =>
      events = delivered ||| injectedSince older ∧ CallsMerged older
  | .activated _ :: older => CallsMerged older
  | .enabledSet _ :: older => CallsMerged older

end FileObservation

open FileObservation

/-- A file event on its loop. -/
structure FileEventLoop where
  event : FileEventImpl
  inCallback : Bool
  history : List FileObservation
  deriving DecidableEq, Repr

namespace FileEventLoop

/-- A new file event. -/
def create (trigger : FileTriggerType) (events : ReadyMask) :
    Except Fault FileEventLoop := do
  let event ← FileEventImpl.create trigger events
  return { event := event, inCallback := false, history := [] }

inductive Action where
  /-- The program calls `activate`. -/
  | activate (events : ReadyMask)
  /-- The program calls `setEnabled`. -/
  | setEnabled (events : ReadyMask)
  /-- The loop finds the descriptor ready; the event becomes active. -/
  | fdReady (events : ReadyMask)
  /-- The loop dequeues the raw event and calls its lambda. -/
  | deliverFd
  /-- The loop finds that the activation timer has expired. -/
  | timerExpires
  /-- The loop dequeues the activation timer and calls its lambda. -/
  | deliverActivation
  /-- The callback of the event returns to the loop. -/
  | callbackReturns
  deriving DecidableEq, Repr

/-- The action can happen: calls of the program at any time, with the masks
that it may pass, and steps of the loop outside the callback. -/
def Enabled (s : FileEventLoop) : Action → Prop
  | .activate events => events ≠ 0 ∧ events.Supported
  | .setEnabled events => events.Supported
  | .fdReady events => s.inCallback = false ∧ s.event.raw_event_.added = true ∧
      events ≠ 0 ∧ events.Supported
  | .deliverFd => s.inCallback = false ∧ s.event.raw_event_.ready ≠ 0
  | .timerExpires =>
      s.inCallback = false ∧ s.event.activation_cb_.expire.isSome
  | .deliverActivation =>
      s.inCallback = false ∧ s.event.activation_cb_.dequeue.isSome
  | .callbackReturns => s.inCallback = true

instance (s : FileEventLoop) : DecidablePred s.Enabled
  | .activate events =>
      inferInstanceAs (Decidable (events ≠ 0 ∧ events.Supported))
  | .setEnabled events => inferInstanceAs (Decidable events.Supported)
  | .fdReady events => inferInstanceAs (Decidable
      (s.inCallback = false ∧ s.event.raw_event_.added = true ∧
        events ≠ 0 ∧ events.Supported))
  | .deliverFd => inferInstanceAs (Decidable
      (s.inCallback = false ∧ s.event.raw_event_.ready ≠ 0))
  | .timerExpires => inferInstanceAs (Decidable
      (s.inCallback = false ∧ s.event.activation_cb_.expire.isSome))
  | .deliverActivation => inferInstanceAs (Decidable
      (s.inCallback = false ∧ s.event.activation_cb_.dequeue.isSome))
  | .callbackReturns => inferInstanceAs (Decidable (s.inCallback = true))

/-- The loop has called a lambda that calls `cb_`. -/
def runCallback (s : FileEventLoop) (delivered : ReadyMask)
    (result : FileEventImpl × ReadyMask) : FileEventLoop where
  event := result.1
  inCallback := true
  history := .called delivered result.2 :: s.history

/-- What an action does. -/
def exec (s : FileEventLoop) : Action → Except Fault FileEventLoop
  | .activate events => do
      let event ← s.event.activate events
      return { s with
        event := event, history := .activated events :: s.history }
  | .setEnabled events =>
      return { s with
        event := s.event.setEnabled events
        history := .enabledSet events :: s.history }
  | .fdReady events =>
      let raw := s.event.raw_event_
      return { s with event := { s.event with
        raw_event_ := { raw with ready := raw.ready ||| events } } }
  | .deliverFd => do
      let raw := s.event.raw_event_
      let dequeued :=
        { s.event with raw_event_ := { raw with ready := 0 } }
      let result ← dequeued.onRawEvent (eventFlags raw.ready)
      return s.runCallback raw.ready result
  | .timerExpires =>
      let cb := s.event.activation_cb_.expire.getD s.event.activation_cb_
      return { s with event := { s.event with activation_cb_ := cb } }
  | .deliverActivation => do
      -- the timer is not pending any more when its lambda runs
      let cb := s.event.activation_cb_.dequeue.getD s.event.activation_cb_
      let result ← { s.event with activation_cb_ := cb }.onActivation
      return s.runCallback 0 result
  | .callbackReturns => return { s with inCallback := false }

def step (s : FileEventLoop) (a : Action) : Option FileEventLoop :=
  if s.Enabled a then (s.exec a).toOption else none

/-! ## The invariant -/

/-- The event agrees with its history. -/
structure Merged (initial : ReadyMask) (s : FileEventLoop) : Prop where
  armed : s.event.Armed
  registered : s.event.Registered
  ready_supported : s.event.raw_event_.ready.Supported
  injected_eq :
    s.event.injected_activation_events_ = injectedSince s.history
  enabled_eq : s.event.enabled_events_ = lastEnabled initial s.history
  calls : CallsMerged s.history

theorem create_merged {trigger : FileTriggerType} {initial : ReadyMask}
    {s : FileEventLoop} (h : create trigger initial = .ok s) :
    s.Merged initial ∧ s.event.trigger_ = trigger := by
  obtain ⟨event, hevent, heq⟩ := bind_eq_ok_iff.mp h
  have hs := Except.ok.inj heq
  have he := FileEventImpl.create_eq_ok hevent
  subst hs he
  refine ⟨⟨?_, ⟨rfl, rfl⟩, ?_, rfl, rfl, trivial⟩, rfl⟩
  · simp [FileEventImpl.Armed]
  · exact ReadyMask.supported_zero

/-- A callback of the event ends the collection of injected events. -/
theorem runCallback_merged {initial : ReadyMask} {s : FileEventLoop}
    (h : s.Merged initial) {e : FileEventImpl}
    (hregistered : e.Registered) (hready : e.raw_event_.ready.Supported)
    (hinjected : e.injected_activation_events_ =
      s.event.injected_activation_events_)
    (henabled : e.enabled_events_ = s.event.enabled_events_)
    (hcancelled : e.injected_activation_events_ = 0 →
      e.activation_cb_.enabled = false) (delivered : ReadyMask) :
    (s.runCallback delivered
      (e.mergeInjectedEventsAndRunCb delivered)).Merged initial := by
  obtain ⟨cb, hcb, hmerge⟩ :=
    FileEventImpl.mergeInjectedEventsAndRunCb_spec hcancelled delivered
  rw [hmerge]
  refine ⟨?_, hregistered, hready, rfl, ?_, ?_, h.calls⟩
  · simp [FileEventImpl.Armed, runCallback, hcb]
  · exact henabled.trans h.enabled_eq
  · rw [hinjected, h.injected_eq]

/-! ## Steps -/

/-- An action that can happen does not fail, keeps the trigger type and keeps
the event in agreement with its history. -/
theorem exec_merged {initial : ReadyMask} {s : FileEventLoop}
    (h : s.Merged initial) {a : Action} (ha : s.Enabled a) :
    ∃ t, s.exec a = .ok t ∧ t.Merged initial ∧
      t.event.trigger_ = s.event.trigger_ := by
  cases a with
  | activate events =>
      obtain ⟨hevents, hsupported⟩ := ha
      have hactivate := FileEventImpl.activate_eq h.armed hevents hsupported
      simp only [exec, hactivate, ok_bind, pure_eq_ok]
      refine ⟨_, rfl, ⟨?_, h.registered, h.ready_supported, ?_,
        h.enabled_eq, h.calls⟩, rfl⟩
      · refine iff_of_true ?_ ?_
        · intro hzero
          exact hevents (BitVec.or_eq_zero_iff.mp hzero).2
        · exact
            SchedulableCallbackImpl.scheduleCallbackNextIteration_enabled _
      · change s.event.injected_activation_events_ ||| events =
          injectedSince s.history ||| events
        rw [h.injected_eq]
  | setEnabled events =>
      obtain ⟨hregistered, henabled, htrigger, hinjected, harmed, hready⟩ :=
        FileEventImpl.setEnabled_spec h.registered h.armed h.ready_supported
          events
      exact ⟨_, rfl, ⟨harmed, hregistered, hready, hinjected, henabled,
        h.calls⟩, htrigger⟩
  | fdReady events =>
      obtain ⟨-, -, -, hsupported⟩ := ha
      exact ⟨_, rfl, ⟨h.armed, h.registered,
        h.ready_supported.or hsupported, h.injected_eq, h.enabled_eq,
        h.calls⟩, rfl⟩
  | deliverFd =>
      obtain ⟨-, hready⟩ := ha
      have hevents := readyEvents_eventFlags h.ready_supported
      simp only [exec, FileEventImpl.onRawEvent, hevents, ensure_of hready,
        ok_bind, pure_eq_ok]
      refine ⟨_, rfl, ?_, ?_⟩
      · refine runCallback_merged h ?_ ?_ ?_ ?_ ?_ _
        · exact h.registered
        · exact ReadyMask.supported_zero
        · rfl
        · rfl
        · intro hzero
          rw [← Bool.not_eq_true]
          exact fun henabled => h.armed.mpr henabled hzero
      · exact FileEventImpl.mergeInjectedEventsAndRunCb_trigger _ _
  | timerExpires =>
      obtain ⟨-, hexpire⟩ := ha
      obtain ⟨cb, hcb⟩ := Option.isSome_iff_exists.mp hexpire
      have henabled := SchedulableCallbackImpl.expire_enabled hcb
      simp only [exec, hcb, Option.getD_some, pure_eq_ok]
      refine ⟨_, rfl, ⟨?_, h.registered, h.ready_supported, h.injected_eq,
        h.enabled_eq, h.calls⟩, rfl⟩
      refine iff_of_true ?_ henabled.2
      exact h.armed.mpr henabled.1
  | deliverActivation =>
      obtain ⟨-, hdequeue⟩ := ha
      obtain ⟨cb, hcb⟩ := Option.isSome_iff_exists.mp hdequeue
      have henabled := SchedulableCallbackImpl.dequeue_enabled hcb
      have hinjected := h.armed.mpr henabled.1
      simp only [exec, hcb, Option.getD_some, FileEventImpl.onActivation,
        ensure_of hinjected, ok_bind, pure_eq_ok]
      refine ⟨_, rfl, ?_, ?_⟩
      · refine runCallback_merged h ?_ ?_ ?_ ?_ ?_ _
        · exact h.registered
        · exact h.ready_supported
        · rfl
        · rfl
        · intro _
          exact henabled.2
      · exact FileEventImpl.mergeInjectedEventsAndRunCb_trigger _ _
  | callbackReturns =>
      exact ⟨_, rfl, ⟨h.armed, h.registered, h.ready_supported,
        h.injected_eq, h.enabled_eq, h.calls⟩, rfl⟩

theorem step_merged {initial : ReadyMask} {s t : FileEventLoop} {a : Action}
    (h : s.Merged initial) (hstep : step s a = some t) :
    t.Merged initial ∧ t.event.trigger_ = s.event.trigger_ := by
  by_cases ha : s.Enabled a
  · obtain ⟨next, hexec, hnext, htrigger⟩ := exec_merged h ha
    have heq : next = t := by
      simpa [step, ha, hexec, Except.toOption] using hstep
    subst heq
    exact ⟨hnext, htrigger⟩
  · simp [step, ha] at hstep

/-! ## Histories -/

/-- Of an injected mask: either no callback or `setEnabled` has followed, and
it is still part of what will be delivered; or the first of them is a callback
that received it, or a `setEnabled`. -/
theorem activated_fate (newer older : List FileObservation)
    (events : ReadyMask)
    (hcalls : CallsMerged (newer ++ .activated events :: older)) :
    ((∀ o ∈ newer, ¬ o.Boundary) ∧
        events ||| injectedSince (newer ++ .activated events :: older) =
          injectedSince (newer ++ .activated events :: older)) ∨
      ∃ later o between, newer = later ++ o :: between ∧
        (∀ p ∈ between, ¬ p.Boundary) ∧
        ((∃ mask, o = .enabledSet mask) ∨
          ∃ delivered mask, o = .called delivered mask ∧
            events ||| mask = mask) := by
  induction newer with
  | nil =>
      refine Or.inl ⟨by simp, ?_⟩
      simp only [List.nil_append, injectedSince]
      rw [BitVec.or_comm, BitVec.or_assoc, BitVec.or_self]
  | cons o newer ih =>
      have htail : CallsMerged (newer ++ .activated events :: older) := by
        cases o with
        | activated mask => exact hcalls
        | enabledSet mask => exact hcalls
        | called delivered mask => exact hcalls.2
      rcases ih htail with ⟨hnone, hpart⟩ | ⟨later, p, between, hsplit, hrest⟩
      · cases o with
        | activated mask =>
            refine Or.inl ⟨?_, ?_⟩
            · intro p hp
              rcases List.mem_cons.mp hp with rfl | hp
              · exact id
              · exact hnone p hp
            · simp only [List.cons_append, injectedSince]
              rw [← BitVec.or_assoc, hpart]
        | enabledSet mask =>
            exact Or.inr ⟨[], _, newer, rfl, hnone, Or.inl ⟨mask, rfl⟩⟩
        | called delivered mask =>
            refine Or.inr ⟨[], _, newer, rfl, hnone,
              Or.inr ⟨delivered, mask, rfl, ?_⟩⟩
            have hmask : mask = delivered |||
                injectedSince (newer ++ .activated events :: older) :=
              hcalls.1
            rw [hmask, ← BitVec.or_assoc, BitVec.or_comm events delivered,
              BitVec.or_assoc, hpart]
      · refine Or.inr ⟨o :: later, p, between, ?_, hrest⟩
        rw [hsplit]
        rfl

/-! ## Runs -/

/-- On every run of a file event: injected events wait exactly while the
activation timer is scheduled; no action that can happen fails; every callback
received its delivery together with everything injected since the last
callback or `setEnabled`; every injected mask still waits, was delivered by
the next callback, or was discarded by a `setEnabled`; and libevent has the
event with the flags of the last mask that it was given. -/
theorem callbacks_merge_injected (trigger : FileTriggerType)
    (initial : ReadyMask) (start s : FileEventLoop) (actions : List Action)
    (hcreate : create trigger initial = .ok start)
    (hrun : run step start actions = some s) :
    (s.event.injected_activation_events_ ≠ 0 ↔
        s.event.activation_cb_.enabled = true) ∧
      (∀ a, s.Enabled a → ∃ t, s.exec a = .ok t) ∧
      CallsMerged s.history ∧
      (∀ newer older events,
        s.history = newer ++ .activated events :: older →
        ((∀ o ∈ newer, ¬ o.Boundary) ∧
            events ||| s.event.injected_activation_events_ =
              s.event.injected_activation_events_) ∨
          ∃ later o between, newer = later ++ o :: between ∧
            (∀ p ∈ between, ¬ p.Boundary) ∧
            ((∃ mask, o = .enabledSet mask) ∨
              ∃ delivered mask, o = .called delivered mask ∧
                events ||| mask = mask)) ∧
      s.event.raw_event_.added = true ∧
      s.event.raw_event_.flags =
        FileEventImpl.assignedFlags trigger (lastEnabled initial s.history) := by
  have hs : s.Merged initial ∧ s.event.trigger_ = trigger := by
    have hpreserve : ∀ u a t,
        u.Merged initial ∧ u.event.trigger_ = trigger → step u a = some t →
          t.Merged initial ∧ t.event.trigger_ = trigger := by
      rintro u a t ⟨hu, htrigger⟩ hstep
      obtain ⟨ht, hsame⟩ := step_merged hu hstep
      exact ⟨ht, hsame.trans htrigger⟩
    exact run_invariant hpreserve (create_merged hcreate) hrun
  obtain ⟨hmerged, htrigger⟩ := hs
  refine ⟨hmerged.armed, ?_, hmerged.calls, ?_, hmerged.registered.1, ?_⟩
  · intro a ha
    obtain ⟨t, hexec, -⟩ := exec_merged hmerged ha
    exact ⟨t, hexec⟩
  · intro newer older events hhistory
    rw [hmerged.injected_eq, hhistory]
    apply activated_fate
    rw [← hhistory]
    exact hmerged.calls
  · rw [hmerged.registered.2, htrigger, hmerged.enabled_eq]

/-- Two injected masks; the readiness of the descriptor overtakes the expired
activation timer; the callback injects again and then changes its mask. -/
def overtakenRun : List Action :=
  [.activate FileReadyType.Write, .timerExpires,
    .activate FileReadyType.Closed, .fdReady FileReadyType.Read, .deliverFd,
    .activate FileReadyType.Write, .setEnabled FileReadyType.Write,
    .callbackReturns, .activate FileReadyType.Read]

/-- A new event that is registered for reading. -/
def readingEvent : FileEventLoop where
  event := ⟨.Edge, FileReadyType.Read, 0, .create,
    ⟨FileEventImpl.assignedFlags .Edge FileReadyType.Read, true, 0⟩⟩
  inCallback := false
  history := []

theorem callbacks_merge_injected_of_overtaken_run :
    ∃ s, run step readingEvent overtakenRun = some s ∧
      s.history = [.activated FileReadyType.Read,
        .enabledSet FileReadyType.Write, .activated FileReadyType.Write,
        .called FileReadyType.Read 7, .activated FileReadyType.Closed,
        .activated FileReadyType.Write] ∧
      (s.event.injected_activation_events_ ≠ 0 ↔
        s.event.activation_cb_.enabled = true) ∧
      CallsMerged s.history ∧
      s.event.raw_event_.flags =
        FileEventImpl.assignedFlags .Edge
          (lastEnabled FileReadyType.Read s.history) := by
  suffices hexists : ∃ s, run step readingEvent overtakenRun = some s ∧
      s.history = [.activated FileReadyType.Read,
        .enabledSet FileReadyType.Write, .activated FileReadyType.Write,
        .called FileReadyType.Read 7, .activated FileReadyType.Closed,
        .activated FileReadyType.Write] by
    obtain ⟨s, hrun, hhistory⟩ := hexists
    have hcreate : create .Edge FileReadyType.Read = .ok readingEvent := rfl
    obtain ⟨harmed, -, hcalls, -, -, hflags⟩ := callbacks_merge_injected .Edge
      FileReadyType.Read readingEvent s overtakenRun hcreate hrun
    exact ⟨s, hrun, hhistory, harmed, hcalls, hflags⟩
  apply exists_run_of_eval
  decide +kernel

end FileEventLoop

end EventServer.Event
