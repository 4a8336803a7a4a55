import EventServer.Support.Machine
import EventServer.Event.SchedulableCallback

/-!
# File events

`FileEventImpl` registers a file descriptor with libevent and merges the
readiness that libevent reports with events that the program injects by
`activate`.  The functions run on the thread of the event's dispatcher, so
that their assertions about the thread hold.
-/

namespace EventServer.Event

open EventServer.Support

/-! ## Masks -/

/-- A `uint32_t` of `FileReadyType` bits. -/
abbrev ReadyMask := BitVec 32

namespace FileReadyType

def Read : ReadyMask := 0x1
def Write : ReadyMask := 0x2
def Closed : ReadyMask := 0x4

end FileReadyType

/-- The mask is a union of `Read`, `Write` and `Closed`. -/
def ReadyMask.Supported (events : ReadyMask) : Prop :=
  events &&& (FileReadyType.Read ||| FileReadyType.Write |||
    FileReadyType.Closed) = events

instance : DecidablePred ReadyMask.Supported :=
  fun events => inferInstanceAs (Decidable (_ = events))

/-- A `short` of libevent's event flags. -/
abbrev EventFlags := BitVec 16

def EV_READ : EventFlags := 0x02
def EV_WRITE : EventFlags := 0x04
def EV_PERSIST : EventFlags := 0x10
def EV_ET : EventFlags := 0x20
def EV_CLOSED : EventFlags := 0x80

/-- The flags of a mask, as `assignEvents` passes them and as libevent reports
them. -/
def eventFlags (events : ReadyMask) : EventFlags :=
  (if events &&& FileReadyType.Read ≠ 0 then EV_READ else 0) |||
    (if events &&& FileReadyType.Write ≠ 0 then EV_WRITE else 0) |||
    (if events &&& FileReadyType.Closed ≠ 0 then EV_CLOSED else 0)

/-- The mask that the lambda of `assignEvents` computes from the flags. -/
def readyEvents (what : EventFlags) : ReadyMask :=
  (if what &&& EV_READ ≠ 0 then FileReadyType.Read else 0) |||
    (if what &&& EV_WRITE ≠ 0 then FileReadyType.Write else 0) |||
    (if what &&& EV_CLOSED ≠ 0 then FileReadyType.Closed else 0)

theorem ReadyMask.Supported.eq_ofNat {events : ReadyMask}
    (h : events.Supported) : ∃ k < 8, events = BitVec.ofNat 32 k := by
  have hle : (events &&& (7 : BitVec 32)).toNat ≤ 7 := by
    rw [BitVec.toNat_and]
    exact Nat.and_le_right
  have heq : events &&& (7 : BitVec 32) = events := h
  rw [heq] at hle
  exact ⟨events.toNat, Nat.lt_succ_of_le hle, by simp⟩

theorem readyEvents_eventFlags {events : ReadyMask} (h : events.Supported) :
    readyEvents (eventFlags events) = events := by
  obtain ⟨k, hk, rfl⟩ := h.eq_ofNat
  interval_cases k
  all_goals decide

theorem ReadyMask.supported_zero : ReadyMask.Supported 0 := by decide

theorem ReadyMask.Supported.or {x y : ReadyMask} (hx : x.Supported)
    (hy : y.Supported) : ReadyMask.Supported (x ||| y) := by
  unfold Supported at *
  rw [BitVec.and_or_distrib_right, hx, hy]

/-! ## The event -/

/-- `FileTriggerType`. -/
inductive FileTriggerType where
  | Level
  | Edge
  | EmulatedEdge
  deriving DecidableEq, Repr

/-- The raw event as libevent holds it: the flags of the last `event_assign`,
whether it is added, and the readiness with which it is active, if any. -/
structure RawFileEvent where
  flags : EventFlags
  added : Bool
  ready : ReadyMask
  deriving DecidableEq, Repr

structure FileEventImpl where
  trigger_ : FileTriggerType
  enabled_events_ : ReadyMask
  injected_activation_events_ : ReadyMask
  activation_cb_ : SchedulableCallbackImpl
  raw_event_ : RawFileEvent
  deriving DecidableEq, Repr

namespace FileEventImpl

/-- The flags that `assignEvents` passes to `event_assign`. -/
def assignedFlags (trigger : FileTriggerType) (events : ReadyMask) :
    EventFlags :=
  EV_PERSIST ||| (if trigger = .Edge then EV_ET else 0) ||| eventFlags events

def assignEvents (e : FileEventImpl) (events : ReadyMask) : FileEventImpl :=
  { e with
    enabled_events_ := events
    raw_event_ := ⟨assignedFlags e.trigger_ events, false, 0⟩ }

/-- `event_add(&raw_event_, nullptr)`. -/
def eventAdd (e : FileEventImpl) : FileEventImpl :=
  { e with raw_event_ := { e.raw_event_ with added := true } }

/-- `event_del(&raw_event_)`, which also removes an event that is already
active. -/
def eventDel (e : FileEventImpl) : FileEventImpl :=
  { e with raw_event_ := { e.raw_event_ with added := false, ready := 0 } }

/-- The constructor, on a platform whose default trigger type is `Edge`. -/
def create (trigger : FileTriggerType) (events : ReadyMask) :
    Except Fault FileEventImpl := do
  ensure (trigger ≠ .EmulatedEdge) .assertion
  let e : FileEventImpl := {
    trigger_ := trigger
    enabled_events_ := events
    injected_activation_events_ := 0
    activation_cb_ := .create
    raw_event_ := ⟨0, false, 0⟩ }
  return (e.assignEvents events).eventAdd

def activate (e : FileEventImpl) (events : ReadyMask) :
    Except Fault FileEventImpl := do
  ensure (events ≠ 0) .assertion
  ensure events.Supported .assertion
  let e ← if e.injected_activation_events_ = 0 then do
      ensure (e.activation_cb_.enabled = false) .assertion
      pure { e with
        activation_cb_ := e.activation_cb_.scheduleCallbackNextIteration }
    else pure e
  ensure (e.activation_cb_.enabled = true) .assertion
  return { e with
    injected_activation_events_ := e.injected_activation_events_ ||| events }

def updateEvents (e : FileEventImpl) (events : ReadyMask) : FileEventImpl :=
  if events = e.enabled_events_ ∧ e.trigger_ ≠ .Edge then e
  else (e.eventDel.assignEvents events).eventAdd

/-- The injected events are dropped, and their delivery is cancelled. -/
def dropInjected (e : FileEventImpl) : FileEventImpl :=
  { e with
    injected_activation_events_ := 0
    activation_cb_ := e.activation_cb_.cancel }

def setEnabled (e : FileEventImpl) (events : ReadyMask) : FileEventImpl :=
  let e := if e.injected_activation_events_ ≠ 0 then e.dropInjected else e
  e.updateEvents events

/-- `mergeInjectedEventsAndRunCb`: the event, and the mask that `cb_` is called
with. -/
def mergeInjectedEventsAndRunCb (e : FileEventImpl) (events : ReadyMask) :
    FileEventImpl × ReadyMask :=
  if e.injected_activation_events_ ≠ 0
  then (e.dropInjected, events ||| e.injected_activation_events_)
  else (e, events)

/-- The lambda of `assignEvents`, called by libevent with the flags of the
readiness. -/
def onRawEvent (e : FileEventImpl) (what : EventFlags) :
    Except Fault (FileEventImpl × ReadyMask) := do
  let events := readyEvents what
  ensure (events ≠ 0) .assertion
  return e.mergeInjectedEventsAndRunCb events

/-- The lambda of `activation_cb_`. -/
def onActivation (e : FileEventImpl) :
    Except Fault (FileEventImpl × ReadyMask) := do
  ensure (e.injected_activation_events_ ≠ 0) .assertion
  return e.mergeInjectedEventsAndRunCb 0

/-! ## What the functions do -/

/-- libevent has the event with the flags of its enabled mask. -/
def Registered (e : FileEventImpl) : Prop :=
  e.raw_event_.added = true ∧
    e.raw_event_.flags = assignedFlags e.trigger_ e.enabled_events_

/-- The activation timer is scheduled exactly while events are injected. -/
def Armed (e : FileEventImpl) : Prop :=
  e.injected_activation_events_ ≠ 0 ↔ e.activation_cb_.enabled = true

theorem create_eq_ok {trigger : FileTriggerType} {events : ReadyMask}
    {e : FileEventImpl} (h : create trigger events = .ok e) :
    e = ⟨trigger, events, 0, .create,
      ⟨assignedFlags trigger events, true, 0⟩⟩ := by
  obtain ⟨_, -, heq⟩ := bind_eq_ok_iff.mp h
  exact (Except.ok.inj heq).symm

/-- On an armed event no assertion of `activate` fails. -/
theorem activate_eq {e : FileEventImpl} (h : e.Armed) {events : ReadyMask}
    (hevents : events ≠ 0) (hsupported : events.Supported) :
    e.activate events = .ok { e with
      activation_cb_ := e.activation_cb_.scheduleCallbackNextIteration
      injected_activation_events_ :=
        e.injected_activation_events_ ||| events } := by
  have hscheduled :=
    SchedulableCallbackImpl.scheduleCallbackNextIteration_enabled
      e.activation_cb_
  unfold activate
  rw [ensure_of hevents, ensure_of hsupported]
  simp only [ok_bind]
  by_cases hinjected : e.injected_activation_events_ = 0
  · have hdisabled : e.activation_cb_.enabled = false := by
      rw [← Bool.not_eq_true]
      exact fun henabled => h.mpr henabled hinjected
    rw [if_pos hinjected, ensure_of hdisabled]
    simp only [ok_bind, pure_eq_ok]
    rw [ensure_of hscheduled]
    rfl
  · have henabled := h.mp hinjected
    have hsame : e.activation_cb_.scheduleCallbackNextIteration =
        e.activation_cb_ := if_pos henabled
    rw [if_neg hinjected, hsame]
    simp only [ok_bind, pure_eq_ok]
    rw [ensure_of henabled]
    rfl

/-- Whether or not the update is skipped, the new mask is registered. -/
theorem updateEvents_spec {e : FileEventImpl} (h : e.Registered)
    (hready : e.raw_event_.ready.Supported) (events : ReadyMask) :
    (e.updateEvents events).Registered ∧
      (e.updateEvents events).enabled_events_ = events ∧
      (e.updateEvents events).trigger_ = e.trigger_ ∧
      (e.updateEvents events).injected_activation_events_ =
        e.injected_activation_events_ ∧
      (e.updateEvents events).activation_cb_ = e.activation_cb_ ∧
      (e.updateEvents events).raw_event_.ready.Supported := by
  unfold updateEvents
  by_cases hskip : events = e.enabled_events_ ∧ e.trigger_ ≠ .Edge
  · rw [if_pos hskip]
    exact ⟨h, hskip.1.symm, rfl, rfl, rfl, hready⟩
  · rw [if_neg hskip]
    exact ⟨⟨rfl, rfl⟩, rfl, rfl, rfl, rfl, ReadyMask.supported_zero⟩

/-- `setEnabled` leaves nothing injected and nothing scheduled. -/
theorem setEnabled_spec {e : FileEventImpl} (h : e.Registered)
    (harmed : e.Armed) (hready : e.raw_event_.ready.Supported)
    (events : ReadyMask) :
    (e.setEnabled events).Registered ∧
      (e.setEnabled events).enabled_events_ = events ∧
      (e.setEnabled events).trigger_ = e.trigger_ ∧
      (e.setEnabled events).injected_activation_events_ = 0 ∧
      (e.setEnabled events).Armed ∧
      (e.setEnabled events).raw_event_.ready.Supported := by
  unfold setEnabled
  by_cases hinjected : e.injected_activation_events_ = 0
  · simp only [hinjected, ne_eq, not_true_eq_false, if_false]
    obtain ⟨hreg, henabled, htrigger, hinj, hcb, hsup⟩ :=
      updateEvents_spec h hready events
    refine ⟨hreg, henabled, htrigger, hinj.trans hinjected, ?_, hsup⟩
    unfold Armed
    rw [hinj, hcb]
    exact harmed
  · simp only [hinjected, ne_eq, not_false_eq_true, if_true]
    have hdropped : e.dropInjected.Registered := h
    obtain ⟨hreg, henabled, htrigger, hinj, hcb, hsup⟩ :=
      updateEvents_spec hdropped hready events
    refine ⟨hreg, henabled, htrigger, hinj, ?_, hsup⟩
    unfold Armed
    rw [hinj, hcb]
    simp [dropInjected]

/-- The callback gets all injected events, and none of them stays behind. -/
theorem mergeInjectedEventsAndRunCb_spec {e : FileEventImpl}
    (hcancelled : e.injected_activation_events_ = 0 →
      e.activation_cb_.enabled = false) (events : ReadyMask) :
    ∃ cb, cb.enabled = false ∧
      e.mergeInjectedEventsAndRunCb events =
        ({ e with injected_activation_events_ := 0, activation_cb_ := cb },
          events ||| e.injected_activation_events_) := by
  unfold mergeInjectedEventsAndRunCb
  by_cases hinjected : e.injected_activation_events_ = 0
  · refine ⟨e.activation_cb_, hcancelled hinjected, ?_⟩
    have hevents : events ||| e.injected_activation_events_ = events := by
      rw [hinjected]
      exact BitVec.or_zero
    rw [if_neg (not_not_intro hinjected), hevents, ← hinjected]
  · refine ⟨e.activation_cb_.cancel, rfl, ?_⟩
    rw [if_pos hinjected]
    rfl

theorem mergeInjectedEventsAndRunCb_trigger (e : FileEventImpl)
    (events : ReadyMask) :
    (e.mergeInjectedEventsAndRunCb events).1.trigger_ = e.trigger_ := by
  unfold mergeInjectedEventsAndRunCb
  by_cases hinjected : e.injected_activation_events_ ≠ 0
  · rw [if_pos hinjected]
    rfl
  · rw [if_neg hinjected]

end FileEventImpl

end EventServer.Event
