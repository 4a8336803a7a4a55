import Mathlib.Tactic

/-!
# Schedulable callbacks

A `SchedulableCallbackImpl` owns one raw event of libevent.  The event is in
none of libevent's queues, among the timers, or in the queue of active events;
`evtimer_pending` tells the first case from the other two.
-/

namespace EventServer.Event

/-- Where libevent holds a raw event. -/
inductive RawEvent where
  | idle
  | timed
  | active
  deriving DecidableEq, Repr

structure SchedulableCallbackImpl where
  raw_event_ : RawEvent
  deriving DecidableEq, Repr

namespace SchedulableCallbackImpl

/-- A new callback, which is not scheduled. -/
def create : SchedulableCallbackImpl := ⟨.idle⟩

def enabled (cb : SchedulableCallbackImpl) : Bool :=
  decide (cb.raw_event_ ≠ .idle)

/-- `event_active(&raw_event_, EV_TIMEOUT, 0)`. -/
def eventActive (_cb : SchedulableCallbackImpl) : SchedulableCallbackImpl :=
  ⟨.active⟩

def scheduleCallbackCurrentIteration (cb : SchedulableCallbackImpl) :
    SchedulableCallbackImpl :=
  if cb.enabled then cb else cb.eventActive

def scheduleCallbackNextIteration (cb : SchedulableCallbackImpl) :
    SchedulableCallbackImpl :=
  if cb.enabled then cb else ⟨.timed⟩

/-- `event_del`, which also removes an event that is already active. -/
def cancel (_cb : SchedulableCallbackImpl) : SchedulableCallbackImpl :=
  ⟨.idle⟩

/-- The loop finds that the timer has expired: the event moves to the active
events. -/
def expire (cb : SchedulableCallbackImpl) : Option SchedulableCallbackImpl :=
  if cb.raw_event_ = .timed then some ⟨.active⟩ else none

/-- The loop takes the event out of the active events to run its callback. -/
def dequeue (cb : SchedulableCallbackImpl) : Option SchedulableCallbackImpl :=
  if cb.raw_event_ = .active then some ⟨.idle⟩ else none

@[simp] theorem create_enabled : create.enabled = false := rfl

@[simp] theorem eventActive_enabled (cb : SchedulableCallbackImpl) :
    cb.eventActive.enabled = true := rfl

@[simp] theorem cancel_enabled (cb : SchedulableCallbackImpl) :
    cb.cancel.enabled = false := rfl

@[simp] theorem scheduleCallbackCurrentIteration_enabled
    (cb : SchedulableCallbackImpl) :
    cb.scheduleCallbackCurrentIteration.enabled = true := by
  unfold scheduleCallbackCurrentIteration
  by_cases h : cb.enabled
  · rw [if_pos h]
    exact h
  · rw [if_neg h]
    rfl

@[simp] theorem scheduleCallbackNextIteration_enabled
    (cb : SchedulableCallbackImpl) :
    cb.scheduleCallbackNextIteration.enabled = true := by
  unfold scheduleCallbackNextIteration
  by_cases h : cb.enabled
  · rw [if_pos h]
    exact h
  · rw [if_neg h]
    rfl

theorem expire_enabled {cb next : SchedulableCallbackImpl}
    (h : cb.expire = some next) :
    cb.enabled = true ∧ next.enabled = true := by
  obtain ⟨raw_event_⟩ := cb
  cases raw_event_ with
  | timed =>
      have heq := Option.some.inj h
      exact ⟨rfl, heq ▸ rfl⟩
  | idle => cases h
  | active => cases h

theorem dequeue_enabled {cb next : SchedulableCallbackImpl}
    (h : cb.dequeue = some next) :
    cb.enabled = true ∧ next.enabled = false := by
  obtain ⟨raw_event_⟩ := cb
  cases raw_event_ with
  | active =>
      have heq := Option.some.inj h
      exact ⟨rfl, heq ▸ rfl⟩
  | idle => cases h
  | timed => cases h

theorem scheduleCallbackCurrentIteration_untimed
    {cb : SchedulableCallbackImpl} (h : cb.raw_event_ ≠ .timed) :
    cb.scheduleCallbackCurrentIteration.raw_event_ ≠ .timed := by
  unfold scheduleCallbackCurrentIteration
  by_cases henabled : cb.enabled
  · rwa [if_pos henabled]
  · rw [if_neg henabled]
    exact nofun

theorem dequeue_untimed {cb next : SchedulableCallbackImpl}
    (h : cb.dequeue = some next) : next.raw_event_ ≠ .timed := by
  obtain ⟨-, heq⟩ := Option.ite_none_right_eq_some.mp h
  obtain rfl := Option.some.inj heq
  exact nofun

/-- An enabled callback that is no timer can be dequeued. -/
theorem exists_dequeue {cb : SchedulableCallbackImpl}
    (henabled : cb.enabled = true) (huntimed : cb.raw_event_ ≠ .timed) :
    ∃ next, cb.dequeue = some next := by
  obtain ⟨raw_event_⟩ := cb
  cases raw_event_ with
  | idle => cases henabled
  | timed => exact absurd rfl huntimed
  | active => exact ⟨_, rfl⟩

end SchedulableCallbackImpl

end EventServer.Event
