import EventServer.Support.Condition
import EventServer.Support.Machine
import EventServer.Support.Run

/-!
# The owner record of a mutex

`MutexLock` and the `wait` of `Condition`, with a step for each access to
`holder_` and for each call of the pthread library.  A thread is known by its
id.  `pthread_cond_wait` releases the mutex and blocks in one step; it returns
in another step, after a signal or without one, once the mutex is free.  The
time-out of `waitForSeconds` is a wake-up without a signal.

The use of the mutex is correctly nested: a thread calls `lock()` only outside
the critical section, and `unlock()` and `wait()` only inside.
-/

namespace EventServer.Common

open EventServer.Support

/-- The id of a thread: a positive `pid_t`. -/
abbrev Tid := {n : ℤ // 0 < n}

/-- Where a thread is: `inside` between the return of `lock()` or `wait()` and
the next `unlock()` or `wait()`, `outside` behind `unlock()`, and in between in
one of these functions.

In `lock()` it waits for the mutex (`locking`) and then has it (`locked`); in
`unlock()` it still has it (`unlocking`).  In `wait()` it still has it
(`unassigned`), is blocked (`waiting`), and has it again (`woken`). -/
inductive LockPosition (κ : Type) where
  | outside
  | locking
  | locked
  | inside
  | unlocking
  | unassigned (c : κ)
  | waiting (c : κ)
  | woken
  deriving DecidableEq, Repr

/-- The thread has the pthread mutex. -/
def LockPosition.owns {κ : Type} : LockPosition κ → Bool
  | .locked | .inside | .unlocking | .unassigned _ | .woken => true
  | .outside | .locking | .waiting _ => false

/-- The thread has left the critical section, or is about to. -/
def LockPosition.isOut {κ : Type} : LockPosition κ → Bool
  | .outside | .unlocking => true
  | .locking | .locked | .inside | .unassigned _ | .waiting _
  | .woken => false

/-- A mutex with the condition variables that belong to it. -/
structure MutexLock (κ : Type) where
  mutex_ : Option Tid
  holder_ : ℤ
  conditions : κ → Condition Tid
  position : Tid → LockPosition κ

namespace MutexLock

variable {κ : Type}

/-- `MutexLock()`. -/
def create : MutexLock κ where
  mutex_ := none
  holder_ := 0
  conditions := fun _ => .create
  position := fun _ => .outside

def isLockedByThisThread (s : MutexLock κ) (t : Tid) : Bool :=
  s.holder_ = t

def assertLocked (s : MutexLock κ) (t : Tid) : Except Fault Unit :=
  ensure (s.isLockedByThisThread t = true) .assertion

def unassignHolder (s : MutexLock κ) : MutexLock κ := { s with holder_ := 0 }

def assignHolder (s : MutexLock κ) (t : Tid) : MutexLock κ :=
  { s with holder_ := t }

def goto (s : MutexLock κ) (t : Tid) (p : LockPosition κ) : MutexLock κ :=
  { s with position := Function.update s.position t p }

variable [DecidableEq κ]

def setCondition (s : MutexLock κ) (c : κ) (condition : Condition Tid) :
    MutexLock κ :=
  { s with conditions := Function.update s.conditions c condition }

/-! ## Steps -/

/-- The steps of a thread. -/
inductive Step (κ : Type) where
  /-- `lock()` is called. -/
  | lock
  /-- `pthread_mutex_lock` returns. -/
  | acquire
  /-- `lock()` assigns the holder and returns. -/
  | assign
  /-- `unlock()` is called, and unassigns the holder. -/
  | unassign
  /-- `pthread_mutex_unlock`. -/
  | release
  /-- `wait()` is called, and `UnassignGuard()` unassigns the holder. -/
  | guard (c : κ)
  /-- `pthread_cond_wait` releases the mutex and blocks. -/
  | block (c : κ)
  /-- A wake-up without a signal. -/
  | wake (c : κ)
  /-- `pthread_cond_wait` returns with the mutex. -/
  | resume (c : κ)
  /-- `~UnassignGuard()` assigns the holder, and `wait()` returns. -/
  | unguard
  /-- `notify()`; the signal goes to the thread `who`, if any thread waits. -/
  | notify (c : κ) (who : Tid)
  | notifyAll (c : κ)
  deriving DecidableEq, Repr

/-- The step is one inside `lock()`, `unlock()` or `wait()`, and not the call
of a function. -/
def Step.isInternal : Step κ → Bool
  | .acquire | .assign | .release | .block _ | .wake _ | .resume _
  | .unguard => true
  | .lock | .unassign | .guard _ | .notify _ _ | .notifyAll _ => false

/-- Where the thread is behind the step. -/
def Step.target : Step κ → LockPosition κ → LockPosition κ
  | .lock, _ => .locking
  | .acquire, _ => .locked
  | .assign, _ => .inside
  | .unassign, _ => .unlocking
  | .release, _ => .outside
  | .guard c, _ => .unassigned c
  | .block c, _ => .waiting c
  | .resume _, _ => .woken
  | .unguard, _ => .inside
  | .wake _, p | .notify _ _, p | .notifyAll _, p => p

def step (s : MutexLock κ) : Tid × Step κ → Option (MutexLock κ)
  | (t, .lock) =>
      if s.position t = .outside then some (s.goto t .locking) else none
  | (t, .acquire) =>
      if s.position t = .locking ∧ s.mutex_ = none
      then some { s.goto t .locked with mutex_ := some t } else none
  | (t, .assign) =>
      if s.position t = .locked
      then some ((s.assignHolder t).goto t .inside) else none
  | (t, .unassign) =>
      if s.position t = .inside
      then some (s.unassignHolder.goto t .unlocking) else none
  | (t, .release) =>
      if s.position t = .unlocking
      then some { s.goto t .outside with mutex_ := none } else none
  | (t, .guard c) =>
      if s.position t = .inside
      then some (s.unassignHolder.goto t (.unassigned c)) else none
  | (t, .block c) =>
      if s.position t = .unassigned c then
        ((s.conditions c).wait t).map fun condition =>
          { (s.setCondition c condition).goto t (.waiting c) with
            mutex_ := none }
      else none
  | (t, .wake c) =>
      if s.position t = .waiting c
      then ((s.conditions c).wake t).map (s.setCondition c) else none
  | (t, .resume c) =>
      if s.position t = .waiting c ∧ s.mutex_ = none then
        ((s.conditions c).resume t).map fun condition =>
          { (s.setCondition c condition).goto t .woken with
            mutex_ := some t }
      else none
  | (t, .unguard) =>
      if s.position t = .woken
      then some ((s.assignHolder t).goto t .inside) else none
  | (t, .notify c who) =>
      if s.position t = .outside ∨ s.position t = .inside
      then ((s.conditions c).notify who).map (s.setCondition c) else none
  | (t, .notifyAll c) =>
      if s.position t = .outside ∨ s.position t = .inside
      then some (s.setCondition c (s.conditions c).notifyAll) else none

/-! ## What one step does -/

/-- The effect of a step of `t`, which is at `p` afterwards, on the mutex and
on the owner record. -/
inductive Effect (s s' : MutexLock κ) (t : Tid) (p : LockPosition κ) : Prop where
  | stays (howns : p.owns = (s.position t).owns)
      (hinside : p = .inside ↔ s.position t = .inside)
      (hmutex : s'.mutex_ = s.mutex_) (hholder : s'.holder_ = s.holder_)
  | acquires (hfree : s.mutex_ = none) (hbefore : s.position t ≠ .inside)
      (howns : p.owns = true) (hafter : p ≠ .inside)
      (hmutex : s'.mutex_ = some t) (hholder : s'.holder_ = s.holder_)
  | assigns (howned : (s.position t).owns = true) (hafter : p = .inside)
      (hmutex : s'.mutex_ = s.mutex_) (hholder : s'.holder_ = t)
  | unassigns (hbefore : s.position t = .inside)
      (howns : p.owns = true) (hafter : p ≠ .inside)
      (hmutex : s'.mutex_ = s.mutex_) (hholder : s'.holder_ = 0)
  | releases (howned : (s.position t).owns = true)
      (hbefore : s.position t ≠ .inside) (howns : p.owns = false)
      (hmutex : s'.mutex_ = none) (hholder : s'.holder_ = s.holder_)

variable {s s' : MutexLock κ} {t : Tid} {a : Step κ}

/-- A step that leaves the position of the thread, the mutex and the owner
record as they are. -/
theorem setCondition_effect (c : κ) (d : Condition Tid) :
    (s.setCondition c d).position =
        Function.update s.position t (s.position t) ∧
      Effect s (s.setCondition c d) t (s.position t) :=
  ⟨(Function.update_eq_self t s.position).symm, .stays rfl Iff.rfl rfl rfl⟩

theorem step_effect (h : s.step (t, a) = some s') :
    s'.position = Function.update s.position t (a.target (s.position t)) ∧
      Effect s s' t (a.target (s.position t)) := by
  cases a with
  | lock =>
      obtain ⟨hpos, ⟨⟩⟩ := Option.ite_none_right_eq_some.mp h
      exact ⟨rfl, .stays (by simp [hpos, Step.target, LockPosition.owns])
        (by simp [hpos, Step.target]) rfl rfl⟩
  | acquire =>
      obtain ⟨⟨hpos, hfree⟩, ⟨⟩⟩ := Option.ite_none_right_eq_some.mp h
      exact ⟨rfl, .acquires hfree (by simp [hpos]) rfl
        (by simp [Step.target]) rfl rfl⟩
  | assign =>
      obtain ⟨hpos, ⟨⟩⟩ := Option.ite_none_right_eq_some.mp h
      exact ⟨rfl, .assigns (by simp [hpos, LockPosition.owns]) rfl rfl rfl⟩
  | unassign =>
      obtain ⟨hpos, ⟨⟩⟩ := Option.ite_none_right_eq_some.mp h
      exact ⟨rfl, .unassigns hpos rfl
        (by simp [Step.target]) rfl rfl⟩
  | release =>
      obtain ⟨hpos, ⟨⟩⟩ := Option.ite_none_right_eq_some.mp h
      exact ⟨rfl, .releases (by simp [hpos, LockPosition.owns])
        (by simp [hpos]) rfl rfl rfl⟩
  | guard c =>
      obtain ⟨hpos, ⟨⟩⟩ := Option.ite_none_right_eq_some.mp h
      exact ⟨rfl, .unassigns hpos rfl
        (by simp [Step.target]) rfl rfl⟩
  | block c =>
      obtain ⟨hpos, hwait⟩ := Option.ite_none_right_eq_some.mp h
      obtain ⟨d, -, rfl⟩ := Option.map_eq_some_iff.mp hwait
      exact ⟨rfl, .releases (by simp [hpos, LockPosition.owns])
        (by simp [hpos]) rfl rfl rfl⟩
  | wake c =>
      obtain ⟨-, hwake⟩ := Option.ite_none_right_eq_some.mp h
      obtain ⟨d, -, rfl⟩ := Option.map_eq_some_iff.mp hwake
      exact setCondition_effect c d
  | resume c =>
      obtain ⟨⟨hpos, hfree⟩, hresume⟩ := Option.ite_none_right_eq_some.mp h
      obtain ⟨d, -, rfl⟩ := Option.map_eq_some_iff.mp hresume
      exact ⟨rfl, .acquires hfree (by simp [hpos]) rfl
        (by simp [Step.target]) rfl rfl⟩
  | unguard =>
      obtain ⟨hpos, ⟨⟩⟩ := Option.ite_none_right_eq_some.mp h
      exact ⟨rfl, .assigns (by simp [hpos, LockPosition.owns]) rfl rfl rfl⟩
  | notify c who =>
      obtain ⟨-, hnotify⟩ := Option.ite_none_right_eq_some.mp h
      obtain ⟨d, -, rfl⟩ := Option.map_eq_some_iff.mp hnotify
      exact setCondition_effect c d
  | notifyAll c =>
      obtain ⟨-, ⟨⟩⟩ := Option.ite_none_right_eq_some.mp h
      exact setCondition_effect c _

/-- Inside the lock functions a thread only moves on to the end of the same
function. -/
theorem internal_spec (hinternal : a.isInternal = true)
    (h : s.step (t, a) = some s') :
    s.position t ≠ .inside ∧
      (a.target (s.position t)).isOut = (s.position t).isOut := by
  cases a with
  | lock | unassign | guard c | notify c who | notifyAll c => cases hinternal
  | acquire | assign | release | block c | wake c | resume c | unguard =>
      obtain ⟨hpos, -⟩ := Option.ite_none_right_eq_some.mp h
      simp [hpos, Step.target, LockPosition.isOut]

/-! ## The invariant -/

/-- The mutex belongs to the thread whose position says so, and the owner
record names a thread exactly as long as that thread is inside. -/
structure Owned (s : MutexLock κ) : Prop where
  mutex_iff : ∀ t, s.mutex_ = some t ↔ (s.position t).owns = true
  holder_iff : ∀ t : Tid, s.holder_ = t ↔ s.position t = .inside
  holder_cases : s.holder_ = 0 ∨ ∃ t : Tid, s.holder_ = t

omit [DecidableEq κ] in
theorem create_owned : (create : MutexLock κ).Owned where
  mutex_iff := fun t => by simp [create, LockPosition.owns]
  holder_iff := fun t => by
    have hpos : (t : ℤ) ≠ 0 := ne_of_gt t.2
    simpa [create] using hpos.symm
  holder_cases := Or.inl rfl

omit [DecidableEq κ] in
theorem owns_of_inside (ht : s.position t = .inside) :
    (s.position t).owns = true := by
  rw [ht]
  rfl

namespace Owned

omit [DecidableEq κ] in
/-- At most one thread has the mutex. -/
theorem owns_unique (h : s.Owned) {x : Tid}
    (hx : (s.position x).owns = true) (ht : (s.position t).owns = true) :
    x = t :=
  Option.some_inj.mp (((h.mutex_iff x).mpr hx).symm.trans
    ((h.mutex_iff t).mpr ht))

omit [DecidableEq κ] in
/-- The invariant after a step of `t`, from what the step does to the claims of
`t` and to those of the other threads. -/
theorem of_update {p : LockPosition κ}
    (hposition : s'.position = Function.update s.position t p)
    (hmutex : s'.mutex_ = some t ↔ p.owns = true)
    (hmutexOther : ∀ x, x ≠ t →
      (s'.mutex_ = some x ↔ (s.position x).owns = true))
    (hholder : s'.holder_ = t ↔ p = .inside)
    (hholderOther : ∀ x : Tid, x ≠ t →
      (s'.holder_ = x ↔ s.position x = .inside))
    (hcases : s'.holder_ = 0 ∨ ∃ x : Tid, s'.holder_ = x) : s'.Owned where
  mutex_iff := by
    intro x
    by_cases hx : x = t
    · rw [hx, hposition, Function.update_self, hmutex]
    · rw [hposition, Function.update_of_ne hx, hmutexOther x hx]
  holder_iff := by
    intro x
    by_cases hx : x = t
    · rw [hx, hposition, Function.update_self, hholder]
    · rw [hposition, Function.update_of_ne hx, hholderOther x hx]
  holder_cases := hcases

omit [DecidableEq κ] in
/-- Every effect keeps the invariant. -/
theorem effect (h : s.Owned) {p : LockPosition κ}
    (hposition : s'.position = Function.update s.position t p)
    (heffect : Effect s s' t p) : s'.Owned := by
  cases heffect with
  | stays howns hinside hmutex hholder =>
      refine of_update hposition ?_ (fun x _ => ?_) ?_ (fun x _ => ?_) ?_
      · rw [hmutex, h.mutex_iff, howns]
      · rw [hmutex, h.mutex_iff]
      · rw [hholder, h.holder_iff, hinside]
      · rw [hholder, h.holder_iff]
      · simpa only [hholder] using h.holder_cases
  | acquires hfree hbefore howns hafter hmutex hholder =>
      refine of_update hposition ?_ (fun x hx => ?_) ?_ (fun x _ => ?_) ?_
      · simp [hmutex, howns]
      · rw [← h.mutex_iff, hmutex, hfree]
        simp [Ne.symm hx]
      · simp [hholder, h.holder_iff, hbefore, hafter]
      · rw [hholder, h.holder_iff]
      · simpa only [hholder] using h.holder_cases
  | assigns howned hafter hmutex hholder =>
      refine of_update hposition ?_ (fun x _ => ?_) ?_ (fun x hx => ?_)
        (Or.inr ⟨t, hholder⟩)
      · rw [hmutex, h.mutex_iff, howned, hafter]
        rfl
      · rw [hmutex, h.mutex_iff]
      · simp [hholder, hafter]
      · have hout : s.position x ≠ .inside :=
          fun hin => hx (h.owns_unique (owns_of_inside hin) howned)
        have hne : (t : ℤ) ≠ x := fun heq => hx (Subtype.ext heq.symm)
        simp [hholder, hne, hout]
  | unassigns hbefore howns hafter hmutex hholder =>
      have hzero : ∀ x : Tid, (0 : ℤ) ≠ x := fun x => ne_of_lt x.2
      refine of_update hposition ?_ (fun x _ => ?_) ?_ (fun x hx => ?_)
        (Or.inl hholder)
      · rw [hmutex, h.mutex_iff, howns, owns_of_inside hbefore]
      · rw [hmutex, h.mutex_iff]
      · simp [hholder, hzero, hafter]
      · have hout : s.position x ≠ .inside := fun hin =>
          hx (h.owns_unique (owns_of_inside hin) (owns_of_inside hbefore))
        simp [hholder, hzero, hout]
  | releases howned hbefore howns hmutex hholder =>
      have hafter : p ≠ .inside := by
        rintro rfl
        cases howns
      refine of_update hposition ?_ (fun x hx => ?_) ?_ (fun x _ => ?_) ?_
      · simp [hmutex, howns]
      · have hnot : (s.position x).owns ≠ true :=
          fun howner => hx (h.owns_unique howner howned)
        simp [hmutex, hnot]
      · simp [hholder, h.holder_iff, hbefore, hafter]
      · rw [hholder, h.holder_iff]
      · simpa only [hholder] using h.holder_cases

theorem step (h : s.Owned) {a : Tid × Step κ} (hstep : s.step a = some s') :
    s'.Owned := by
  obtain ⟨hposition, heffect⟩ := step_effect hstep
  exact h.effect hposition heffect

/-- The invariant holds in every state that a run reaches, with any threads
and in any order of their steps. -/
theorem run {as : List (Tid × Step κ)}
    (hrun : Support.run MutexLock.step create as = some s) : s.Owned :=
  run_invariant (fun _ _ _ h hstep => h.step hstep) create_owned hrun

end Owned

/-! ## What the owner record says -/

/-- The owner record can be trusted: it names only the thread that has the
mutex, and it names that thread whenever it is inside. -/
structure OwnerRecord (s : MutexLock κ) : Prop where
  owner : ∀ t : Tid, s.holder_ = t → s.mutex_ = some t
  inside : ∀ t : Tid, s.position t = .inside → s.holder_ = t
  isLockedByThisThread_iff : ∀ t : Tid,
    s.position t = .inside ∨ s.position t = .outside →
      (s.isLockedByThisThread t = true ↔ s.mutex_ = some t)

namespace Owned

omit [DecidableEq κ] in
theorem ownerRecord (h : s.Owned) : s.OwnerRecord where
  owner := fun t ht =>
    (h.mutex_iff t).mpr (owns_of_inside ((h.holder_iff t).mp ht))
  inside := fun t ht => (h.holder_iff t).mpr ht
  isLockedByThisThread_iff := by
    intro t ht
    rw [isLockedByThisThread, decide_eq_true_iff, h.holder_iff, h.mutex_iff]
    rcases ht with hin | hout
    · simp [hin, LockPosition.owns]
    · simp [hout, LockPosition.owns]

omit [DecidableEq κ] in
theorem assertLocked_ok (h : s.Owned) (ht : s.position t = .inside) :
    s.assertLocked t = .ok () := by
  have hholder : s.holder_ = t := (h.holder_iff t).mpr ht
  simp [assertLocked, isLockedByThisThread, hholder, ensure]

omit [DecidableEq κ] in
/-- Two threads are never inside at once. -/
theorem inside_unique (h : s.Owned) {x : Tid} (hx : s.position x = .inside)
    (ht : s.position t = .inside) : x = t :=
  h.owns_unique (owns_of_inside hx) (owns_of_inside ht)

omit [DecidableEq κ] in
/-- The assertion of `~MutexLock()`, when no thread is inside any more. -/
theorem holder_eq_zero (h : s.Owned) (hout : ∀ t, s.position t ≠ .inside) :
    s.holder_ = 0 := by
  rcases h.holder_cases with hzero | ⟨t, ht⟩
  · exact hzero
  · exact absurd ((h.holder_iff t).mp ht) (hout t)

end Owned

/-! ## The waiting threads -/

/-- The threads that a condition variable knows are those that are blocked in
its `wait()`. -/
def Waiters (s : MutexLock κ) : Prop :=
  ∀ c t, t ∈ (s.conditions c).blocked ↔ s.position t = .waiting c

omit [DecidableEq κ] in
theorem create_waiters : (create : MutexLock κ).Waiters :=
  fun _ _ => by simp [create, Condition.create, Condition.blocked]

namespace Waiters

omit [DecidableEq κ] in
/-- A step of a thread that waits neither before nor behind it. -/
theorem goto (h : s.Waiters) {p : LockPosition κ}
    (hconditions : s'.conditions = s.conditions)
    (hposition : s'.position = Function.update s.position t p)
    (hbefore : ∀ c, s.position t ≠ .waiting c) (hafter : ∀ c, p ≠ .waiting c) :
    s'.Waiters := by
  intro c x
  rw [hconditions, h, hposition]
  by_cases hx : x = t
  · simp [hx, hbefore, hafter]
  · rw [Function.update_of_ne hx]

/-- A step that changes one condition variable but no position. -/
theorem setCondition (h : s.Waiters) {c : κ} {d : Condition Tid}
    (hblocked : ∀ x, x ∈ d.blocked ↔ x ∈ (s.conditions c).blocked) :
    (s.setCondition c d).Waiters := by
  intro e x
  change x ∈ (Function.update s.conditions c d e).blocked ↔
    s.position x = .waiting e
  by_cases he : e = c
  · rw [he, Function.update_self, hblocked, h]
  · rw [Function.update_of_ne he, h]

/-- A step by which a thread begins or ceases to wait on `c`. -/
theorem move (h : s.Waiters) {c : κ} {d : Condition Tid} {p : LockPosition κ}
    (hconditions : s'.conditions = Function.update s.conditions c d)
    (hposition : s'.position = Function.update s.position t p)
    (hself : t ∈ d.blocked ↔ p = .waiting c)
    (hothers : ∀ x, x ≠ t → (x ∈ d.blocked ↔ x ∈ (s.conditions c).blocked))
    (hbefore : ∀ e, e ≠ c → s.position t ≠ .waiting e)
    (hafter : ∀ e, e ≠ c → p ≠ .waiting e) : s'.Waiters := by
  intro e x
  rw [hconditions, hposition]
  by_cases he : e = c
  · rw [he, Function.update_self]
    by_cases hx : x = t
    · rw [hx, Function.update_self, hself]
    · rw [Function.update_of_ne hx, hothers x hx, h]
  · rw [Function.update_of_ne he, h]
    by_cases hx : x = t
    · simp [hx, hbefore e he, hafter e he]
    · rw [Function.update_of_ne hx]

theorem step (h : s.Waiters) (hstep : s.step (t, a) = some s') :
    s'.Waiters := by
  cases a with
  | lock | acquire | assign | unassign | release | guard c | unguard =>
      obtain ⟨hpos, ⟨⟩⟩ := Option.ite_none_right_eq_some.mp hstep
      exact h.goto rfl rfl (by simp [hpos]) (by simp)
  | block c =>
      obtain ⟨hpos, hwait⟩ := Option.ite_none_right_eq_some.mp hstep
      obtain ⟨d, hd, rfl⟩ := Option.map_eq_some_iff.mp hwait
      obtain ⟨-, -, hblocked⟩ := Condition.wait_spec hd
      refine h.move rfl rfl ?_ (fun x hx => ?_) (by simp [hpos]) ?_
      · simp [hblocked]
      · simp [hblocked, hx]
      · intro e he heq
        exact he (LockPosition.waiting.inj heq).symm
  | wake c =>
      obtain ⟨-, hwake⟩ := Option.ite_none_right_eq_some.mp hstep
      obtain ⟨d, hd, rfl⟩ := Option.map_eq_some_iff.mp hwake
      obtain ⟨-, -, hblocked⟩ := Condition.wake_spec hd
      exact h.setCondition hblocked
  | resume c =>
      obtain ⟨⟨hpos, -⟩, hresume⟩ := Option.ite_none_right_eq_some.mp hstep
      obtain ⟨d, hd, rfl⟩ := Option.map_eq_some_iff.mp hresume
      obtain ⟨-, -, -, -, hblocked⟩ := Condition.resume_spec hd
      refine h.move rfl rfl ?_ (fun x hx => ?_) ?_ (by simp)
      · simp [hblocked]
      · simp [hblocked, hx]
      · intro e he heq
        rw [hpos] at heq
        exact he (LockPosition.waiting.inj heq).symm
  | notify c who =>
      obtain ⟨-, hnotify⟩ := Option.ite_none_right_eq_some.mp hstep
      obtain ⟨d, hd, rfl⟩ := Option.map_eq_some_iff.mp hnotify
      obtain ⟨hblocked, -⟩ := Condition.notify_spec hd
      exact h.setCondition hblocked
  | notifyAll c =>
      obtain ⟨-, ⟨⟩⟩ := Option.ite_none_right_eq_some.mp hstep
      obtain ⟨-, hblocked⟩ := Condition.notifyAll_spec (s.conditions c)
      exact h.setCondition hblocked

/-- A thread that has called `wait()` can always block. -/
theorem block_isSome (h : s.Waiters) {c : κ}
    (hpos : s.position t = .unassigned c) :
    (s.step (t, .block c)).isSome = true := by
  have hnew : t ∉ (s.conditions c).blocked := by
    rw [h, hpos]
    exact nofun
  simp [MutexLock.step, hpos, Condition.wait, hnew]

end Waiters

end MutexLock

end EventServer.Common
