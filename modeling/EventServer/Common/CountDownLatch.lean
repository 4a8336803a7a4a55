import EventServer.Common.MutexProgress
import EventServer.Support.AtomicObject

/-!
# The count-down latch

The functions of `CountDownLatch`, one line at a time, over the steps of its
mutex.  Any threads may call them.  `wait` returns once the count is not
positive, and nothing but `countDown` changes the count.
-/

namespace EventServer.Common

open EventServer.Support

/-- The line that a thread executes next.  Each function begins behind its
`MutexLockGuard`, and ends with the destructor of the guard (`unlock`). -/
inductive LatchLine where
  | idle
  | waitLoop
  | decrement
  | test
  | notify
  | read
  | unlock (value : Option ℤ)
  deriving DecidableEq, Repr

/-- A function of the latch. -/
inductive LatchFunction where
  | wait
  | countDown
  | getCount
  deriving DecidableEq, Repr

/-- The first line of a function, behind its guard. -/
def LatchFunction.entry : LatchFunction → LatchLine
  | .wait => .waitLoop
  | .countDown => .decrement
  | .getCount => .read

/-- Where in the lock functions a thread may be at a line. -/
def LatchLine.fits : LatchLine → LockPosition Unit → Prop
  | .idle, p => p.isOut = true
  | .waitLoop, p => p.isOut = false
  | .decrement, p | .read, p =>
      p = .locking ∨ p = .locked ∨ p = .inside
  | .test, p | .notify, p | .unlock _, p => p = .inside

/-- The thread at the line still has to see whether it wakes everybody. -/
def LatchLine.wakesAll : LatchLine → Bool
  | .test | .notify => true
  | _ => false

/-- A latch, with what the last call of each thread has returned. -/
structure CountDownLatch where
  mutex_ : MutexLock Unit
  count_ : ℤ
  line : Tid → LatchLine
  returned : Tid → Option ℤ
  fault : Option Fault

namespace CountDownLatch

/-- `CountDownLatch(count)`. -/
def create (count : ℤ) : CountDownLatch where
  mutex_ := .create
  count_ := count
  line := fun _ => .idle
  returned := fun _ => none
  fault := none

def goto (s : CountDownLatch) (t : Tid) (line : LatchLine) : CountDownLatch :=
  { s with line := Function.update s.line t line }

/-- A step of the thread in a lock function. -/
def lockStep (s : CountDownLatch) (t : Tid) (a : MutexLock.Step Unit) :
    Option CountDownLatch :=
  (s.mutex_.step (t, a)).map fun m => { s with mutex_ := m }

/-! ## The lines -/

/-- `while (count_ > 0) condition_.wait();`. -/
def waitLoop (s : CountDownLatch) (t : Tid) : Option CountDownLatch :=
  if 0 < s.count_ then s.lockStep t (.guard ())
  else some (s.goto t (.unlock none))

/-- `--count_;`. -/
def decrement (s : CountDownLatch) (t : Tid) : CountDownLatch :=
  match int (s.count_ - 1) with
  | .ok count => { s.goto t .test with count_ := count }
  | .error fault => { s with fault := some fault }

/-- `if (count_ == 0)`. -/
def test (s : CountDownLatch) (t : Tid) : CountDownLatch :=
  s.goto t (if s.count_ = 0 then .notify else .unlock none)

/-- `~MutexLockGuard()`, and the return from the function. -/
def unlock (s : CountDownLatch) (t : Tid) (value : Option ℤ) :
    Option CountDownLatch :=
  { s.goto t .idle with
    returned := Function.update s.returned t value }.lockStep t .unassign

/-- The next line of the thread, which has returned from the lock functions
that it has called so far. -/
def execute (s : CountDownLatch) (t : Tid) : Option CountDownLatch :=
  if s.mutex_.position t = .inside then
    match s.line t with
    | .idle => none
    | .waitLoop => s.waitLoop t
    | .decrement => some (s.decrement t)
    | .test => some (s.test t)
    | .notify => (s.goto t (.unlock none)).lockStep t (.notifyAll ())
    | .read => some (s.goto t (.unlock (some s.count_)))
    | .unlock value => s.unlock t value
  else none

/-- A call takes the thread into `lock()`. -/
def call (s : CountDownLatch) (t : Tid) (f : LatchFunction) :
    Option CountDownLatch :=
  if s.line t = .idle then (s.goto t f.entry).lockStep t .lock else none

inductive Action where
  /-- The thread calls a function, and in it `lock()`. -/
  | call (f : LatchFunction)
  /-- The thread goes on inside `lock()`, `unlock()` or `wait()`. -/
  | proceed (a : MutexLock.Step Unit)
  /-- The thread executes its next line. -/
  | execute
  deriving DecidableEq, Repr

/-- The step function.  Nothing happens behind an overflow of the count. -/
def step (s : CountDownLatch) : Tid × Action → Option CountDownLatch
  | (t, a) =>
      if s.fault = none then
        match a with
        | .call f => s.call t f
        | .proceed a => if a.isInternal then s.lockStep t a else none
        | .execute => s.execute t
      else none

/-! ## The effect of a step -/

/-- `wait()` or `unlock()` up to the point at which the mutex is released. -/
def leave (s : CountDownLatch) (t : Tid) (p : LockPosition Unit) :
    CountDownLatch :=
  { s with mutex_ := s.mutex_.unassignHolder.goto t p }

/-- `unlock()` up to the point at which the mutex is released, and the return
from the function. -/
def finish (s : CountDownLatch) (t : Tid) (value : Option ℤ) :
    CountDownLatch :=
  { s.goto t .idle with
    returned := Function.update s.returned t value }.leave t .unlocking

/-- The call of a function up to the point at which the thread waits for the
mutex. -/
def begin (s : CountDownLatch) (t : Tid) (f : LatchFunction) :
    CountDownLatch :=
  { s.goto t f.entry with mutex_ := s.mutex_.goto t .locking }

/-- All threads that wait have been woken. -/
def broadcast (s : CountDownLatch) : CountDownLatch :=
  { s with
    mutex_ := s.mutex_.setCondition () (s.mutex_.conditions ()).notifyAll }

/-- The effect of the line of a thread that is inside. -/
inductive LineStep (s : CountDownLatch) (t : Tid) :
    LatchLine → CountDownLatch → Prop
  | waits (hpos : 0 < s.count_) :
      LineStep s t .waitLoop (s.leave t (.unassigned ()))
  | passes (hpos : ¬ 0 < s.count_) :
      LineStep s t .waitLoop (s.goto t (.unlock none))
  | decrement (hint : IsInt (s.count_ - 1)) :
      LineStep s t .decrement
        { s.goto t .test with count_ := s.count_ - 1 }
  | overflow (fault : Fault) (hint : ¬ IsInt (s.count_ - 1)) :
      LineStep s t .decrement { s with fault := some fault }
  | zero (hzero : s.count_ = 0) :
      LineStep s t .test (s.goto t .notify)
  | nonzero (hzero : s.count_ ≠ 0) :
      LineStep s t .test (s.goto t (.unlock none))
  | notify :
      LineStep s t .notify (s.goto t (.unlock none)).broadcast
  | read :
      LineStep s t .read (s.goto t (.unlock (some s.count_)))
  | unlock (value : Option ℤ) :
      LineStep s t (.unlock value) (s.finish t value)

variable {s s' : CountDownLatch} {t : Tid} {l : LatchLine}

theorem call_cases {f : LatchFunction} (hcall : s.call t f = some s') :
    s.line t = .idle ∧ s.mutex_.position t = .outside ∧ s' = s.begin t f := by
  obtain ⟨hidle, hlock⟩ := Option.ite_none_right_eq_some.mp hcall
  obtain ⟨m, hm, rfl⟩ := Option.map_eq_some_iff.mp hlock
  obtain ⟨hpos, ⟨⟩⟩ := Option.ite_none_right_eq_some.mp hm
  exact ⟨hidle, hpos, rfl⟩

theorem decrement_lineStep : LineStep s t .decrement (s.decrement t) := by
  by_cases hint : IsInt (s.count_ - 1)
  · simpa [CountDownLatch.decrement, int, hint] using LineStep.decrement hint
  · simpa [CountDownLatch.decrement, int, hint] using
      LineStep.overflow _ hint

/-- The inversion of `execute`. -/
theorem execute_cases (hstep : s.execute t = some s') :
    s.mutex_.position t = .inside ∧ LineStep s t (s.line t) s' := by
  obtain ⟨hin, hstep⟩ := Option.ite_none_right_eq_some.mp hstep
  refine ⟨hin, ?_⟩
  cases hline : s.line t with
  | idle =>
      rw [hline] at hstep
      cases hstep
  | waitLoop =>
      rw [hline] at hstep
      simp only [waitLoop] at hstep
      split at hstep
      next hpos =>
        obtain ⟨m, hm, rfl⟩ := Option.map_eq_some_iff.mp hstep
        obtain ⟨-, ⟨⟩⟩ := Option.ite_none_right_eq_some.mp hm
        exact .waits hpos
      next hpos => exact Option.some_inj.mp hstep ▸ .passes hpos
  | decrement =>
      rw [hline] at hstep
      exact Option.some_inj.mp hstep ▸ decrement_lineStep
  | test =>
      rw [hline] at hstep
      obtain rfl := Option.some_inj.mp hstep
      unfold test
      split
      next hzero => exact .zero hzero
      next hzero => exact .nonzero hzero
  | notify =>
      rw [hline] at hstep
      obtain ⟨m, hm, rfl⟩ := Option.map_eq_some_iff.mp hstep
      obtain ⟨-, ⟨⟩⟩ := Option.ite_none_right_eq_some.mp hm
      exact .notify
  | read =>
      rw [hline] at hstep
      exact Option.some_inj.mp hstep ▸ .read
  | unlock value =>
      rw [hline] at hstep
      obtain ⟨m, hm, rfl⟩ := Option.map_eq_some_iff.mp hstep
      obtain ⟨-, ⟨⟩⟩ := Option.ite_none_right_eq_some.mp hm
      exact .unlock value

/-- Inside a function a thread executes its next line, or goes on in a lock
function, which changes neither the lines nor the count. -/
theorem step_cases {a : Action} (hcall : ∀ f, a ≠ .call f)
    (hstep : s.step (t, a) = some s') :
    (s.mutex_.position t ≠ .outside ∧ s'.line = s.line ∧
        s'.count_ = s.count_ ∧ s'.fault = s.fault) ∨
      (s.mutex_.position t = .inside ∧ LineStep s t (s.line t) s') := by
  obtain ⟨-, hstep⟩ := Option.ite_none_right_eq_some.mp hstep
  cases a with
  | call f => exact absurd rfl (hcall f)
  | proceed a =>
      obtain ⟨hinternal, hstep⟩ := Option.ite_none_right_eq_some.mp hstep
      obtain ⟨m, hm, rfl⟩ := Option.map_eq_some_iff.mp hstep
      refine Or.inl ⟨fun hpos => ?_, rfl, rfl, rfl⟩
      cases a with
      | lock | unassign | guard c | notify c who | notifyAll c =>
          cases hinternal
      | acquire | assign | release | block c | wake c | resume c | unguard =>
          obtain ⟨hat, -⟩ := Option.ite_none_right_eq_some.mp hm
          simp [hpos] at hat
  | execute => exact Or.inr (execute_cases hstep)

/-- The other threads stay where they are. -/
theorem step_others {a : Action} (hstep : s.step (t, a) = some s') {x : Tid}
    (hx : x ≠ t) : s'.line x = s.line x ∧
      s'.mutex_.position x = s.mutex_.position x := by
  obtain ⟨-, hstep⟩ := Option.ite_none_right_eq_some.mp hstep
  cases a with
  | call f =>
      obtain ⟨-, -, rfl⟩ := call_cases hstep
      simp [begin, goto, MutexLock.goto, hx]
  | proceed a =>
      obtain ⟨-, hstep⟩ := Option.ite_none_right_eq_some.mp hstep
      obtain ⟨m, hm, rfl⟩ := Option.map_eq_some_iff.mp hstep
      obtain ⟨hposition, -⟩ := MutexLock.step_effect hm
      exact ⟨rfl, by simp [hposition, hx]⟩
  | execute =>
      obtain ⟨-, hline⟩ := execute_cases hstep
      generalize s.line t = l at hline
      cases hline with
      | waits hpos | unlock value =>
          simp [leave, finish, goto, MutexLock.goto, MutexLock.unassignHolder,
            hx]
      | notify =>
          simp [broadcast, goto, MutexLock.setCondition, hx]
      | overflow fault hint => exact ⟨rfl, rfl⟩
      | passes hpos | decrement hint | zero hzero | nonzero hzero | read =>
          simp [goto, hx]

/-! ## The invariant -/

/-- The line of the thread that has the mutex. -/
def ownerLine (s : CountDownLatch) : LatchLine :=
  match s.mutex_.mutex_ with
  | some t => s.line t
  | none => .idle

/-- A thread that is about to wait has seen a positive count. -/
def Placed (s : CountDownLatch) (l : LatchLine) (p : LockPosition Unit) :
    Prop :=
  l.fits p ∧ (p = .unassigned () → 0 < s.count_)

/-- Nobody waits for a count that is not positive, when the thread that has
the mutex is at the line `l`. -/
def Served (count : ℤ) (d : Condition Tid) (l : LatchLine) : Prop :=
  d.waiting = [] ∨ 0 < count ∨ count = 0 ∧ l.wakesAll = true

/-- The invariant. -/
structure Sound (s : CountDownLatch) : Prop where
  owned : s.mutex_.Owned
  waiters : s.mutex_.Waiters
  placed : ∀ t, s.Placed (s.line t) (s.mutex_.position t)
  served : Served s.count_ (s.mutex_.conditions ()) s.ownerLine

theorem create_sound (count : ℤ) : (create count).Sound where
  owned := MutexLock.create_owned
  waiters := MutexLock.create_waiters
  placed := fun _ => ⟨rfl, nofun⟩
  served := Or.inl rfl

/-- Without the thread that wakes everybody, a count that is not positive has
nobody waiting for it. -/
theorem Served.of_not {count : ℤ} {d : Condition Tid}
    (h : Served count d l) (hl : l.wakesAll = false ∨ count ≠ 0)
    (l' : LatchLine) : Served count d l' := by
  refine h.imp id (Or.imp id ?_)
  rintro ⟨hzero, hall⟩
  rcases hl with hfalse | hne
  · rw [hfalse] at hall
    cases hall
  · exact absurd hzero hne

namespace Sound

theorem ownerLine_of_owns (h : s.Sound)
    (howns : (s.mutex_.position t).owns = true) : s.ownerLine = s.line t := by
  simp [ownerLine, (h.owned.mutex_iff t).mpr howns]

theorem ownerLine_of_free (hfree : s.mutex_.mutex_ = none) :
    s.ownerLine = .idle := by
  simp [ownerLine, hfree]

/-- The thread that is inside takes a step: nobody else is about to wait. -/
theorem of_inside (h : s.Sound) (hin : s.mutex_.position t = .inside)
    {p : LockPosition Unit} (howned : s'.mutex_.Owned)
    (hwaiters : s'.mutex_.Waiters)
    (hposition : s'.mutex_.position = Function.update s.mutex_.position t p)
    (hline : s'.line = Function.update s.line t l) (hplaced : s'.Placed l p)
    (howns : p.owns = true)
    (hserved : Served s.count_ (s.mutex_.conditions ()) (s.line t) →
      Served s'.count_ (s'.mutex_.conditions ()) l) : s'.Sound where
  owned := howned
  waiters := hwaiters
  placed := by
    intro x
    rw [hposition, hline]
    by_cases hx : x = t
    · rw [hx, Function.update_self, Function.update_self]
      exact hplaced
    · rw [Function.update_of_ne hx, Function.update_of_ne hx]
      refine ⟨(h.placed x).1, fun hpos => ?_⟩
      exact absurd (h.owned.owns_unique (by rw [hpos]; rfl)
        (MutexLock.owns_of_inside hin)) hx
  served := by
    have hbefore := h.served
    rw [h.ownerLine_of_owns (MutexLock.owns_of_inside hin)] at hbefore
    have hafter : s'.ownerLine = l := by
      have hmutex : s'.mutex_.mutex_ = some t :=
        (howned.mutex_iff t).mpr (by rw [hposition, Function.update_self, howns])
      simp [ownerLine, hmutex, hline]
    rw [hafter]
    exact hserved hbefore

/-- The lock stays as it is. -/
theorem advance (h : s.Sound) (hin : s.mutex_.position t = .inside)
    (hmutex : s'.mutex_ = s.mutex_)
    (hline : s'.line = Function.update s.line t l) (hfits : l.fits .inside)
    (hserved : Served s.count_ (s.mutex_.conditions ()) (s.line t) →
      Served s'.count_ (s.mutex_.conditions ()) l) : s'.Sound := by
  refine h.of_inside hin (p := .inside) (hmutex ▸ h.owned) (hmutex ▸ h.waiters)
    ?_ hline ⟨hfits, nofun⟩ rfl (hmutex ▸ hserved)
  rw [hmutex, ← hin, Function.update_eq_self]

theorem lineStep (h : s.Sound) (hin : s.mutex_.position t = .inside)
    (hstep : LineStep s t (s.line t) s') : s'.Sound := by
  generalize hat : s.line t = l at hstep
  cases hstep with
  | waits hpos =>
      have hm : s.mutex_.step (t, .guard ()) =
          some (s.mutex_.unassignHolder.goto t (.unassigned ())) := if_pos hin
      refine h.of_inside hin (h.owned.step hm) (h.waiters.step hm) rfl
        (Function.update_eq_self t s.line).symm ?_ rfl fun _ => Or.inr ?_
      · rw [hat]
        exact ⟨rfl, fun _ => hpos⟩
      · exact Or.inl hpos
  | unlock value =>
      have hm : s.mutex_.step (t, .unassign) =
          some (s.mutex_.unassignHolder.goto t .unlocking) := if_pos hin
      refine h.of_inside hin (h.owned.step hm) (h.waiters.step hm) rfl rfl
        ⟨rfl, nofun⟩ rfl fun hserved => ?_
      exact hserved.of_not (Or.inl (by rw [hat]; rfl)) _
  | passes hpos | read =>
      refine h.advance hin rfl rfl rfl fun hserved => ?_
      exact hserved.of_not (Or.inl (by rw [hat]; rfl)) _
  | nonzero hzero =>
      refine h.advance hin rfl rfl rfl fun hserved => ?_
      exact hserved.of_not (Or.inr hzero) _
  | zero hzero =>
      exact h.advance hin rfl rfl rfl fun _ => Or.inr (Or.inr ⟨hzero, rfl⟩)
  | decrement hint =>
      refine h.advance hin rfl rfl rfl fun hserved => ?_
      have hbefore := hserved.of_not (Or.inl (by rw [hat]; rfl)) .idle
      rcases hbefore with hnone | hpos | ⟨-, hidle⟩
      · exact Or.inl hnone
      · rcases (Int.le_sub_one_of_lt hpos).lt_or_eq with hlt | heq
        · exact Or.inr (Or.inl hlt)
        · exact Or.inr (Or.inr ⟨heq.symm, rfl⟩)
      · cases hidle
  | overflow fault hint => exact ⟨h.owned, h.waiters, h.placed, h.served⟩
  | notify =>
      have hm : s.mutex_.step (t, .notifyAll ()) =
          some (s.mutex_.setCondition () (s.mutex_.conditions ()).notifyAll) :=
        if_pos (Or.inr hin)
      refine h.of_inside hin (p := .inside) (h.owned.step hm)
        (h.waiters.step hm) ?_ rfl ⟨rfl, nofun⟩ rfl fun _ => Or.inl rfl
      rw [← hin, Function.update_eq_self]
      rfl

/-- A thread that has left the mutex, or is about to, has returned from its
function. -/
theorem idle_of_isOut (h : s.Sound)
    (hout : (s.mutex_.position t).isOut = true) : s.line t = .idle := by
  obtain ⟨hfits, -⟩ := h.placed t
  cases hline : s.line t with
  | idle => rfl
  | waitLoop =>
      rw [hline] at hfits
      exact absurd (hout.symm.trans hfits) (by simp)
  | decrement | read =>
      rw [hline] at hfits
      rcases hfits with hpos | hpos | hpos
      · simp [hpos, LockPosition.isOut] at hout
      · simp [hpos, LockPosition.isOut] at hout
      · simp [hpos, LockPosition.isOut] at hout
  | test | notify | unlock value =>
      rw [hline] at hfits
      have hin : s.mutex_.position t = .inside := hfits
      rw [hin] at hout
      cases hout

theorem waitLoop_of_waiting (h : s.Sound)
    (hpos : s.mutex_.position t = .waiting ()) : s.line t = .waitLoop := by
  obtain ⟨hfits, -⟩ := h.placed t
  rw [hpos] at hfits
  cases hline : s.line t with
  | waitLoop => rfl
  | _ => simp [hline, LatchLine.fits, LockPosition.isOut] at hfits

/-- Inside the lock functions a thread stays at a line that fits. -/
theorem fits_proceed (h : s.Sound) {a : MutexLock.Step Unit}
    {m : MutexLock Unit} (hinternal : a.isInternal = true)
    (hm : s.mutex_.step (t, a) = some m) :
    (s.line t).fits (a.target (s.mutex_.position t)) := by
  obtain ⟨hout, hsame⟩ := MutexLock.internal_spec hinternal hm
  obtain ⟨hfits, -⟩ := h.placed t
  cases hline : s.line t with
  | idle | waitLoop =>
      rw [hline] at hfits
      exact hsame.trans hfits
  | test | notify | unlock value =>
      rw [hline] at hfits
      exact absurd hfits hout
  | decrement | read =>
      rw [hline] at hfits
      cases a with
      | acquire => exact Or.inr (Or.inl rfl)
      | assign => exact Or.inr (Or.inr rfl)
      | lock | unassign | guard c | notify c who | notifyAll c =>
          cases hinternal
      | release | block c | wake c | resume c | unguard =>
          obtain ⟨hpos, -⟩ := Option.ite_none_right_eq_some.mp hm
          simp [LatchLine.fits, hpos] at hfits

/-- A step in a lock function, from what it does to those that wait. -/
theorem of_proceed (h : s.Sound) {a : MutexLock.Step Unit} {m : MutexLock Unit}
    (hinternal : a.isInternal = true) (hm : s.mutex_.step (t, a) = some m)
    (hunassigned : a.target (s.mutex_.position t) = .unassigned () →
      0 < s.count_)
    (hserved : Served s.count_ (m.conditions ())
      (ownerLine { s with mutex_ := m })) : Sound { s with mutex_ := m } where
  owned := h.owned.step hm
  waiters := h.waiters.step hm
  placed := by
    intro x
    obtain ⟨hposition, -⟩ := MutexLock.step_effect hm
    change s.Placed (s.line x) (m.position x)
    rw [hposition]
    by_cases hx : x = t
    · rw [hx, Function.update_self]
      exact ⟨h.fits_proceed hinternal hm, hunassigned⟩
    · rw [Function.update_of_ne hx]
      exact h.placed x
  served := hserved

/-- Nobody waits for a count that is not positive, while the mutex is free. -/
theorem served_free (h : s.Sound) (hfree : s.mutex_.mutex_ = none)
    (l : LatchLine) : Served s.count_ (s.mutex_.conditions ()) l := by
  have hserved := h.served
  rw [ownerLine_of_free hfree] at hserved
  exact hserved.of_not (Or.inl rfl) l

theorem proceed (h : s.Sound) {a : MutexLock.Step Unit}
    (hinternal : a.isInternal = true) (hstep : s.lockStep t a = some s') :
    s'.Sound := by
  obtain ⟨m, hm, rfl⟩ := Option.map_eq_some_iff.mp hstep
  cases a with
  | lock | unassign | guard c | notify c who | notifyAll c => cases hinternal
  | acquire =>
      obtain ⟨⟨-, hfree⟩, heq⟩ := Option.ite_none_right_eq_some.mp hm
      refine h.of_proceed rfl hm nofun ?_
      rw [← Option.some_inj.mp heq]
      exact h.served_free hfree _
  | assign | unguard =>
      obtain ⟨-, heq⟩ := Option.ite_none_right_eq_some.mp hm
      refine h.of_proceed rfl hm nofun ?_
      rw [← Option.some_inj.mp heq]
      exact h.served
  | release =>
      obtain ⟨hpos, heq⟩ := Option.ite_none_right_eq_some.mp hm
      refine h.of_proceed rfl hm nofun ?_
      have hidle : s.ownerLine = .idle := by
        rw [h.ownerLine_of_owns (by rw [hpos]; rfl)]
        exact h.idle_of_isOut (by rw [hpos]; rfl)
      have hserved := h.served
      rw [hidle] at hserved
      exact Option.some_inj.mp heq ▸ hserved
  | block c =>
      obtain ⟨hpos, hwait⟩ := Option.ite_none_right_eq_some.mp hm
      exact h.of_proceed rfl hm nofun
        (Or.inr (Or.inl ((h.placed t).2 hpos)))
  | wake c =>
      obtain ⟨hpos, hwake⟩ := Option.ite_none_right_eq_some.mp hm
      obtain ⟨d, hd, heq⟩ := Option.map_eq_some_iff.mp hwake
      obtain ⟨hsome, -, -⟩ := Condition.wake_spec hd
      refine h.of_proceed rfl hm (h.placed t).2 (Or.inr ?_)
      rw [← heq]
      exact h.served.resolve_left hsome
  | resume c =>
      obtain ⟨⟨-, hfree⟩, hresume⟩ := Option.ite_none_right_eq_some.mp hm
      obtain ⟨d, hd, rfl⟩ := Option.map_eq_some_iff.mp hresume
      obtain ⟨hwaiting, -⟩ := Condition.resume_waiting hd
      refine h.of_proceed rfl hm nofun ?_
      have hserved := h.served_free hfree (s.line t)
      rw [Served, ← hwaiting] at hserved
      exact hserved

theorem begin (h : s.Sound) {f : LatchFunction}
    (hpos : s.mutex_.position t = .outside) : (s.begin t f).Sound := by
  have hm : s.mutex_.step (t, .lock) = some (s.mutex_.goto t .locking) :=
    if_pos hpos
  refine ⟨h.owned.step hm, h.waiters.step hm, fun x => ?_, ?_⟩
  · change s.Placed (Function.update s.line t f.entry x)
      (Function.update s.mutex_.position t .locking x)
    by_cases hx : x = t
    · rw [hx, Function.update_self, Function.update_self]
      refine ⟨?_, nofun⟩
      cases f with
      | wait => exact rfl
      | countDown | getCount => exact Or.inl rfl
    · rw [Function.update_of_ne hx, Function.update_of_ne hx]
      exact h.placed x
  · have howner : (s.begin t f).ownerLine = s.ownerLine := by
      unfold ownerLine
      change (match s.mutex_.mutex_ with
        | some x => Function.update s.line t f.entry x
        | none => LatchLine.idle) = _
      cases hmutex : s.mutex_.mutex_ with
      | none => rfl
      | some x =>
          have hx : x ≠ t := by
            rintro rfl
            have howns := (h.owned.mutex_iff x).mp hmutex
            rw [hpos] at howns
            cases howns
          exact Function.update_of_ne hx _ _
    rw [howner]
    exact h.served

theorem step (h : s.Sound) {act : Tid × Action}
    (hstep : s.step act = some s') : s'.Sound := by
  obtain ⟨t, act⟩ := act
  obtain ⟨-, hstep⟩ := Option.ite_none_right_eq_some.mp hstep
  cases act with
  | call f =>
      obtain ⟨-, hpos, rfl⟩ := call_cases hstep
      exact h.begin hpos
  | proceed a =>
      obtain ⟨hinternal, hstep⟩ := Option.ite_none_right_eq_some.mp hstep
      exact h.proceed hinternal hstep
  | execute =>
      obtain ⟨hin, hline⟩ := execute_cases hstep
      exact h.lineStep hin hline

theorem run {count : ℤ} {acts : List (Tid × Action)}
    (hrun : Support.run CountDownLatch.step (create count) acts = some s) :
    s.Sound :=
  run_invariant (fun _ _ _ h hstep => h.step hstep) (create_sound count) hrun

end Sound

end CountDownLatch

end EventServer.Common
