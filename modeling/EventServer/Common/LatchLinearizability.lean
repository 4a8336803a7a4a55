import EventServer.Common.CountDownLatch

/-!
# The latch as an atomic object

The functions of the latch take effect one after another, and no thread is left
waiting once the count has gone down.
-/

namespace EventServer.Common

open EventServer.Support

/-- The functions, each executed without interruption on the count. -/
def LatchFunction.apply (count : ℤ) :
    LatchFunction → Option (ℤ × Option ℤ)
  | .wait => if 0 < count then none else some (count, none)
  | .countDown => if IsInt (count - 1) then some (count - 1, none) else none
  | .getCount => some (count, some count)

/-- How far a thread at the line is with its call.  Behind the line that takes
effect it only has to return. -/
def LatchLine.callState : LatchLine → CallState LatchFunction (Option ℤ)
  | .idle => .idle
  | .waitLoop => .pending .wait
  | .decrement => .pending .countDown
  | .read => .pending .getCount
  | .test | .notify => .done none
  | .unlock value => .done value

namespace CountDownLatch

/-- How far a thread is with its call.  It returns when it has released the
mutex. -/
def callState (s : CountDownLatch) (t : Tid) :
    CallState LatchFunction (Option ℤ) :=
  match s.line t with
  | .idle =>
      if s.mutex_.position t = .outside then .idle else .done (s.returned t)
  | line => line.callState

/-- The atomic object that a state of the latch stands for. -/
def atomic (s : CountDownLatch) :
    AtomicObject Tid ℤ LatchFunction (Option ℤ) :=
  ⟨s.count_, s.callState⟩

/-- The calls and returns of the functions. -/
def event (s : CountDownLatch) :
    Tid × Action → List (ObjectEvent Tid LatchFunction (Option ℤ))
  | (t, .call f) => [.call t f]
  | (t, .proceed .release) => [.ret t (s.returned t)]
  | (_, .proceed _) | (_, .execute) => []

section Steps

variable {s s' : CountDownLatch} {t : Tid} {l : LatchLine}

theorem callState_congr (hline : s'.line t = s.line t)
    (hposition : s'.mutex_.position t = s.mutex_.position t)
    (hreturned : s'.returned t = s.returned t) :
    s'.callState t = s.callState t := by
  simp [callState, hline, hposition, hreturned]

/-- Away from `idle` it is only the line that counts. -/
theorem callState_of_ne_idle (hidle : s.line t ≠ .idle) :
    s.callState t = (s.line t).callState := by
  unfold callState
  split
  next hline => exact absurd hline hidle
  next => rfl

theorem callState_others (hline : ∀ x, x ≠ t → s'.line x = s.line x)
    (hposition : ∀ x, x ≠ t →
      s'.mutex_.position x = s.mutex_.position x)
    (hreturned : ∀ x, x ≠ t → s'.returned x = s.returned x) :
    ∀ x, x ≠ t → s'.callState x = s.callState x :=
  fun x hx => callState_congr (hline x hx) (hposition x hx) (hreturned x hx)

/-- A step that changes neither the count nor what the thread has done. -/
theorem atomic_congr (hcount : s'.count_ = s.count_)
    (hself : s'.callState t = s.callState t)
    (hothers : ∀ x, x ≠ t → s'.callState x = s.callState x) :
    s'.atomic = s.atomic := by
  have hcalls : s'.callState = s.callState := by
    funext x
    by_cases hx : x = t
    · exact hx ▸ hself
    · exact hothers x hx
  simp [atomic, hcount, hcalls]

/-- A line that takes effect: the function would do the same alone. -/
theorem atomic_perform {f : LatchFunction} {value : Option ℤ}
    (hbefore : (s.line t).callState = .pending f)
    (hafter : l.callState = .done value) (hl : l ≠ .idle)
    (hline : s'.line = Function.update s.line t l)
    (hmutex : s'.mutex_ = s.mutex_) (hreturned : s'.returned = s.returned)
    (happly : f.apply s.count_ = some (s'.count_, value)) :
    AtomicObject.step LatchFunction.apply s.atomic (t, .perform) =
      some s'.atomic := by
  have hat : s'.line t = l := by simp [hline]
  have hidle : s.line t ≠ .idle := by
    intro heq
    rw [heq] at hbefore
    cases hbefore
  refine AtomicObject.step_perform
    ((callState_of_ne_idle hidle).trans hbefore) happly ?_ ?_
  · exact (callState_of_ne_idle (by rwa [hat])).trans (by rw [hat, hafter])
  · exact callState_others (fun x hx => by simp [hline, hx])
      (fun x _ => by rw [hmutex]) fun x _ => by rw [hreturned]

/-- A line that takes no effect, and leads to one of the same kind. -/
theorem atomic_quiet (hsame : l.callState = (s.line t).callState)
    (hidle : s.line t ≠ .idle) (hl : l ≠ .idle)
    (hline : s'.line = Function.update s.line t l)
    (hposition : ∀ x, x ≠ t →
      s'.mutex_.position x = s.mutex_.position x)
    (hreturned : s'.returned = s.returned) (hcount : s'.count_ = s.count_) :
    s'.atomic = s.atomic := by
  have hat : s'.line t = l := by simp [hline]
  refine atomic_congr hcount (t := t) ?_ ?_
  · rw [callState_of_ne_idle hidle, callState_of_ne_idle (by rwa [hat]), hat,
      hsame]
  · exact callState_others (fun x hx => by simp [hline, hx]) hposition
      fun x _ => by rw [hreturned]

theorem leave_position {p : LockPosition Unit} {x : Tid} (hx : x ≠ t) :
    (s.leave t p).mutex_.position x = s.mutex_.position x := by
  simp [leave, MutexLock.goto, MutexLock.unassignHolder, hx]

/-- `~MutexLockGuard()`, with the value that the function returns. -/
theorem atomic_finish {value : Option ℤ} (hat : s.line t = .unlock value) :
    (s.finish t value).atomic = s.atomic := by
  refine atomic_congr rfl (t := t) ?_ ?_
  · simp [callState, hat, LatchLine.callState, finish, leave, goto,
      MutexLock.goto]
  · exact callState_others (fun x hx => by simp [finish, leave, goto, hx])
      (fun x hx => leave_position hx) fun x hx => by simp [finish, leave, hx]

/-- Each line takes the effect of the whole function, or none. -/
theorem LineStep.atomic (hstep : LineStep s t (s.line t) s') :
    s'.atomic = s.atomic ∨
      AtomicObject.step LatchFunction.apply s.atomic (t, .perform) =
        some s'.atomic := by
  generalize hat : s.line t = l at hstep
  cases hstep with
  | waits hpos =>
      exact Or.inl (atomic_quiet rfl (by simp [hat]) (by simp [hat])
        (Function.update_eq_self t s.line).symm (fun _ => leave_position) rfl
        rfl)
  | zero hzero | nonzero hzero | notify =>
      refine Or.inl (atomic_quiet ?_ (by simp [hat]) ?_ rfl (fun _ _ => rfl)
        rfl rfl)
      · rw [hat]
        rfl
      · simp
  | passes hpos =>
      exact Or.inr (atomic_perform (congrArg _ hat) rfl (by simp) rfl rfl rfl
        (if_neg hpos))
  | decrement hint =>
      exact Or.inr (atomic_perform (congrArg _ hat) rfl (by simp) rfl rfl rfl
        (if_pos hint))
  | read =>
      exact Or.inr (atomic_perform (congrArg _ hat) rfl (by simp) rfl rfl rfl
        rfl)
  | overflow fault hint => exact Or.inl rfl
  | unlock value => exact Or.inl (atomic_finish hat)

/-! ## The simulation -/

/-- The states of the latch that an atomic object stands for. -/
def Represents (s : CountDownLatch)
    (o : AtomicObject Tid ℤ LatchFunction (Option ℤ)) : Prop :=
  s.Sound ∧ o = s.atomic

/-- Inside the lock functions a thread gets no further with its call, until
the mutex is released. -/
theorem atomic_proceed (h : s.Sound) {a : MutexLock.Step Unit}
    (hinternal : a.isInternal = true) (hrelease : a ≠ .release)
    (hstep : s.lockStep t a = some s') : s'.atomic = s.atomic := by
  obtain ⟨m, hm, rfl⟩ := Option.map_eq_some_iff.mp hstep
  obtain ⟨hposition, -⟩ := MutexLock.step_effect hm
  have hout : (s.mutex_.position t).isOut = false :=
    MutexLock.isOut_of_internal hinternal hrelease hm
  have hidle : s.line t ≠ .idle := by
    intro hline
    have hfits := (h.placed t).1
    rw [hline] at hfits
    exact Bool.false_ne_true (hout.symm.trans hfits)
  refine atomic_congr rfl (t := t) ?_ ?_
  · rw [callState_of_ne_idle (s := s) hidle]
    exact callState_of_ne_idle hidle
  · exact callState_others (fun _ _ => rfl) (fun x hx => by simp [hposition, hx])
      fun _ _ => rfl

/-- Behind the release of the mutex the function has returned. -/
theorem atomic_release (h : s.Sound)
    (hstep : s.lockStep t .release = some s') :
    AtomicObject.step LatchFunction.apply s.atomic (t, .ret) =
        some s'.atomic ∧
      AtomicObject.event s.atomic (t, .ret) = [.ret t (s.returned t)] := by
  obtain ⟨m, hm, rfl⟩ := Option.map_eq_some_iff.mp hstep
  obtain ⟨hpos, ⟨⟩⟩ := Option.ite_none_right_eq_some.mp hm
  have hidle : s.line t = .idle := h.idle_of_isOut (by rw [hpos]; rfl)
  refine AtomicObject.step_ret ?_ ?_ rfl ?_
  · simp [atomic, callState, hidle, hpos]
  · simp [atomic, callState, hidle, MutexLock.goto]
  · exact callState_others (fun _ _ => rfl)
      (fun x hx => by simp [MutexLock.goto, hx]) fun _ _ => rfl

/-- A call begins. -/
theorem atomic_call {f : LatchFunction} (hidle : s.line t = .idle)
    (hpos : s.mutex_.position t = .outside) :
    AtomicObject.step LatchFunction.apply s.atomic (t, .call f) =
      some (s.begin t f).atomic := by
  refine AtomicObject.step_call ?_ ?_ rfl ?_
  · simp [atomic, callState, hidle, hpos]
  · have hat : (s.begin t f).line t = f.entry := by simp [begin, goto]
    change (s.begin t f).callState t = _
    cases f with
    | wait | countDown | getCount =>
        rw [callState_of_ne_idle (by simp [hat, LatchFunction.entry]), hat]
        rfl
  · exact callState_others (fun x hx => by simp [begin, goto, hx])
      (fun x hx => by simp [begin, MutexLock.goto, hx]) fun _ _ => rfl

theorem simulates :
    Simulates step event (AtomicObject.step LatchFunction.apply)
      AtomicObject.event Represents := by
  rintro s o ⟨t, act⟩ s' ⟨hsound, rfl⟩ hstep
  have hafter : s'.Represents s'.atomic := ⟨hsound.step hstep, rfl⟩
  obtain ⟨-, hstep⟩ := Option.ite_none_right_eq_some.mp hstep
  cases act with
  | call f =>
      obtain ⟨hidle, hpos, rfl⟩ := call_cases hstep
      exact .of_step (atomic_call hidle hpos) rfl hafter
  | proceed a =>
      obtain ⟨hinternal, hstep⟩ := Option.ite_none_right_eq_some.mp hstep
      by_cases hrelease : a = .release
      · subst hrelease
        obtain ⟨haction, hevent⟩ := atomic_release hsound hstep
        exact .of_step haction hevent hafter
      · have hevent : event s (t, .proceed a) = [] := by
          cases a with
          | release => exact absurd rfl hrelease
          | _ => rfl
        rw [hevent]
        rw [atomic_proceed hsound hinternal hrelease hstep] at hafter
        exact .of_related hafter
  | execute =>
      obtain ⟨-, hline⟩ := execute_cases hstep
      rcases hline.atomic with heq | haction
      · exact .of_related (heq ▸ hafter)
      · exact .of_step haction rfl hafter

/-! ## Where the latch is stuck -/

/-- A step by which the latch goes on by itself: neither a call nor a wake-up
without a signal. -/
def Action.goesOn : Action → Bool
  | .call _ => false
  | .proceed a => a.goesOn
  | .execute => true

/-- A thread that is inside can execute its next line. -/
theorem Sound.execute_isSome (h : s.Sound)
    (hin : s.mutex_.position t = .inside) : (s.execute t).isSome = true := by
  obtain ⟨hfits, -⟩ := h.placed t
  simp only [CountDownLatch.execute, if_pos hin]
  cases hline : s.line t with
  | idle =>
      rw [hline, hin] at hfits
      cases hfits
  | decrement | test | read => rfl
  | notify | unlock value =>
      simp [lockStep, CountDownLatch.unlock, MutexLock.step, goto, hin]
  | waitLoop =>
      change (s.waitLoop t).isSome = true
      unfold CountDownLatch.waitLoop
      split
      · simp [CountDownLatch.lockStep, MutexLock.step, hin]
      · rfl

variable (s) in
/-- Some thread can go on in one of the functions of the latch. -/
def CanGoOn : Prop :=
  ∃ t a, Action.goesOn a = true ∧ (s.step (t, a)).isSome = true

theorem canGoOn_of_mutex (hfault : s.fault = none)
    (hgo : s.mutex_.CanGoOn t) : s.CanGoOn := by
  obtain ⟨a, ha, hsome⟩ := hgo
  have hinternal : a.isInternal = true := by
    cases hi : a.isInternal with
    | true => rfl
    | false => simp [MutexLock.Step.goesOn, hi] at ha
  refine ⟨t, .proceed a, ha, ?_⟩
  simpa [step, hfault, hinternal, lockStep] using hsome

theorem Sound.canGoOn_of_inside (h : s.Sound) (hfault : s.fault = none)
    (hin : s.mutex_.position t = .inside) : s.CanGoOn :=
  ⟨t, .execute, rfl, by
    simpa [CountDownLatch.step, hfault] using h.execute_isSome hin⟩

/-- When nobody can go on, every thread is outside or waits for a count that
is still positive. -/
theorem Sound.stuck (h : s.Sound) (hfault : s.fault = none)
    (hstuck : ¬ s.CanGoOn) (t : Tid) :
    (s.line t = .idle ∧ s.mutex_.position t = .outside) ∨
      s.line t = .waitLoop ∧ s.mutex_.position t = .waiting () ∧
        0 < s.count_ := by
  obtain ⟨hfree, hcases⟩ := MutexLock.stuck_cases h.owned h.waiters
    (fun x hgo => hstuck (canGoOn_of_mutex hfault hgo))
    fun x hin => hstuck (h.canGoOn_of_inside hfault hin)
  rcases hcases t with hpos | ⟨c, hpos, hmem⟩
  · exact Or.inl ⟨h.idle_of_isOut (by rw [hpos]; rfl), hpos⟩
  · refine Or.inr ⟨h.waitLoop_of_waiting hpos, hpos, ?_⟩
    rcases h.served_free hfree .idle with hnone | hcount | ⟨-, hidle⟩
    · exact absurd (hnone ▸ hmem) List.not_mem_nil
    · exact hcount
    · cases hidle

end Steps

/-- A latch works for any threads, in any order of their lines: its functions
take effect one after another, `wait` only at a count that is not positive, and
once the count is gone nobody is left waiting for it.  Only an overflow of the
count, by more than `2 ^ 31` calls of `countDown`, ends this. -/
theorem latch_linearizable (count : ℤ) (acts : List (Tid × Action))
    (s : CountDownLatch) (hrun : run step (create count) acts = some s) :
    Linearizes LatchFunction.apply count
        (trace step event (create count) acts) s.count_ ∧
      (s.fault = none → ¬ s.CanGoOn → ∀ t,
        (s.line t = .idle ∧ s.mutex_.position t = .outside) ∨
          s.line t = .waitLoop ∧ s.mutex_.position t = .waiting () ∧
            0 < s.count_) := by
  constructor
  · have hstart : (create count).Represents (.fresh count) :=
      ⟨create_sound count, rfl⟩
    obtain ⟨o, ⟨-, rfl⟩, hlinear⟩ := simulates.linearizes hstart hrun
    exact hlinear
  · exact fun hfault hstuck => (Sound.run hrun).stuck hfault hstuck

def waiter : Tid := ⟨11, by decide⟩

def counter : Tid := ⟨12, by decide⟩

/-- One thread waits, and the other one opens the latch. -/
def opened : List (Tid × Action) :=
  [(waiter, .call .wait), (waiter, .proceed .acquire),
    (waiter, .proceed .assign), (waiter, .execute),
    (waiter, .proceed (.block ())), (counter, .call .countDown),
    (counter, .proceed .acquire), (counter, .proceed .assign),
    (counter, .execute), (counter, .execute), (counter, .execute),
    (counter, .execute), (counter, .proceed .release),
    (waiter, .proceed (.resume ())), (waiter, .proceed .unguard),
    (waiter, .execute), (waiter, .execute), (waiter, .proceed .release)]

theorem latch_linearizable_opened :
    ∃ s, run step (create 1) opened = some s ∧
      trace step event (create 1) opened =
        [.call waiter .wait, .call counter .countDown, .ret counter none,
          .ret waiter none] ∧
      Linearizes LatchFunction.apply 1 (trace step event (create 1) opened)
        0 := by
  obtain ⟨s, hrun, hcount⟩ :
      ∃ s, run step (create 1) opened = some s ∧ s.count_ = 0 :=
    exists_run_of_eval (by decide)
  have hlinear := (latch_linearizable 1 opened s hrun).1
  rw [hcount] at hlinear
  exact ⟨s, hrun, by decide, hlinear⟩

end CountDownLatch

end EventServer.Common
