import EventServer.Support.Run
import EventServer.Event.SchedulableCallback

/-!
# Callbacks that schedule each other

Any number of schedulable callbacks on one event loop.  They are scheduled and
cancelled before the loop and by each other while they run.  libevent keeps a
work list, which it processes until it is empty, and the timers, which it moves
to the work list when an iteration begins.

Both ways of scheduling a callback return early when it is pending already.  A
callback that waits for the next iteration therefore stays where it is when it
is scheduled for the current one.
-/

namespace EventServer.Event

open EventServer.Support

inductive ArmingKind where
  | current
  | next
  deriving DecidableEq, Repr

/-- One arming of an idle callback: its place among all armings, how and in
which iteration it was made.  Iteration 0 is the time before the loop. -/
structure Arming (ι : Type) where
  callback : ι
  serial : ℕ
  kind : ArmingKind
  iteration : ℕ
  deriving DecidableEq, Repr

/-- The loop has not begun, is between two callbacks, or runs one. -/
inductive LoopPhase (ι : Type) where
  | before
  | between
  | running (callback : ι)
  deriving DecidableEq, Repr

/-- The code of the program runs, so that it may schedule and cancel. -/
def LoopPhase.RunsUserCode {ι : Type} : LoopPhase ι → Prop
  | .before | .running _ => True
  | .between => False

instance {ι : Type} : DecidablePred (@LoopPhase.RunsUserCode ι)
  | .before | .running _ => isTrue trivial
  | .between => isFalse id

/-- The loop with its callbacks.  An event in a queue of libevent is shown with
the arming that put it there; `armed` and `ran` are the histories of the armings
and of the runs. -/
structure CallbackLoop (ι : Type) where
  callbacks : ι → SchedulableCallbackImpl
  workList : List (Arming ι)
  timers : List (Arming ι)
  phase : LoopPhase ι
  iteration : ℕ
  armed : List (Arming ι)
  ran : List (Arming ι)

namespace CallbackLoop

variable {ι : Type}

def create : CallbackLoop ι where
  callbacks := fun _ => .create
  workList := []
  timers := []
  phase := .before
  iteration := 0
  armed := []
  ran := []

/-! ## The functions of a callback -/

/-- An arming that is made now. -/
def newArming (s : CallbackLoop ι) (c : ι) (kind : ArmingKind) : Arming ι :=
  ⟨c, s.armed.length, kind, s.iteration⟩

section Functions

variable [DecidableEq ι]

def scheduleCallbackCurrentIteration (s : CallbackLoop ι) (c : ι) :
    CallbackLoop ι :=
  if (s.callbacks c).enabled then s
  else
    { s with
      callbacks := Function.update s.callbacks c (s.callbacks c).eventActive
      workList := s.workList ++ [s.newArming c .current]
      armed := s.armed ++ [s.newArming c .current] }

def scheduleCallbackNextIteration (s : CallbackLoop ι) (c : ι) :
    CallbackLoop ι :=
  if (s.callbacks c).enabled then s
  else
    { s with
      callbacks := Function.update s.callbacks c
        (s.callbacks c).scheduleCallbackNextIteration
      timers := s.timers ++ [s.newArming c .next]
      armed := s.armed ++ [s.newArming c .next] }

def cancel (s : CallbackLoop ι) (c : ι) : CallbackLoop ι :=
  { s with
    callbacks := Function.update s.callbacks c (s.callbacks c).cancel
    workList := s.workList.filter fun a => a.callback ≠ c
    timers := s.timers.filter fun a => a.callback ≠ c }

/-! ## The loop -/

/-- An iteration begins: the timers move to the work list, in an order that
libevent does not promise. -/
def startIteration (s : CallbackLoop ι) (order : List (Arming ι)) :
    Option (CallbackLoop ι) :=
  if (s.phase = .before ∨ (s.phase = .between ∧ s.workList = [])) ∧
      order.Perm s.timers
  then some { s with
    callbacks := fun c => ((s.callbacks c).expire).getD (s.callbacks c)
    workList := s.workList ++ order
    timers := []
    phase := .between
    iteration := s.iteration + 1 }
  else none

/-- The first event of the work list is taken out and its callback called. -/
def runFirst (s : CallbackLoop ι) : Option (CallbackLoop ι) :=
  match s.phase, s.workList with
  | .between, a :: rest =>
      (s.callbacks a.callback).dequeue.map fun cb =>
        { s with
          callbacks := Function.update s.callbacks a.callback cb
          workList := rest
          phase := .running a.callback
          ran := s.ran ++ [a] }
  | _, _ => none

/-- The callback returns. -/
def finish (s : CallbackLoop ι) : Option (CallbackLoop ι) :=
  match s.phase with
  | .running _ => some { s with phase := .between }
  | .before | .between => none

inductive Action (ι : Type) where
  | scheduleCurrent (c : ι)
  | scheduleNext (c : ι)
  | cancel (c : ι)
  | startIteration (order : List (Arming ι))
  | runFirst
  | finish
  deriving DecidableEq, Repr

def step (s : CallbackLoop ι) : Action ι → Option (CallbackLoop ι)
  | .scheduleCurrent c =>
      if s.phase.RunsUserCode
      then some (s.scheduleCallbackCurrentIteration c) else none
  | .scheduleNext c =>
      if s.phase.RunsUserCode
      then some (s.scheduleCallbackNextIteration c) else none
  | .cancel c => if s.phase.RunsUserCode then some (s.cancel c) else none
  | .startIteration order => s.startIteration order
  | .runFirst => s.runFirst
  | .finish => s.finish

/-- What one step can do. -/
theorem step_cases {s t : CallbackLoop ι} {action : Action ι}
    (h : step s action = some t) :
    (∃ c, action = .scheduleCurrent c ∧ s.phase.RunsUserCode ∧
      t = s.scheduleCallbackCurrentIteration c) ∨
    (∃ c, action = .scheduleNext c ∧ s.phase.RunsUserCode ∧
      t = s.scheduleCallbackNextIteration c) ∨
    (∃ c, action = .cancel c ∧ s.phase.RunsUserCode ∧ t = s.cancel c) ∨
    (∃ order, action = .startIteration order ∧
      (s.phase = .before ∨ (s.phase = .between ∧ s.workList = [])) ∧
      order.Perm s.timers ∧
      t = { s with
        callbacks := fun c => ((s.callbacks c).expire).getD (s.callbacks c)
        workList := s.workList ++ order
        timers := []
        phase := .between
        iteration := s.iteration + 1 }) ∨
    (∃ a rest cb, action = .runFirst ∧ s.phase = .between ∧
      s.workList = a :: rest ∧ (s.callbacks a.callback).dequeue = some cb ∧
      t = { s with
        callbacks := Function.update s.callbacks a.callback cb
        workList := rest
        phase := .running a.callback
        ran := s.ran ++ [a] }) ∨
    (∃ c, action = .finish ∧ s.phase = .running c ∧
      t = { s with phase := .between }) := by
  cases action with
  | scheduleCurrent c =>
      simp only [step, Option.ite_none_right_eq_some, Option.some.injEq] at h
      exact Or.inl ⟨c, rfl, h.1, h.2.symm⟩
  | scheduleNext c =>
      simp only [step, Option.ite_none_right_eq_some, Option.some.injEq] at h
      exact Or.inr (Or.inl ⟨c, rfl, h.1, h.2.symm⟩)
  | cancel c =>
      simp only [step, Option.ite_none_right_eq_some, Option.some.injEq] at h
      exact Or.inr (Or.inr (Or.inl ⟨c, rfl, h.1, h.2.symm⟩))
  | startIteration order =>
      simp only [step, startIteration, Option.ite_none_right_eq_some,
        Option.some.injEq] at h
      exact Or.inr (Or.inr (Or.inr (Or.inl
        ⟨order, rfl, h.1.1, h.1.2, h.2.symm⟩)))
  | runFirst =>
      simp only [step, runFirst] at h
      split at h
      · rename_i a rest hphase hlist
        obtain ⟨cb, hdequeue, rfl⟩ := Option.map_eq_some_iff.mp h
        exact Or.inr (Or.inr (Or.inr (Or.inr (Or.inl
          ⟨a, rest, cb, rfl, hphase, hlist, hdequeue, rfl⟩))))
      · cases h
  | finish =>
      simp only [step, finish] at h
      split at h
      · rename_i c hphase
        exact Or.inr (Or.inr (Or.inr (Or.inr (Or.inr
          ⟨c, rfl, hphase, (Option.some.inj h).symm⟩))))
      · cases h
      · cases h

end Functions

/-! ## The invariant -/

/-- The order that the loop promises: `a` runs before `b`. -/
def Precedes (a b : Arming ι) : Prop :=
  a.kind = .current ∧
    ((b.kind = .current ∧ a.serial < b.serial) ∨
      (b.kind = .next ∧ a.iteration = b.iteration))

/-- libevent's queues agree with the state of each event, hold nothing twice
and nothing that has run, and keep the promised order. -/
structure Inv (s : CallbackLoop ι) : Prop where
  active_iff : ∀ c, (s.callbacks c).raw_event_ = .active ↔
    c ∈ s.workList.map Arming.callback
  timed_iff : ∀ c, (s.callbacks c).raw_event_ = .timed ↔
    c ∈ s.timers.map Arming.callback
  nodup : ((s.workList ++ s.timers).map Arming.callback).Nodup
  serials : s.armed.map Arming.serial = List.range s.armed.length
  subperm : (s.ran ++ (s.workList ++ s.timers)).Subperm s.armed
  ordered : (s.ran ++ s.workList).Pairwise fun a b => ¬ Precedes b a
  timers_next : ∀ a ∈ s.timers, a.kind = .next ∧ a.iteration = s.iteration
  moved : ∀ a ∈ s.ran ++ s.workList, a.kind = .next →
    a.iteration < s.iteration
  before : s.phase = .before → s.iteration = 0

theorem inv_create : Inv (create : CallbackLoop ι) := by
  constructor <;>
    simp [create, SchedulableCallbackImpl.create, List.Subperm.refl]

namespace Inv

variable {s : CallbackLoop ι}

theorem serial_lt (hs : Inv s) {a : Arming ι} (ha : a ∈ s.armed) :
    a.serial < s.armed.length := by
  have hmem : a.serial ∈ s.armed.map Arming.serial := List.mem_map_of_mem ha
  rw [hs.serials] at hmem
  exact List.mem_range.mp hmem

theorem armed_nodup (hs : Inv s) : s.armed.Nodup := by
  apply List.Nodup.of_map Arming.serial
  rw [hs.serials]
  exact List.nodup_range

theorem mem_armed (hs : Inv s) {a : Arming ι}
    (ha : a ∈ s.ran ++ s.workList) : a ∈ s.armed := by
  apply hs.subperm.subset
  rw [← List.append_assoc]
  exact List.mem_append_left _ ha

theorem idle_iff (hs : Inv s) (c : ι) :
    (s.callbacks c).enabled = false ↔
      c ∉ (s.workList ++ s.timers).map Arming.callback := by
  rw [List.map_append, List.mem_append, ← hs.active_iff, ← hs.timed_iff]
  unfold SchedulableCallbackImpl.enabled
  cases (s.callbacks c).raw_event_ with
  | idle => decide
  | timed => decide
  | active => decide

/-- A new arming has the next serial number. -/
theorem serials_append (hs : Inv s) (c : ι) (kind : ArmingKind) :
    (s.armed ++ [s.newArming c kind]).map Arming.serial =
      List.range (s.armed ++ [s.newArming c kind]).length := by
  rw [List.map_append, hs.serials, List.length_append, List.length_singleton,
    List.range_succ]
  rfl

theorem nodup_cons (hs : Inv s) {c : ι}
    (hidle : (s.callbacks c).enabled = false) (kind : ArmingKind) :
    ((s.newArming c kind :: (s.workList ++ s.timers)).map
      Arming.callback).Nodup := by
  rw [List.map_cons, List.nodup_cons]
  exact ⟨(hs.idle_iff c).mp hidle, hs.nodup⟩

theorem subperm_cons (hs : Inv s) (a : Arming ι) :
    (a :: (s.ran ++ (s.workList ++ s.timers))).Subperm (s.armed ++ [a]) :=
  ((List.subperm_cons a).mpr hs.subperm).trans
    (List.perm_append_singleton a s.armed).symm.subperm

/-- No earlier arming has to wait for a new one. -/
theorem not_precedes_new (hs : Inv s) (c : ι) {a : Arming ι}
    (ha : a ∈ s.ran ++ s.workList) :
    ¬ Precedes (s.newArming c .current) a := by
  rintro ⟨-, ⟨-, hserial⟩ | ⟨hkind, hiteration⟩⟩
  · have := hs.serial_lt (hs.mem_armed ha)
    simp only [newArming] at hserial
    omega
  · have := hs.moved a ha hkind
    simp only [newArming] at hiteration
    omega

theorem startIteration (hs : Inv s) {order : List (Arming ι)}
    (horder : order.Perm s.timers) :
    Inv { s with
      callbacks := fun c => ((s.callbacks c).expire).getD (s.callbacks c)
      workList := s.workList ++ order
      timers := []
      phase := .between
      iteration := s.iteration + 1 } := by
  have hqueue : (s.workList ++ order).Perm (s.workList ++ s.timers) :=
    List.Perm.append_left _ horder
  have hexpire : ∀ cb : SchedulableCallbackImpl,
      ((cb.expire).getD cb).raw_event_ ≠ .timed ∧
        (((cb.expire).getD cb).raw_event_ = .active ↔
          cb.raw_event_ = .active ∨ cb.raw_event_ = .timed) := by
    rintro ⟨raw⟩
    cases raw with
    | idle => decide
    | timed => decide
    | active => decide
  have hmoved : ∀ a ∈ order, a.kind = .next ∧ a.iteration = s.iteration :=
    fun a ha => hs.timers_next a (horder.subset ha)
  refine ⟨?_, ?_, ?_, hs.serials, ?_, ?_, ?_, ?_, ?_⟩
  · intro c
    rw [(hexpire _).2, hs.active_iff, hs.timed_iff,
      (hqueue.map Arming.callback).mem_iff, List.map_append, List.mem_append]
  · intro c
    simp [(hexpire _).1]
  · rw [List.append_nil]
    exact (hqueue.map Arming.callback).nodup_iff.mpr hs.nodup
  · rw [List.append_nil]
    exact (List.Perm.append_left _ hqueue).subperm.trans hs.subperm
  · rw [← List.append_assoc, List.pairwise_append]
    refine ⟨hs.ordered, List.pairwise_of_forall_mem_list ?_, ?_⟩
    · intro a _ b hb hbefore
      exact absurd hbefore.1 (by rw [(hmoved b hb).1]; decide)
    · intro a _ b hb hbefore
      exact absurd hbefore.1 (by rw [(hmoved b hb).1]; decide)
  · intro a ha
    exact absurd ha List.not_mem_nil
  · intro a ha hkind
    rw [← List.append_assoc, List.mem_append] at ha
    rcases ha with ha | ha
    · exact Nat.lt_succ_of_lt (hs.moved a ha hkind)
    · rw [(hmoved a ha).2]
      exact Nat.lt_succ_self _
  · intro hphase
    cases hphase

variable [DecidableEq ι]

theorem scheduleCurrent (hs : Inv s) (c : ι) :
    Inv (s.scheduleCallbackCurrentIteration c) := by
  unfold scheduleCallbackCurrentIteration
  by_cases henabled : (s.callbacks c).enabled
  · rw [if_pos henabled]
    exact hs
  rw [if_neg henabled]
  have hidle : (s.callbacks c).enabled = false := by simpa using henabled
  have hnot := (hs.idle_iff c).mp hidle
  rw [List.map_append, List.mem_append, not_or] at hnot
  refine ⟨?_, ?_, ?_, hs.serials_append c .current, ?_, ?_, hs.timers_next, ?_,
    hs.before⟩
  · intro d
    rw [List.map_append, List.mem_append]
    by_cases hd : d = c
    · subst hd
      simp [SchedulableCallbackImpl.eventActive, newArming]
    · simp [hs.active_iff, newArming, hd]
  · intro d
    by_cases hd : d = c
    · subst hd
      simp only [Function.update_self, SchedulableCallbackImpl.eventActive,
        reduceCtorEq, false_iff]
      exact hnot.2
    · simp only [Function.update_of_ne hd]
      exact hs.timed_iff d
  · have hperm : (s.workList ++ [s.newArming c .current] ++ s.timers).Perm
        (s.newArming c .current :: (s.workList ++ s.timers)) := by
      rw [List.append_assoc]
      exact List.perm_middle
    exact (hperm.map Arming.callback).nodup_iff.mpr
      (hs.nodup_cons hidle .current)
  · have hperm : (s.ran ++ (s.workList ++ [s.newArming c .current] ++
        s.timers)).Perm
        (s.newArming c .current :: (s.ran ++ (s.workList ++ s.timers))) := by
      rw [List.append_assoc, ← List.append_assoc, List.singleton_append,
        ← List.append_assoc s.ran]
      exact List.perm_middle
    exact hperm.subperm.trans (hs.subperm_cons _)
  · rw [← List.append_assoc, List.pairwise_append]
    refine ⟨hs.ordered, List.pairwise_singleton _ _, ?_⟩
    intro a ha b hb
    rw [List.mem_singleton.mp hb]
    exact hs.not_precedes_new c ha
  · intro a ha hkind
    rw [← List.append_assoc, List.mem_append, List.mem_singleton] at ha
    rcases ha with ha | rfl
    · exact hs.moved a ha hkind
    · cases hkind

theorem scheduleNext (hs : Inv s) (c : ι) :
    Inv (s.scheduleCallbackNextIteration c) := by
  unfold scheduleCallbackNextIteration
  by_cases henabled : (s.callbacks c).enabled
  · rw [if_pos henabled]
    exact hs
  rw [if_neg henabled]
  have hidle : (s.callbacks c).enabled = false := by simpa using henabled
  have hnot := (hs.idle_iff c).mp hidle
  have htimed : ((s.callbacks c).scheduleCallbackNextIteration).raw_event_ =
      .timed := by
    simp [SchedulableCallbackImpl.scheduleCallbackNextIteration, hidle]
  rw [List.map_append, List.mem_append, not_or] at hnot
  refine ⟨?_, ?_, ?_, hs.serials_append c .next, ?_, hs.ordered, ?_, hs.moved,
    hs.before⟩
  · intro d
    by_cases hd : d = c
    · subst hd
      simp only [Function.update_self, htimed, reduceCtorEq, false_iff]
      exact hnot.1
    · simp only [Function.update_of_ne hd]
      exact hs.active_iff d
  · intro d
    rw [List.map_append, List.mem_append]
    by_cases hd : d = c
    · subst hd
      simp [htimed, newArming]
    · simp [hs.timed_iff, newArming, hd]
  · have hperm : (s.workList ++ (s.timers ++ [s.newArming c .next])).Perm
        (s.newArming c .next :: (s.workList ++ s.timers)) := by
      rw [← List.append_assoc]
      exact List.perm_append_singleton _ _
    exact (hperm.map Arming.callback).nodup_iff.mpr
      (hs.nodup_cons hidle .next)
  · have hperm : (s.ran ++ (s.workList ++
        (s.timers ++ [s.newArming c .next]))).Perm
        (s.newArming c .next :: (s.ran ++ (s.workList ++ s.timers))) := by
      rw [← List.append_assoc s.workList, ← List.append_assoc]
      exact List.perm_append_singleton _ _
    exact hperm.subperm.trans (hs.subperm_cons _)
  · intro a ha
    rcases List.mem_append.mp ha with ha | ha
    · exact hs.timers_next a ha
    · rw [List.mem_singleton.mp ha]
      exact ⟨rfl, rfl⟩

theorem cancel (hs : Inv s) (c : ι) : Inv (s.cancel c) := by
  have hwork : (s.workList.filter fun a => a.callback ≠ c).Sublist
      s.workList := List.filter_sublist
  have htimers : (s.timers.filter fun a => a.callback ≠ c).Sublist
      s.timers := List.filter_sublist
  have hmem : ∀ (l : List (Arming ι)) (d : ι),
      d ∈ (l.filter fun a => a.callback ≠ c).map Arming.callback ↔
        d ∈ l.map Arming.callback ∧ d ≠ c := by
    intro l d
    simp only [List.mem_map, List.mem_filter, decide_eq_true_eq]
    constructor
    · rintro ⟨a, ⟨ha, hne⟩, rfl⟩
      exact ⟨⟨a, ha, rfl⟩, hne⟩
    · rintro ⟨⟨a, ha, rfl⟩, hne⟩
      exact ⟨a, ⟨ha, hne⟩, rfl⟩
  unfold CallbackLoop.cancel
  refine ⟨?_, ?_, ?_, hs.serials, ?_, ?_, ?_, ?_, hs.before⟩
  · intro d
    rw [hmem]
    by_cases hd : d = c
    · subst hd
      simp [SchedulableCallbackImpl.cancel]
    · simp only [Function.update_of_ne hd, hs.active_iff]
      exact (and_iff_left hd).symm
  · intro d
    rw [hmem]
    by_cases hd : d = c
    · subst hd
      simp [SchedulableCallbackImpl.cancel]
    · simp only [Function.update_of_ne hd, hs.timed_iff]
      exact (and_iff_left hd).symm
  · exact ((hwork.append htimers).map Arming.callback).nodup hs.nodup
  · exact (List.Sublist.append_left
      (hwork.append htimers) s.ran).subperm.trans hs.subperm
  · exact hs.ordered.sublist (List.Sublist.append_left hwork s.ran)
  · exact fun a ha => hs.timers_next a (htimers.subset ha)
  · exact fun a ha =>
      hs.moved a ((List.Sublist.append_left hwork s.ran).subset ha)

theorem runFirst (hs : Inv s) {a : Arming ι} {rest : List (Arming ι)}
    {cb : SchedulableCallbackImpl} (hlist : s.workList = a :: rest)
    (hdequeue : (s.callbacks a.callback).dequeue = some cb) :
    Inv { s with
      callbacks := Function.update s.callbacks a.callback cb
      workList := rest
      phase := .running a.callback
      ran := s.ran ++ [a] } := by
  have hidle : cb.raw_event_ = .idle := by
    unfold SchedulableCallbackImpl.dequeue at hdequeue
    split at hdequeue
    · rw [← Option.some.inj hdequeue]
    · cases hdequeue
  have hnodup := hs.nodup
  have hactive := hs.active_iff
  have hsubperm := hs.subperm
  have hordered := hs.ordered
  have hqueued := hs.moved
  rw [hlist] at hnodup hactive hsubperm hordered hqueued
  rw [List.cons_append, List.map_cons, List.nodup_cons] at hnodup
  obtain ⟨hnot, hrest⟩ := hnodup
  rw [List.map_append, List.mem_append, not_or] at hnot
  have happend : s.ran ++ a :: rest = s.ran ++ [a] ++ rest := by simp
  refine ⟨?_, ?_, hrest, hs.serials, ?_, ?_, hs.timers_next, ?_, ?_⟩
  · intro c
    by_cases hc : c = a.callback
    · subst hc
      simp only [Function.update_self, hidle, reduceCtorEq, false_iff]
      exact hnot.1
    · simp only [Function.update_of_ne hc, hactive, List.map_cons,
        List.mem_cons, hc, false_or]
  · intro c
    by_cases hc : c = a.callback
    · subst hc
      simp only [Function.update_self, hidle, reduceCtorEq, false_iff]
      exact hnot.2
    · simp only [Function.update_of_ne hc]
      exact hs.timed_iff c
  · simpa using hsubperm
  · rw [← happend]
    exact hordered
  · rw [← happend]
    exact hqueued
  · intro hphase
    cases hphase

end Inv

variable [DecidableEq ι]

theorem inv_step (s : CallbackLoop ι) (action : Action ι)
    (t : CallbackLoop ι) (hs : Inv s) (hstep : step s action = some t) :
    Inv t := by
  rcases step_cases hstep with ⟨c, -, -, rfl⟩ | ⟨c, -, -, rfl⟩ |
    ⟨c, -, -, rfl⟩ | ⟨order, -, -, horder, rfl⟩ |
    ⟨a, rest, cb, -, -, hlist, hdequeue, rfl⟩ | ⟨c, -, -, rfl⟩
  · exact hs.scheduleCurrent c
  · exact hs.scheduleNext c
  · exact hs.cancel c
  · exact hs.startIteration horder
  · exact hs.runFirst hlist hdequeue
  · refine { hs with before := ?_ }
    intro hphase
    cases hphase

theorem inv_of_run {s : CallbackLoop ι} {actions : List (Action ι)}
    (hrun : run step create actions = some s) : Inv s :=
  run_invariant inv_step inv_create hrun

end CallbackLoop

end EventServer.Event
