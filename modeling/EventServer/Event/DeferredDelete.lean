import EventServer.Support.Run
import EventServer.Event.SchedulableCallback

/-!
# Deferred deletion

`Dispatcher::deferredDelete` collects objects in one of two vectors, and
`clearDeferredDeleteList` destroys the collected ones, front to back.  The
destructors are code of the program: they may submit further objects, which go
to the other vector, and may call `clearDeferredDeleteList` themselves.  A
clear that is in progress is therefore a frame on a stack, and every call of a
destructor and every return from one is a step of its own.
-/

namespace EventServer.Event

open EventServer.Support

/-- What can be submitted: an object, or a task that `DeferredTaskUtil` wraps
in an object whose destructor runs it. -/
inductive DeferredDeletable (Obj Task : Type) where
  | object (obj : Obj)
  | deferredTask (task : Task)
  deriving DecidableEq, Repr

/-- The two vectors. -/
inductive ToDelete where
  | to_delete_1_
  | to_delete_2_
  deriving DecidableEq, Repr

/-- The vector that the swap in `clearDeferredDeleteList` selects. -/
def ToDelete.other : ToDelete → ToDelete
  | .to_delete_1_ => .to_delete_2_
  | .to_delete_2_ => .to_delete_1_

@[simp] theorem ToDelete.other_other (w : ToDelete) : w.other.other = w := by
  cases w with
  | to_delete_1_ => rfl
  | to_delete_2_ => rfl

theorem ToDelete.other_ne (w : ToDelete) : w.other ≠ w := by
  cases w with
  | to_delete_1_ => exact nofun
  | to_delete_2_ => exact nofun

/-- A `clearDeferredDeleteList` in progress: its vector, its loop counter and
bound, and whether a destructor is running. -/
structure ClearFrame where
  to_delete : ToDelete
  i : ℕ
  num_to_delete : ℕ
  inDestructor : Bool
  deriving DecidableEq, Repr

/-- How many pointers of its vector the clear has made null. -/
def ClearFrame.done (f : ClearFrame) : ℕ :=
  if f.inDestructor then f.i + 1 else f.i

/-- The deferred deletion of a dispatcher.  The elements of the vectors are
pointers.  `submitted` and `destroyed` are the histories of the objects passed
to `deferredDelete` and of the destructor calls. -/
structure DeferredDelete (Obj Task : Type) where
  vectors : ToDelete → List (Option (DeferredDeletable Obj Task))
  current_to_delete_ : ToDelete
  deferred_deleting_ : Bool
  deferred_delete_cb_ : SchedulableCallbackImpl
  frames : List ClearFrame
  submitted : List (DeferredDeletable Obj Task)
  destroyed : List (DeferredDeletable Obj Task)

namespace DeferredDelete

variable {Obj Task : Type}

/-- A new dispatcher. -/
def create : DeferredDelete Obj Task where
  vectors := fun _ => []
  current_to_delete_ := .to_delete_1_
  deferred_deleting_ := false
  deferred_delete_cb_ := .create
  frames := []
  submitted := []
  destroyed := []

/-- The code of the program runs: outside of all clears, or in a destructor
called by the innermost one. -/
def RunsUserCode (s : DeferredDelete Obj Task) : Prop :=
  ∀ f ∈ s.frames.head?, f.inDestructor = true

instance (s : DeferredDelete Obj Task) : Decidable s.RunsUserCode :=
  inferInstanceAs (Decidable (∀ f ∈ s.frames.head?, f.inDestructor = true))

/-- The vector that collects. -/
def current (s : DeferredDelete Obj Task) :
    List (Option (DeferredDeletable Obj Task)) :=
  s.vectors s.current_to_delete_

/-- The vector that a clear in progress goes through. -/
def iterated (s : DeferredDelete Obj Task) :
    List (Option (DeferredDeletable Obj Task)) :=
  s.vectors s.current_to_delete_.other

/-! ## The functions -/

/-- `deferredDelete`. -/
def deferredDelete (s : DeferredDelete Obj Task)
    (to_delete : Option (DeferredDeletable Obj Task)) :
    DeferredDelete Obj Task :=
  match to_delete with
  | none => s
  | some obj =>
      let pushed := s.current ++ [some obj]
      { s with
        vectors := Function.update s.vectors s.current_to_delete_ pushed
        submitted := s.submitted ++ [obj]
        deferred_delete_cb_ :=
          if pushed.length = 1
          then s.deferred_delete_cb_.scheduleCallbackCurrentIteration
          else s.deferred_delete_cb_ }

/-- `DeferredTaskUtil::deferredRun`. -/
def deferredRun (s : DeferredDelete Obj Task) (func : Task) :
    DeferredDelete Obj Task :=
  s.deferredDelete (some (.deferredTask func))

/-- `clearDeferredDeleteList` up to its loop. -/
def clearDeferredDeleteList (s : DeferredDelete Obj Task) :
    DeferredDelete Obj Task :=
  let num_to_delete := s.current.length
  if s.deferred_deleting_ = true ∨ num_to_delete = 0 then s
  else
    { s with
      current_to_delete_ := s.current_to_delete_.other
      deferred_deleting_ := true
      frames := ⟨s.current_to_delete_, 0, num_to_delete, false⟩ :: s.frames }

/-- One round of the loop: `reset` makes the pointer null and destroys the
object that it owned. -/
def resetNext (s : DeferredDelete Obj Task) :
    Option (DeferredDelete Obj Task) :=
  match s.frames with
  | f :: fs =>
      if f.inDestructor = false ∧ f.i < f.num_to_delete then
        match (s.vectors f.to_delete)[f.i]? with
        | some (some obj) =>
            some { s with
              vectors := Function.update s.vectors f.to_delete
                ((s.vectors f.to_delete).set f.i none)
              destroyed := s.destroyed ++ [obj]
              frames := { f with inDestructor := true } :: fs }
        | some none => some { s with frames := { f with i := f.i + 1 } :: fs }
        | none => none
      else none
  | [] => none

/-- The destructor returns to the loop. -/
def destructorReturns (s : DeferredDelete Obj Task) :
    Option (DeferredDelete Obj Task) :=
  match s.frames with
  | f :: fs =>
      if f.inDestructor = true then
        some { s with
          frames := { f with inDestructor := false, i := f.i + 1 } :: fs }
      else none
  | [] => none

/-- The loop has ended: `clear()` drops the pointers, and with them whatever
they still own. -/
def finishClear (s : DeferredDelete Obj Task) :
    Option (DeferredDelete Obj Task) :=
  match s.frames with
  | f :: fs =>
      if f.inDestructor = false ∧ ¬ f.i < f.num_to_delete then
        some { s with
          vectors := Function.update s.vectors f.to_delete []
          destroyed := s.destroyed ++ (s.vectors f.to_delete).filterMap id
          deferred_deleting_ := false
          frames := fs }
      else none
  | [] => none

/-- The loop dequeues `deferred_delete_cb_` and calls its callback.  No
destructor runs the loop. -/
def fire (s : DeferredDelete Obj Task) : Option (DeferredDelete Obj Task) :=
  match s.frames with
  | [] => s.deferred_delete_cb_.dequeue.map fun cb =>
      clearDeferredDeleteList { s with deferred_delete_cb_ := cb }
  | _ :: _ => none

inductive Action (Obj Task : Type) where
  | deferredDelete (to_delete : Option (DeferredDeletable Obj Task))
  | deferredRun (func : Task)
  | clearDeferredDeleteList
  | resetNext
  | destructorReturns
  | finishClear
  | fire

def step (s : DeferredDelete Obj Task) :
    Action Obj Task → Option (DeferredDelete Obj Task)
  | .deferredDelete p =>
      if s.RunsUserCode then some (s.deferredDelete p) else none
  | .deferredRun func =>
      if s.RunsUserCode then some (s.deferredRun func) else none
  | .clearDeferredDeleteList =>
      if s.RunsUserCode then some s.clearDeferredDeleteList else none
  | .resetNext => s.resetNext
  | .destructorReturns => s.destructorReturns
  | .finishClear => s.finishClear
  | .fire => s.fire

/-! ## The invariant -/

/-- Either no clear is in progress and the other vector is empty, or one is, it
has made `done` pointers null, and `rest` is still to be destroyed. -/
def Clearing (s : DeferredDelete Obj Task)
    (rest : List (DeferredDeletable Obj Task)) : Prop :=
  (s.frames = [] ∧ s.deferred_deleting_ = false ∧ s.iterated = [] ∧
      rest = []) ∨
    ∃ f, s.frames = [f] ∧ s.deferred_deleting_ = true ∧
      f.to_delete = s.current_to_delete_.other ∧
      s.iterated = List.replicate f.done none ++ rest.map some ∧
      f.num_to_delete = f.done + rest.length

/-- The objects of `rest` and then those of `waiting` are still to be
destroyed. -/
structure Holding (s : DeferredDelete Obj Task)
    (rest waiting : List (DeferredDeletable Obj Task)) : Prop where
  current_eq : s.current = waiting.map some
  clearing : s.Clearing rest
  order_eq : s.destroyed ++ rest ++ waiting = s.submitted

/-- A non-empty current vector will be cleared. -/
def Scheduled (s : DeferredDelete Obj Task) : Prop :=
  s.current ≠ [] → s.deferred_delete_cb_.enabled = true

/-- The invariant of every run. -/
structure Ordered (s : DeferredDelete Obj Task) : Prop where
  holding : ∃ rest waiting, s.Holding rest waiting
  scheduled : s.Scheduled

theorem create_ordered : (create : DeferredDelete Obj Task).Ordered where
  holding := ⟨[], [], rfl, Or.inl ⟨rfl, rfl, rfl, rfl⟩, rfl⟩
  scheduled := fun h => absurd rfl h

/-! ## The functions keep the invariant -/

/-- A submitted object goes to the back of the current vector, never to the
one that is being cleared. -/
theorem deferredDelete_ordered {s : DeferredDelete Obj Task}
    (h : s.Ordered) (to_delete : Option (DeferredDeletable Obj Task)) :
    (s.deferredDelete to_delete).Ordered := by
  cases to_delete with
  | none => exact h
  | some obj =>
      obtain ⟨rest, waiting, hholding⟩ := h.holding
      have hiterated : (s.deferredDelete (some obj)).iterated = s.iterated :=
        Function.update_of_ne s.current_to_delete_.other_ne _ _
      have hcurrent :
          (s.deferredDelete (some obj)).current = s.current ++ [some obj] :=
        Function.update_self ..
      refine ⟨⟨rest, waiting ++ [obj], ?_, ?_, ?_⟩, ?_⟩
      · rw [hcurrent, hholding.current_eq, List.map_append]
        rfl
      · unfold Clearing
        rw [hiterated]
        exact hholding.clearing
      · change s.destroyed ++ rest ++ (waiting ++ [obj]) =
          s.submitted ++ [obj]
        rw [← List.append_assoc, hholding.order_eq]
      · intro _
        simp only [deferredDelete]
        by_cases hone : (s.current ++ [some obj]).length = 1
        · rw [if_pos hone]
          exact SchedulableCallbackImpl.scheduleCallbackCurrentIteration_enabled
            _
        · rw [if_neg hone]
          apply h.scheduled
          intro hempty
          apply hone
          rw [hempty]
          rfl

/-- Outside of all clears, a clear takes over everything that waits. -/
theorem clear_holding {s : DeferredDelete Obj Task}
    {rest waiting : List (DeferredDeletable Obj Task)}
    (h : s.Holding rest waiting) (hframes : s.frames = []) :
    s.clearDeferredDeleteList.Holding waiting [] := by
  rcases h.clearing with ⟨-, hdeleting, hiterated, hrest⟩ | ⟨f, hf, -⟩
  swap
  · rw [hframes] at hf
    cases hf
  subst hrest
  have horder := h.order_eq
  rw [List.append_nil] at horder
  by_cases hempty : waiting = []
  · subst hempty
    have hsame : s.clearDeferredDeleteList = s := by
      simp [clearDeferredDeleteList, h.current_eq]
    rw [hsame]
    exact h
  · have hlength : s.current.length ≠ 0 := by
      rw [h.current_eq, List.length_map]
      exact fun hzero => hempty (List.length_eq_zero_iff.mp hzero)
    have hswap : s.clearDeferredDeleteList = { s with
        current_to_delete_ := s.current_to_delete_.other
        deferred_deleting_ := true
        frames := [⟨s.current_to_delete_, 0, s.current.length, false⟩] } := by
      simp [clearDeferredDeleteList, hdeleting, hlength, hframes]
    rw [hswap]
    refine ⟨hiterated, Or.inr ⟨_, rfl, rfl, ?_, ?_, ?_⟩, ?_⟩
    · exact s.current_to_delete_.other_other.symm
    · change s.vectors s.current_to_delete_.other.other = waiting.map some
      rw [ToDelete.other_other]
      exact h.current_eq
    · change s.current.length = 0 + waiting.length
      rw [h.current_eq, List.length_map, Nat.zero_add]
    · change s.destroyed ++ waiting ++ [] = s.submitted
      rw [List.append_nil]
      exact horder

theorem Holding.scheduled_of_nil {s : DeferredDelete Obj Task}
    {rest : List (DeferredDeletable Obj Task)} (h : s.Holding rest []) :
    s.Scheduled :=
  fun hcurrent => absurd h.current_eq hcurrent

/-- A call of `clearDeferredDeleteList` from a destructor returns at once. -/
theorem clear_ordered {s : DeferredDelete Obj Task} (h : s.Ordered) :
    s.clearDeferredDeleteList.Ordered := by
  obtain ⟨rest, waiting, hholding⟩ := h.holding
  rcases hholding.clearing with ⟨hframes, -⟩ | ⟨f, -, hdeleting, -⟩
  · have hclear := clear_holding hholding hframes
    exact ⟨⟨_, _, hclear⟩, hclear.scheduled_of_nil⟩
  · have hsame : s.clearDeferredDeleteList = s := by
      simp [clearDeferredDeleteList, hdeleting]
    rw [hsame]
    exact h

theorem fire_ordered {s t : DeferredDelete Obj Task} (h : s.Ordered)
    (hstep : s.fire = some t) : t.Ordered := by
  obtain ⟨rest, waiting, hholding⟩ := h.holding
  unfold fire at hstep
  split at hstep
  · rename_i hframes
    obtain ⟨cb, -, ht⟩ := Option.map_eq_some_iff.mp hstep
    subst ht
    have hdequeued :
        Holding { s with deferred_delete_cb_ := cb } rest waiting :=
      ⟨hholding.current_eq, hholding.clearing, hholding.order_eq⟩
    have hclear := clear_holding hdequeued hframes
    exact ⟨⟨_, _, hclear⟩, hclear.scheduled_of_nil⟩
  · cases hstep

/-! ## The loop of a clear keeps the invariant -/

/-- The first pointer that is not null. -/
theorem getElem?_done {α : Type} (k : ℕ) (obj : α) (rest : List α) :
    (List.replicate k none ++ (obj :: rest).map some)[k]? =
      some (some obj) := by
  rw [List.getElem?_append_right (by simp)]
  simp

theorem set_done {α : Type} (k : ℕ) (obj : α) (rest : List α) :
    (List.replicate k none ++ (obj :: rest).map some).set k none =
      List.replicate (k + 1) none ++ rest.map some := by
  rw [List.set_append_right _ _ (by simp)]
  simp [List.replicate_succ']

/-- One round of the loop destroys the first object of the rest, after which
its destructor runs. -/
theorem resetNext_ordered {s t : DeferredDelete Obj Task} (h : s.Ordered)
    (hstep : s.resetNext = some t) : t.Ordered := by
  obtain ⟨rest, waiting, hholding⟩ := h.holding
  rcases hholding.clearing with ⟨hframes, -⟩ |
    ⟨f, hframes, hdeleting, hvector, hiterated, hnum⟩
  · simp [resetNext, hframes] at hstep
  have hvectors : s.vectors f.to_delete = s.iterated := by
    rw [hvector]
    rfl
  have hne : f.to_delete ≠ s.current_to_delete_ := by
    rw [hvector]
    exact s.current_to_delete_.other_ne
  by_cases hguard : f.inDestructor = false ∧ f.i < f.num_to_delete
  swap
  · simp [resetNext, hframes, hguard] at hstep
  have hdone : f.done = f.i := by simp [ClearFrame.done, hguard.1]
  rw [hdone] at hiterated hnum
  cases rest with
  | nil =>
      rw [List.length_nil] at hnum
      omega
  | cons obj rest =>
      have hobj := getElem?_done f.i obj rest
      rw [← hiterated, ← hvectors] at hobj
      simp only [resetNext, hframes, hguard, and_self, if_true, hobj] at hstep
      have ht := Option.some.inj hstep
      have hcurrent : t.current = s.current := by
        rw [← ht]
        exact Function.update_of_ne hne.symm _ _
      have hnext : t.iterated =
          List.replicate (f.i + 1) none ++ rest.map some := by
        rw [← set_done, ← hiterated, ← hvectors, ← ht]
        change Function.update s.vectors f.to_delete _
          s.current_to_delete_.other = _
        rw [← hvector, Function.update_self]
      refine ⟨⟨rest, waiting, ?_, Or.inr ⟨{ f with inDestructor := true },
        ?_, ?_, ?_, ?_, ?_⟩, ?_⟩, ?_⟩
      · rw [hcurrent]
        exact hholding.current_eq
      · rw [← ht]
      · rw [← ht]
        exact hdeleting
      · rw [← ht]
        exact hvector
      · exact hnext
      · change f.num_to_delete = f.i + 1 + rest.length
        rw [hnum, List.length_cons]
        omega
      · rw [← ht]
        change s.destroyed ++ [obj] ++ rest ++ waiting = s.submitted
        rw [← hholding.order_eq]
        simp
      · intro hwaiting
        rw [hcurrent] at hwaiting
        rw [← ht]
        exact h.scheduled hwaiting

theorem destructorReturns_ordered {s t : DeferredDelete Obj Task}
    (h : s.Ordered) (hstep : s.destructorReturns = some t) : t.Ordered := by
  obtain ⟨rest, waiting, hholding⟩ := h.holding
  rcases hholding.clearing with ⟨hframes, -⟩ |
    ⟨f, hframes, hdeleting, hvector, hiterated, hnum⟩
  · simp [destructorReturns, hframes] at hstep
  by_cases hdestructor : f.inDestructor = true
  swap
  · simp [destructorReturns, hframes, hdestructor] at hstep
  simp only [destructorReturns, hframes, hdestructor, if_true] at hstep
  have ht := Option.some.inj hstep
  subst ht
  have hdone : f.done = f.i + 1 := by simp [ClearFrame.done, hdestructor]
  rw [hdone] at hiterated hnum
  refine ⟨⟨rest, waiting, hholding.current_eq, Or.inr ⟨_, rfl, hdeleting,
    hvector, ?_, ?_⟩, hholding.order_eq⟩, h.scheduled⟩
  · exact hiterated
  · exact hnum

/-- When the loop ends, all pointers of the vector are null. -/
theorem finishClear_ordered {s t : DeferredDelete Obj Task} (h : s.Ordered)
    (hstep : s.finishClear = some t) : t.Ordered := by
  obtain ⟨rest, waiting, hholding⟩ := h.holding
  rcases hholding.clearing with ⟨hframes, -⟩ |
    ⟨f, hframes, hdeleting, hvector, hiterated, hnum⟩
  · simp [finishClear, hframes] at hstep
  have hvectors : s.vectors f.to_delete = s.iterated := by
    rw [hvector]
    rfl
  by_cases hguard : f.inDestructor = false ∧ ¬ f.i < f.num_to_delete
  swap
  · simp only [finishClear, hframes, if_neg hguard] at hstep
    cases hstep
  have hdone : f.done = f.i := by simp [ClearFrame.done, hguard.1]
  have hrest : rest = [] := by
    rw [← List.length_eq_zero_iff]
    omega
  subst hrest
  have hnulls : (s.vectors f.to_delete).filterMap id = [] := by
    rw [hvectors, hiterated]
    simp
  simp only [finishClear, hframes, if_pos hguard, hnulls] at hstep
  have ht := Option.some.inj hstep
  have hcurrent : t.current = s.current := by
    rw [← ht]
    apply Function.update_of_ne
    rw [hvector]
    exact s.current_to_delete_.other_ne.symm
  refine ⟨⟨[], waiting, ?_, Or.inl ⟨?_, ?_, ?_, rfl⟩, ?_⟩, ?_⟩
  · rw [hcurrent]
    exact hholding.current_eq
  · rw [← ht]
  · rw [← ht]
  · rw [← ht]
    change Function.update s.vectors f.to_delete []
      s.current_to_delete_.other = []
    rw [← hvector, Function.update_self]
  · rw [← ht]
    change s.destroyed ++ [] ++ [] ++ waiting = s.submitted
    rw [List.append_nil]
    exact hholding.order_eq
  · intro hwaiting
    rw [hcurrent] at hwaiting
    rw [← ht]
    exact h.scheduled hwaiting

/-! ## Runs -/

theorem step_ordered {s t : DeferredDelete Obj Task} {a : Action Obj Task}
    (h : s.Ordered) (hstep : step s a = some t) : t.Ordered := by
  cases a with
  | deferredDelete p =>
      by_cases huser : s.RunsUserCode
      · have ht : s.deferredDelete p = t := by simpa [step, huser] using hstep
        exact ht ▸ deferredDelete_ordered h p
      · simp [step, huser] at hstep
  | deferredRun func =>
      by_cases huser : s.RunsUserCode
      · have ht : s.deferredRun func = t := by simpa [step, huser] using hstep
        exact ht ▸ deferredDelete_ordered h _
      · simp [step, huser] at hstep
  | clearDeferredDeleteList =>
      by_cases huser : s.RunsUserCode
      · have ht : s.clearDeferredDeleteList = t := by
          simpa [step, huser] using hstep
        exact ht ▸ clear_ordered h
      · simp [step, huser] at hstep
  | resetNext => exact resetNext_ordered h hstep
  | destructorReturns => exact destructorReturns_ordered h hstep
  | finishClear => exact finishClear_ordered h hstep
  | fire => exact fire_ordered h hstep

theorem run_ordered {actions : List (Action Obj Task)}
    {s : DeferredDelete Obj Task} (hrun : run step create actions = some s) :
    s.Ordered :=
  run_invariant (fun _ _ _ h hstep => step_ordered h hstep) create_ordered hrun

/-! ## What is under way -/

/-- The objects that have been destroyed or belong to the clear in progress. -/
def underway (s : DeferredDelete Obj Task) :
    List (DeferredDeletable Obj Task) :=
  s.destroyed ++ s.iterated.filterMap id

section Underway

variable {s t : DeferredDelete Obj Task}

theorem Clearing.iterated_eq {rest : List (DeferredDeletable Obj Task)}
    (h : s.Clearing rest) : s.iterated.filterMap id = rest := by
  rcases h with ⟨-, -, hempty, rfl⟩ | ⟨f, -, -, -, hvector, -⟩
  · rw [hempty]
    rfl
  · rw [hvector]
    simp [List.filterMap_map]

theorem Ordered.underway_append (h : s.Ordered) :
    s.underway ++ s.current.filterMap id = s.submitted := by
  obtain ⟨rest, waiting, hholding⟩ := h.holding
  have hcurrent : s.current.filterMap id = waiting := by
    rw [hholding.current_eq]
    simp [List.filterMap_map]
  rw [underway, hholding.clearing.iterated_eq, hcurrent]
  exact hholding.order_eq

/-- Outside of all clears, only the current vector holds objects. -/
theorem Ordered.iterated_of_frames (h : s.Ordered) (hframes : s.frames = []) :
    s.iterated = [] := by
  obtain ⟨rest, waiting, hholding⟩ := h.holding
  rcases hholding.clearing with ⟨-, -, hempty, -⟩ | ⟨f, hf, -⟩
  · exact hempty
  · rw [hframes] at hf
    cases hf

/-- Outside of all clears, what is under way has been destroyed. -/
theorem Ordered.underway_of_frames (h : s.Ordered) (hframes : s.frames = []) :
    s.underway = s.destroyed := by
  rw [underway, h.iterated_of_frames hframes]
  exact List.append_nil _

theorem Holding.underway_eq {rest waiting : List (DeferredDeletable Obj Task)}
    (h : s.Holding rest waiting) : s.underway = s.destroyed ++ rest := by
  rw [underway, h.clearing.iterated_eq]

theorem clear_submitted :
    s.clearDeferredDeleteList.submitted = s.submitted := by
  simp only [clearDeferredDeleteList]
  split
  · rfl
  · rfl

theorem clear_destroyed :
    s.clearDeferredDeleteList.destroyed = s.destroyed := by
  simp only [clearDeferredDeleteList]
  split
  · rfl
  · rfl

theorem clear_cb :
    s.clearDeferredDeleteList.deferred_delete_cb_ = s.deferred_delete_cb_ := by
  simp only [clearDeferredDeleteList]
  split
  · rfl
  · rfl

theorem deferredDelete_frames (to_delete : Option (DeferredDeletable Obj Task)) :
    (s.deferredDelete to_delete).frames = s.frames ∧
      (s.deferredDelete to_delete).destroyed = s.destroyed := by
  cases to_delete with
  | none => exact ⟨rfl, rfl⟩
  | some obj => exact ⟨rfl, rfl⟩

/-- A submission schedules `deferred_delete_cb_` for the current turn or leaves
it alone. -/
theorem deferredDelete_cb (to_delete : Option (DeferredDeletable Obj Task)) :
    (s.deferredDelete to_delete).deferred_delete_cb_ = s.deferred_delete_cb_ ∨
      (s.deferredDelete to_delete).deferred_delete_cb_ =
        s.deferred_delete_cb_.scheduleCallbackCurrentIteration := by
  cases to_delete with
  | none => exact Or.inl rfl
  | some obj =>
      simp only [deferredDelete]
      split
      · exact Or.inr rfl
      · exact Or.inl rfl

/-- A step submits, begins a clear, goes on with one, or fires. -/
theorem step_cases {a : Action Obj Task} (hstep : step s a = some t) :
    (∃ to_delete, t = s.deferredDelete to_delete) ∨
    (a = .clearDeferredDeleteList ∧ t = s.clearDeferredDeleteList) ∨
    (s.resetNext = some t ∨ s.destructorReturns = some t ∨
      s.finishClear = some t) ∨
    (a = .fire ∧ s.fire = some t) := by
  cases a with
  | deferredDelete p =>
      obtain ⟨-, heq⟩ := Option.ite_none_right_eq_some.mp hstep
      exact Or.inl ⟨p, (Option.some.inj heq).symm⟩
  | deferredRun func =>
      obtain ⟨-, heq⟩ := Option.ite_none_right_eq_some.mp hstep
      exact Or.inl ⟨some (.deferredTask func), (Option.some.inj heq).symm⟩
  | clearDeferredDeleteList =>
      obtain ⟨-, heq⟩ := Option.ite_none_right_eq_some.mp hstep
      exact Or.inr (Or.inl ⟨rfl, (Option.some.inj heq).symm⟩)
  | resetNext => exact Or.inr (Or.inr (Or.inl (Or.inl hstep)))
  | destructorReturns =>
      exact Or.inr (Or.inr (Or.inl (Or.inr (Or.inl hstep))))
  | finishClear => exact Or.inr (Or.inr (Or.inl (Or.inr (Or.inr hstep))))
  | fire => exact Or.inr (Or.inr (Or.inr ⟨rfl, hstep⟩))

/-- A clear that is begun outside of all others puts everything under way. -/
theorem Holding.clear_underway {rest waiting : List (DeferredDeletable Obj Task)}
    (h : s.Holding rest waiting) (hframes : s.frames = []) :
    s.clearDeferredDeleteList.underway = s.submitted := by
  have hclear := clear_holding h hframes
  have horder := hclear.order_eq
  rw [List.append_nil, clear_submitted] at horder
  exact hclear.underway_eq.trans horder

theorem clear_grows (h : s.Ordered) :
    s.underway <+: s.clearDeferredDeleteList.underway := by
  obtain ⟨rest, waiting, hholding⟩ := h.holding
  rcases hholding.clearing with ⟨hframes, -⟩ | ⟨f, -, hdeleting, -⟩
  · rw [hholding.clear_underway hframes, ← h.underway_append]
    exact List.prefix_append _ _
  · simp [clearDeferredDeleteList, hdeleting]

/-- The steps of a clear in progress. -/
def Action.Clears : Action Obj Task → Prop
  | .resetNext | .destructorReturns | .finishClear => True
  | _ => False

theorem Action.Clears.clearing {a : Action Obj Task} (ha : a.Clears)
    (hstep : step s a = some t) :
    s.resetNext = some t ∨ s.destructorReturns = some t ∨
      s.finishClear = some t := by
  cases a with
  | resetNext => exact Or.inl hstep
  | destructorReturns => exact Or.inr (Or.inl hstep)
  | finishClear => exact Or.inr (Or.inr hstep)
  | _ => exact ha.elim

/-- The steps of a clear leave the collected objects alone. -/
theorem clearing_step (h : s.Ordered)
    (hstep : s.resetNext = some t ∨ s.destructorReturns = some t ∨
      s.finishClear = some t) :
    s.frames ≠ [] ∧ t.submitted = s.submitted ∧ t.current = s.current ∧
      t.deferred_delete_cb_ = s.deferred_delete_cb_ := by
  obtain ⟨rest, waiting, hholding⟩ := h.holding
  -- The vector of the clear is the one that does not collect.
  have hother {f : ClearFrame} {fs : List ClearFrame}
      (hf : s.frames = f :: fs) (l : List (Option (DeferredDeletable Obj Task))) :
      Function.update s.vectors f.to_delete l s.current_to_delete_ =
        s.current := by
    rcases hholding.clearing with ⟨hnone, -⟩ | ⟨g, hg, -, hvector, -⟩
    · rw [hf] at hnone
      cases hnone
    · rw [hf] at hg
      obtain ⟨rfl, -⟩ := List.cons.inj hg
      rw [hvector]
      exact Function.update_of_ne s.current_to_delete_.other_ne.symm _ _
  rcases hstep with hstep | hstep | hstep
  · unfold resetNext at hstep
    split at hstep
    · rename_i f fs hframes
      obtain ⟨-, hstep⟩ := Option.ite_none_right_eq_some.mp hstep
      split at hstep
      · obtain rfl := Option.some.inj hstep
        exact ⟨by rw [hframes]; exact nofun, rfl, hother hframes _, rfl⟩
      · obtain rfl := Option.some.inj hstep
        exact ⟨by rw [hframes]; exact nofun, rfl, rfl, rfl⟩
      · cases hstep
    · cases hstep
  · unfold destructorReturns at hstep
    split at hstep
    · rename_i f fs hframes
      obtain ⟨-, hstep⟩ := Option.ite_none_right_eq_some.mp hstep
      obtain rfl := Option.some.inj hstep
      exact ⟨by rw [hframes]; exact nofun, rfl, rfl, rfl⟩
    · cases hstep
  · unfold finishClear at hstep
    split at hstep
    · rename_i f fs hframes
      obtain ⟨-, hstep⟩ := Option.ite_none_right_eq_some.mp hstep
      obtain rfl := Option.some.inj hstep
      exact ⟨by rw [hframes]; exact nofun, rfl, hother hframes _, rfl⟩
    · cases hstep

/-- They move objects from the vector to the destroyed ones. -/
theorem clearing_underway {a : Action Obj Task} (h : s.Ordered)
    (hstep : step s a = some t)
    (hclearing : s.resetNext = some t ∨ s.destructorReturns = some t ∨
      s.finishClear = some t) :
    t.underway = s.underway ∧ t.submitted = s.submitted := by
  obtain ⟨-, hsubmitted, hcurrent, -⟩ := clearing_step h hclearing
  have hs := h.underway_append
  have ht := (step_ordered h hstep).underway_append
  rw [hsubmitted, hcurrent, ← hs] at ht
  exact ⟨List.append_cancel_right ht, hsubmitted⟩

theorem deferredDelete_underway
    (to_delete : Option (DeferredDeletable Obj Task)) :
    (s.deferredDelete to_delete).underway = s.underway ∧
      s.submitted <+: (s.deferredDelete to_delete).submitted := by
  cases to_delete with
  | none => exact ⟨rfl, List.prefix_rfl⟩
  | some obj =>
      have hiterated : (s.deferredDelete (some obj)).iterated = s.iterated :=
        Function.update_of_ne s.current_to_delete_.other_ne _ _
      refine ⟨?_, List.prefix_append _ _⟩
      rw [underway, hiterated]
      rfl

/-- When `deferred_delete_cb_` fires, everything submitted is under way. -/
theorem fire_underway (h : s.Ordered) (hstep : s.fire = some t) :
    s.frames = [] ∧ t.submitted = s.submitted ∧ t.underway = t.submitted ∧
      s.deferred_delete_cb_.dequeue = some t.deferred_delete_cb_ := by
  obtain ⟨rest, waiting, hholding⟩ := h.holding
  unfold fire at hstep
  split at hstep
  · rename_i hframes
    obtain ⟨cb, hdequeue, rfl⟩ := Option.map_eq_some_iff.mp hstep
    have hdequeued :
        Holding { s with deferred_delete_cb_ := cb } rest waiting :=
      ⟨hholding.current_eq, hholding.clearing, hholding.order_eq⟩
    refine ⟨hframes, clear_submitted, ?_, ?_⟩
    · rw [hdequeued.clear_underway hframes, clear_submitted]
    · rw [clear_cb]
      exact hdequeue
  · cases hstep

/-- `deferred_delete_cb_` is never given to libevent's timers. -/
theorem untimed_step {a : Action Obj Task} (h : s.Ordered)
    (huntimed : s.deferred_delete_cb_.raw_event_ ≠ .timed)
    (hstep : step s a = some t) :
    t.deferred_delete_cb_.raw_event_ ≠ .timed := by
  rcases step_cases hstep with ⟨p, rfl⟩ | ⟨-, rfl⟩ | hclearing | ⟨-, hfire⟩
  · rcases deferredDelete_cb (s := s) p with hsame | hscheduled
    · rwa [hsame]
    · rw [hscheduled]
      exact SchedulableCallbackImpl.scheduleCallbackCurrentIteration_untimed
        huntimed
  · rwa [clear_cb]
  · rwa [(clearing_step h hclearing).2.2.2]
  · obtain ⟨-, -, -, hdequeue⟩ := fire_underway h hfire
    exact SchedulableCallbackImpl.dequeue_untimed hdequeue

/-- Only firing disables `deferred_delete_cb_`. -/
theorem enabled_of_step {a : Action Obj Task} (h : s.Ordered)
    (hstep : step s a = some t) (ha : a ≠ .fire)
    (henabled : s.deferred_delete_cb_.enabled = true) :
    t.deferred_delete_cb_.enabled = true := by
  rcases step_cases hstep with ⟨p, rfl⟩ | ⟨-, rfl⟩ | hclearing | ⟨hfire, -⟩
  · rcases deferredDelete_cb (s := s) p with hsame | hscheduled
    · rwa [hsame]
    · rw [hscheduled]
      exact SchedulableCallbackImpl.scheduleCallbackCurrentIteration_enabled _
  · rwa [clear_cb]
  · rwa [(clearing_step h hclearing).2.2.2]
  · exact absurd hfire ha

/-- An object is destroyed by a clear in progress only. -/
theorem frames_of_destroyed {a : Action Obj Task} (h : s.Ordered)
    (hstep : step s a = some t) (hdestroyed : t.destroyed ≠ s.destroyed) :
    s.frames ≠ [] := by
  rcases step_cases hstep with ⟨p, rfl⟩ | ⟨-, rfl⟩ | hclearing | ⟨-, hfire⟩
  · exact absurd (deferredDelete_frames p).2 hdestroyed
  · exact absurd clear_destroyed hdestroyed
  · exact (clearing_step h hclearing).1
  · unfold fire at hfire
    split at hfire
    · obtain ⟨cb, -, rfl⟩ := Option.map_eq_some_iff.mp hfire
      exact absurd clear_destroyed hdestroyed
    · cases hfire

/-- A clear in progress has been begun by a call or by the loop. -/
theorem frames_of_step {a : Action Obj Task} (h : s.Ordered)
    (hstep : step s a = some t) (hcall : a ≠ .clearDeferredDeleteList)
    (hfire : a ≠ .fire) (hframes : t.frames ≠ []) : s.frames ≠ [] := by
  rcases step_cases hstep with ⟨p, rfl⟩ | ⟨hclear, -⟩ | hclearing | ⟨hfires, -⟩
  · rwa [(deferredDelete_frames p).1] at hframes
  · exact absurd hclear hcall
  · exact (clearing_step h hclearing).1
  · exact absurd hfires hfire

/-- What is under way stays so, and what is submitted stays submitted. -/
theorem step_grows {a : Action Obj Task} (h : s.Ordered)
    (hstep : step s a = some t) :
    s.underway <+: t.underway ∧ s.submitted <+: t.submitted := by
  rcases step_cases hstep with ⟨p, rfl⟩ | ⟨-, rfl⟩ | hclearing | ⟨-, hfire⟩
  · obtain ⟨hunderway, hsubmitted⟩ := deferredDelete_underway (s := s) p
    exact ⟨hunderway ▸ List.prefix_rfl, hsubmitted⟩
  · rw [clear_submitted]
    exact ⟨clear_grows h, List.prefix_rfl⟩
  · obtain ⟨hunderway, hsubmitted⟩ := clearing_underway h hstep hclearing
    rw [hunderway, hsubmitted]
    exact ⟨List.prefix_rfl, List.prefix_rfl⟩
  · obtain ⟨-, hsubmitted, hunderway, -⟩ := fire_underway h hfire
    rw [hunderway, hsubmitted, ← h.underway_append]
    exact ⟨List.prefix_append _ _, List.prefix_rfl⟩

/-- What a clear in progress still has to do: two steps for each object and one
for itself, and one to return from a destructor. -/
def clearWork (s : DeferredDelete Obj Task) : ℕ :=
  2 * (s.submitted.length - s.destroyed.length) +
    (s.frames.map fun f => if f.inDestructor then 2 else 1).sum

theorem fire_clearWork (hstep : s.fire = some t) :
    t.clearWork ≤ s.clearWork + 1 := by
  unfold fire at hstep
  split at hstep
  · rename_i hframes
    obtain ⟨cb, -, rfl⟩ := Option.map_eq_some_iff.mp hstep
    simp only [clearWork, clearDeferredDeleteList]
    split
    · simp
    · simp [hframes]
  · cases hstep

/-- A clear in progress can always go on. -/
theorem exists_clearStep (h : s.Ordered) (hframes : s.frames ≠ []) :
    ∃ a t, a.Clears ∧ step s a = some t ∧ t.clearWork < s.clearWork := by
  obtain ⟨rest, waiting, hholding⟩ := h.holding
  rcases hholding.clearing with ⟨hnone, -⟩ |
    ⟨f, hf, -, hvector, hiterated, hnum⟩
  · exact absurd hnone hframes
  have hvectors : s.vectors f.to_delete = s.iterated := by
    rw [hvector]
    rfl
  by_cases hdestructor : f.inDestructor = true
  · have hstep : step s .destructorReturns = some { s with
        frames := [{ f with inDestructor := false, i := f.i + 1 }] } := by
      simp [step, destructorReturns, hf, hdestructor]
    refine ⟨.destructorReturns, _, trivial, hstep, ?_⟩
    simp [clearWork, hf, hdestructor]
  have hdone : f.done = f.i := by simp [ClearFrame.done, hdestructor]
  rw [hdone] at hiterated hnum
  cases rest with
  | nil =>
      rw [List.length_nil, Nat.add_zero] at hnum
      have hstep : step s .finishClear = some { s with
          vectors := Function.update s.vectors f.to_delete []
          destroyed := s.destroyed ++ (s.vectors f.to_delete).filterMap id
          deferred_deleting_ := false
          frames := [] } := by
        simp [step, finishClear, hf, hdestructor, hnum]
      refine ⟨.finishClear, _, trivial, hstep, ?_⟩
      simp [clearWork, hf, hdestructor, hvectors, hiterated]
  | cons obj rest =>
      have hobj := getElem?_done f.i obj rest
      rw [← hiterated, ← hvectors] at hobj
      rw [List.length_cons] at hnum
      have hmore : f.i < f.num_to_delete := by omega
      have hstep : step s .resetNext = some { s with
          vectors := Function.update s.vectors f.to_delete
            ((s.vectors f.to_delete).set f.i none)
          destroyed := s.destroyed ++ [obj]
          frames := [{ f with inDestructor := true }] } := by
        simp [step, resetNext, hf, hdestructor, hmore, hobj]
      refine ⟨.resetNext, _, trivial, hstep, ?_⟩
      have hlength := congrArg List.length hholding.order_eq
      simp only [List.length_append, List.length_cons] at hlength
      simp only [clearWork, hf, hdestructor, List.length_append,
        List.length_singleton, List.map_cons, List.map_nil, List.sum_cons,
        List.sum_nil, if_true, Bool.false_eq_true, if_false]
      omega

/-- The steps of a clear lead to its end, when everything that was under way
has been destroyed. -/
theorem Ordered.clear_ends (h : s.Ordered) :
    ∃ t, Reaches step Action.Clears s t ∧ t.frames = [] ∧
      t.destroyed = s.underway := by
  have hprogress (u : DeferredDelete Obj Task)
      (hu : u.Ordered ∧ u.underway = s.underway) (hframes : ¬ u.frames = []) :
      ∃ a v, a.Clears ∧ step u a = some v ∧
        (v.Ordered ∧ v.underway = s.underway) ∧ v.clearWork < u.clearWork := by
    obtain ⟨a, v, ha, hstep, hless⟩ := exists_clearStep hu.1 hframes
    have hsame := (clearing_underway hu.1 hstep (ha.clearing hstep)).1
    exact ⟨a, v, ha, hstep, ⟨step_ordered hu.1 hstep, hsame.trans hu.2⟩, hless⟩
  obtain ⟨t, hreach, ⟨hordered, hunderway⟩, hframes⟩ :=
    reaches_of_measure clearWork hprogress ⟨h, rfl⟩
  refine ⟨t, hreach, hframes, ?_⟩
  rw [← hordered.underway_of_frames hframes, hunderway]

end Underway

/-- The objects that the two vectors own, in the order in which they will be
destroyed. -/
def held (s : DeferredDelete Obj Task) : List (DeferredDeletable Obj Task) :=
  s.iterated.filterMap id ++ s.current.filterMap id

/-- On every run the submitted objects have been destroyed once each and in
the order of their submission, except for those that the vectors still own,
which follow in this order; the vector that a clear iterates over is not the
one that collects, and keeps its length; while objects are collected,
`deferred_delete_cb_` is scheduled; and no object stays in the other vector,
since a clear leads to the end at which all of its objects are destroyed. -/
theorem destroyed_in_order (actions : List (Action Obj Task))
    (s : DeferredDelete Obj Task) (hrun : run step create actions = some s) :
    s.destroyed ++ s.held = s.submitted ∧
      (∀ f ∈ s.frames, f.to_delete ≠ s.current_to_delete_ ∧
        (s.vectors f.to_delete).length = f.num_to_delete) ∧
      (s.current ≠ [] → s.deferred_delete_cb_.enabled = true) ∧
      (s.frames = [] → s.iterated = []) ∧
      ∃ t, Reaches step Action.Clears s t ∧ t.frames = [] ∧
        t.destroyed = s.destroyed ++ s.iterated.filterMap id := by
  have hordered := run_ordered hrun
  obtain ⟨rest, waiting, hholding⟩ := hordered.holding
  refine ⟨?_, ?_, hordered.scheduled, hordered.iterated_of_frames,
    hordered.clear_ends⟩
  · rw [held, ← List.append_assoc]
    exact hordered.underway_append
  · intro g hg
    rcases hholding.clearing with ⟨hframes, -⟩ |
      ⟨f, hframes, -, hvector, hiterated, hnum⟩
    · rw [hframes] at hg
      cases hg
    · rw [hframes, List.mem_singleton] at hg
      subst hg
      have hvectors : s.vectors g.to_delete = s.iterated := by
        rw [hvector]
        rfl
      constructor
      · rw [hvector]
        exact s.current_to_delete_.other_ne
      · rw [hvectors, hiterated, hnum]
        simp

/-- The destructor of the first object submits a third one and asks for a
clear.  The third object is destroyed in the next turn. -/
def resubmission : List (Action ℕ ℕ) :=
  [.deferredDelete (some (.object 1)), .deferredDelete none, .deferredRun 2,
    .fire, .resetNext, .deferredDelete (some (.object 3)),
    .clearDeferredDeleteList, .destructorReturns, .resetNext,
    .destructorReturns, .finishClear]

theorem destroyed_in_order_of_resubmission :
    ∃ s t : DeferredDelete ℕ ℕ, run step create resubmission = some s ∧
      s.destroyed = [.object 1, .deferredTask 2] ∧
      s.destroyed ++ [.object 3] = s.submitted ∧
      s.deferred_delete_cb_.enabled = true ∧ s.iterated = [] ∧
      run step create (resubmission ++ [.fire, .resetNext]) = some t ∧
      ∃ u, Reaches step Action.Clears t u ∧ u.frames = [] ∧
        u.destroyed = [.object 1, .deferredTask 2, .object 3] := by
  obtain ⟨s, hrun, hframes, hheld, hcurrent, hdestroyed⟩ :
      ∃ s : DeferredDelete ℕ ℕ, run step create resubmission = some s ∧
        s.frames = [] ∧ s.held = [.object 3] ∧ s.current ≠ [] ∧
        s.destroyed = [.object 1, .deferredTask 2] :=
    exists_run_of_eval (by decide)
  obtain ⟨t, hlater, hunderway⟩ :
      ∃ t : DeferredDelete ℕ ℕ,
        run step create (resubmission ++ [.fire, .resetNext]) = some t ∧
        t.destroyed ++ t.iterated.filterMap id =
          [.object 1, .deferredTask 2, .object 3] :=
    exists_run_of_eval (by decide)
  obtain ⟨horder, -, hscheduled, hempty, -⟩ := destroyed_in_order _ s hrun
  obtain ⟨-, -, -, -, u, hreach, hend, hall⟩ := destroyed_in_order _ t hlater
  exact ⟨s, t, hrun, hdestroyed, hheld ▸ horder, hscheduled hcurrent,
    hempty hframes, hlater, u, hreach, hend, hall.trans hunderway⟩

end DeferredDelete

end EventServer.Event
