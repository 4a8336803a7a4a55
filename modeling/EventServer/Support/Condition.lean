import Mathlib.Tactic

/-!
# Condition variables

The waiters of a condition variable, told apart by what has woken them: nobody
yet, a signal or broadcast, or nothing at all.  A thread that has been woken
resumes when it gets the mutex again.  All operations are meant to be executed
while the mutex is held, so that each of them is one step.
-/

namespace EventServer.Support

/-- A condition variable.  No thread waits on it twice. -/
structure Condition (τ : Type) where
  waiting : List τ
  notified : List τ
  woken : List τ
  nodup : (waiting ++ notified ++ woken).Nodup

namespace Condition

variable {τ : Type}

/-- The threads that are inside `wait`. -/
def blocked (c : Condition τ) : List τ := c.waiting ++ c.notified ++ c.woken

def create : Condition τ := ⟨[], [], [], List.nodup_nil⟩

variable [DecidableEq τ]

/-- A thread begins to wait. -/
def wait (c : Condition τ) (t : τ) : Option (Condition τ) :=
  if h : t ∈ c.blocked then none else some {
    waiting := t :: c.waiting
    notified := c.notified
    woken := c.woken
    nodup := List.nodup_cons.mpr ⟨h, c.nodup⟩ }

theorem perm_of_erase {t : τ} {waiting notified woken : List τ}
    (ht : t ∈ waiting) :
    (waiting ++ notified ++ woken).Perm
      (waiting.erase t ++ (t :: notified) ++ woken) := by
  have hmove : (waiting ++ notified).Perm
      (waiting.erase t ++ (t :: notified)) :=
    ((List.perm_cons_erase ht).append_right notified).trans
      List.perm_middle.symm
  exact hmove.append_right woken

/-- Signal: one of the threads that wait, which the caller of the model
chooses, is notified.  Without one nothing happens. -/
def notify (c : Condition τ) (t : τ) : Option (Condition τ) :=
  if c.waiting = [] then some c
  else if h : t ∈ c.waiting then some {
    waiting := c.waiting.erase t
    notified := t :: c.notified
    woken := c.woken
    nodup := (perm_of_erase h).nodup_iff.mp c.nodup }
  else none

/-- Broadcast: all threads that wait are notified. -/
def notifyAll (c : Condition τ) : Condition τ where
  waiting := []
  notified := c.waiting ++ c.notified
  woken := c.woken
  nodup := c.nodup

/-- A spurious wake-up. -/
def wake (c : Condition τ) (t : τ) : Option (Condition τ) :=
  if h : t ∈ c.waiting then some {
    waiting := c.waiting.erase t
    notified := c.notified
    woken := t :: c.woken
    nodup := by
      have hperm : (c.waiting ++ c.notified ++ c.woken).Perm
          (c.waiting.erase t ++ (t :: c.notified) ++ c.woken) :=
        perm_of_erase h
      refine ((hperm.trans ?_).nodup_iff).mp c.nodup
      rw [List.append_assoc, List.append_assoc]
      exact List.Perm.append_left _ List.perm_middle.symm }
  else none

/-- A thread that has been woken returns from `wait`. -/
def resume (c : Condition τ) (t : τ) : Option (Condition τ) :=
  if t ∈ c.notified then some {
    waiting := c.waiting
    notified := c.notified.erase t
    woken := c.woken
    nodup := c.nodup.sublist
      (((List.erase_sublist).append_left c.waiting).append_right c.woken) }
  else if t ∈ c.woken then some {
    waiting := c.waiting
    notified := c.notified
    woken := c.woken.erase t
    nodup := c.nodup.sublist ((List.erase_sublist).append_left _) }
  else none

/-! ## Rules -/

variable {c d : Condition τ} {t : τ}

/-- Beginning to wait. -/
theorem wait_spec (h : c.wait t = some d) :
    d.waiting = t :: c.waiting ∧ d.notified = c.notified ∧
      ∀ x, x ∈ d.blocked ↔ x = t ∨ x ∈ c.blocked := by
  unfold wait at h
  split at h
  · cases h
  · cases h
    exact ⟨rfl, rfl, fun x => by simp [blocked]⟩

theorem notify_nil (h : c.waiting = []) (t : τ) : c.notify t = some c :=
  if_pos h

/-- A signal keeps the blocked threads.  If there is one that waits, it is
notified. -/
theorem notify_spec (h : c.notify t = some d) :
    (∀ x, x ∈ d.blocked ↔ x ∈ c.blocked) ∧
      ((c.waiting = [] ∧ d = c) ∨
        (c.waiting ≠ [] ∧ d.notified.length = c.notified.length + 1)) := by
  unfold notify at h
  split at h
  next hnone =>
    cases h
    exact ⟨fun x => Iff.rfl, Or.inl ⟨hnone, rfl⟩⟩
  next hsome =>
    split at h
    next hmem =>
      cases h
      exact ⟨fun x => (perm_of_erase hmem).mem_iff.symm,
        Or.inr ⟨hsome, rfl⟩⟩
    next => cases h

omit [DecidableEq τ] in
theorem notifyAll_spec (c : Condition τ) :
    c.notifyAll.waiting = [] ∧
      ∀ x, x ∈ c.notifyAll.blocked ↔ x ∈ c.blocked :=
  ⟨rfl, fun x => by simp [notifyAll, blocked]⟩

/-- A spurious wake-up keeps the blocked threads and the notified ones. -/
theorem wake_spec (h : c.wake t = some d) :
    c.waiting ≠ [] ∧ d.notified = c.notified ∧
      ∀ x, x ∈ d.blocked ↔ x ∈ c.blocked := by
  unfold wake at h
  split at h
  next hmem =>
    cases h
    refine ⟨List.ne_nil_of_mem hmem, rfl, fun x => ?_⟩
    have herase := (List.perm_cons_erase hmem).mem_iff (a := x)
    simp only [blocked, List.mem_append, List.mem_cons] at herase ⊢
    tauto
  next => cases h

/-- A thread that resumes is no longer blocked. -/
theorem resume_blocked (h : c.resume t = some d) :
    t ∈ c.blocked ∧ d.blocked = c.blocked.erase t := by
  have hnodup := c.nodup
  rw [List.nodup_append, List.nodup_append] at hnodup
  obtain ⟨⟨-, -, hfirst⟩, -, hlast⟩ := hnodup
  unfold resume at h
  split at h
  next hmem =>
    cases h
    have hwaiting : t ∉ c.waiting := fun hw => hfirst t hw t hmem rfl
    have hfront : t ∈ c.waiting ++ c.notified :=
      List.mem_append_right _ hmem
    refine ⟨List.mem_append_left _ hfront, ?_⟩
    rw [blocked, blocked, List.erase_append_left _ hfront,
      List.erase_append_right _ hwaiting]
  next =>
    split at h
    next hmem =>
      cases h
      have hfront : t ∉ c.waiting ++ c.notified :=
        fun hw => hlast t hw t hmem rfl
      refine ⟨List.mem_append_right _ hmem, ?_⟩
      rw [blocked, blocked, List.erase_append_right _ hfront]
    next => cases h

/-- Returning from `wait` uses up at most one notification. -/
theorem resume_waiting (h : c.resume t = some d) :
    d.waiting = c.waiting ∧ c.notified.length ≤ d.notified.length + 1 := by
  unfold resume at h
  split at h
  next hmem =>
    cases h
    refine ⟨rfl, ?_⟩
    change c.notified.length ≤ (c.notified.erase t).length + 1
    rw [List.length_erase_of_mem hmem]
    omega
  next =>
    split at h
    next =>
      cases h
      exact ⟨rfl, Nat.le_succ _⟩
    next => cases h

theorem resume_spec (h : c.resume t = some d) :
    t ∈ c.blocked ∧ d.waiting = c.waiting ∧
      c.notified.length ≤ d.notified.length + 1 ∧
      d.blocked.length + 1 = c.blocked.length ∧
      ∀ x, x ∈ d.blocked ↔ x ∈ c.blocked ∧ x ≠ t := by
  obtain ⟨hmem, hblocked⟩ := resume_blocked h
  obtain ⟨hwaiting, hnotified⟩ := resume_waiting h
  have hnodup : c.blocked.Nodup := c.nodup
  have hpos := List.length_pos_of_mem hmem
  refine ⟨hmem, hwaiting, hnotified, ?_, fun x => ?_⟩
  · rw [hblocked, List.length_erase_of_mem hmem]
    omega
  · rw [hblocked, hnodup.mem_erase_iff]
    exact and_comm

/-- Once nobody waits for a signal, every blocked thread can resume. -/
theorem resume_eq_some (hnone : c.waiting = []) (ht : t ∈ c.blocked) :
    ∃ d, c.resume t = some d := by
  simp only [blocked, hnone, List.nil_append, List.mem_append] at ht
  unfold resume
  by_cases hmem : t ∈ c.notified
  · exact ⟨_, if_pos hmem⟩
  · rw [if_neg hmem, if_pos (ht.resolve_left hmem)]
    exact ⟨_, rfl⟩

end Condition

end EventServer.Support
