import EventServer.Support.Simulation

/-!
# Linearizable objects

An object that several threads share is described by what each operation does
when it is executed alone: `apply s op` is the next state with the result, or
`none` as long as the operation has to wait.  A history of calls and returns is
linearizable when the operations can be put in an order in which they take
effect one after another, each of them between its call and its return.

`AtomicObject` is the machine whose histories are of this kind by construction:
it executes a call in one step of its own.  What it simulates is linearizable.
-/

namespace EventServer.Support

variable {θ σ ι ρ : Type*}

/-- What a thread does with the object, seen from outside. -/
inductive ObjectEvent (θ ι ρ : Type*) where
  | call (t : θ) (op : ι)
  | ret (t : θ) (result : ρ)
  deriving DecidableEq, Repr

def ObjectEvent.thread : ObjectEvent θ ι ρ → θ
  | .call t _ | .ret t _ => t

/-- An operation that takes effect, with its result. -/
structure EffectPoint (θ ι ρ : Type*) where
  thread : θ
  op : ι
  result : ρ
  deriving DecidableEq, Repr

/-- The call and the return of the operation. -/
def EffectPoint.events (p : EffectPoint θ ι ρ) : List (ObjectEvent θ ι ρ) :=
  [.call p.thread p.op, .ret p.thread p.result]

/-- Executed one after another from `s`, the operations have the results that
they say, and end in `t`. -/
def Executes (apply : σ → ι → Option (σ × ρ)) :
    σ → List (EffectPoint θ ι ρ) → σ → Prop
  | s, [], t => s = t
  | s, p :: ps, t =>
      ∃ next, apply s p.op = some (next, p.result) ∧ Executes apply next ps t

/-- How far a thread is with its call. -/
inductive CallState (ι ρ : Type*) where
  | idle
  | pending (op : ι)
  | done (result : ρ)
  deriving DecidableEq, Repr

/-- The events of the thread `t` are the calls and returns of its operations
that have taken effect, but for the call that has not and the return that is
still to come. -/
def Agrees (t : θ) (events : List (ObjectEvent θ ι ρ))
    (points : List (EffectPoint θ ι ρ)) : CallState ι ρ → Prop
  | .idle => events = points.flatMap EffectPoint.events
  | .pending op =>
      events = points.flatMap EffectPoint.events ++ [.call t op]
  | .done result =>
      events ++ [.ret t result] = points.flatMap EffectPoint.events

section Definitions

variable [DecidableEq θ]

/-- For each thread, `points` are the operations that it has called in
`history`: all that have returned, and perhaps the one that has not. -/
def Accounts (history : List (ObjectEvent θ ι ρ))
    (points : List (EffectPoint θ ι ρ)) : Prop :=
  ∀ x, ∃ c, Agrees x (history.filter fun e => e.thread = x)
    (points.filter fun p => p.thread = x) c

/-- The history is linearizable, with an order of its operations that leads
from `s` to `t`.  Wherever the history is cut, the operations before some
point of this order are those that have been called by then. -/
def Linearizes (apply : σ → ι → Option (σ × ρ)) (s : σ)
    (history : List (ObjectEvent θ ι ρ)) (t : σ) : Prop :=
  ∃ points : List (EffectPoint θ ι ρ), Executes apply s points t ∧
    Accounts history points ∧
    ∀ before after, history = before ++ after →
      ∃ past future, points = past ++ future ∧ Accounts before past

/-- An object that executes each call in one step. -/
structure AtomicObject (θ σ ι ρ : Type*) where
  state : σ
  calls : θ → CallState ι ρ

namespace AtomicObject

inductive Action (ι : Type*) where
  | call (op : ι)
  | perform
  | ret
  deriving DecidableEq, Repr

/-- No thread has called anything. -/
def fresh (s : σ) : AtomicObject θ σ ι ρ := ⟨s, fun _ => .idle⟩

def setCall (o : AtomicObject θ σ ι ρ) (t : θ) (c : CallState ι ρ) :
    AtomicObject θ σ ι ρ :=
  { o with calls := Function.update o.calls t c }

def step (apply : σ → ι → Option (σ × ρ)) (o : AtomicObject θ σ ι ρ) :
    θ × Action ι → Option (AtomicObject θ σ ι ρ)
  | (t, .call op) =>
      match o.calls t with
      | .idle => some (o.setCall t (.pending op))
      | _ => none
  | (t, .perform) =>
      match o.calls t with
      | .pending op =>
          (apply o.state op).map fun next =>
            { o.setCall t (.done next.2) with state := next.1 }
      | _ => none
  | (t, .ret) =>
      match o.calls t with
      | .done _ => some (o.setCall t .idle)
      | _ => none

/-- What an action shows. -/
def event (o : AtomicObject θ σ ι ρ) :
    θ × Action ι → List (ObjectEvent θ ι ρ)
  | (t, .call op) => [.call t op]
  | (_, .perform) => []
  | (t, .ret) =>
      match o.calls t with
      | .done result => [.ret t result]
      | _ => []

/-- The operation that an action executes. -/
def point (apply : σ → ι → Option (σ × ρ)) (o : AtomicObject θ σ ι ρ) :
    θ × Action ι → List (EffectPoint θ ι ρ)
  | (t, .perform) =>
      match o.calls t with
      | .pending op =>
          (apply o.state op).elim [] fun next => [⟨t, op, next.2⟩]
      | _ => []
  | (_, .call _) | (_, .ret) => []

end AtomicObject

end Definitions

variable {apply : σ → ι → Option (σ × ρ)}

theorem Executes.append {s t u : σ} {ps qs : List (EffectPoint θ ι ρ)}
    (hfirst : Executes apply s ps t) (hrest : Executes apply t qs u) :
    Executes apply s (ps ++ qs) u := by
  induction ps generalizing s with
  | nil =>
      obtain rfl : s = t := hfirst
      exact hrest
  | cons p ps ih =>
      obtain ⟨next, happly, htail⟩ := hfirst
      exact ⟨next, happly, ih htail⟩

namespace AtomicObject

variable [DecidableEq θ]

/-! ## When the object can take a step -/

section Steps

variable {o o' : AtomicObject θ σ ι ρ} {t : θ}

/-- Only the call of one thread has moved on. -/
theorem eq_setCall {c : CallState ι ρ} (hself : o'.calls t = c)
    (hothers : ∀ x, x ≠ t → o'.calls x = o.calls x) :
    o' = { o.setCall t c with state := o'.state } := by
  have hcalls : o'.calls = Function.update o.calls t c := by
    funext x
    by_cases hx : x = t
    · simp [hx, hself]
    · simp [hx, hothers x hx]
  cases o'
  simp only [setCall, mk.injEq, true_and]
  exact hcalls

theorem step_call {op : ι} (hbefore : o.calls t = .idle)
    (hafter : o'.calls t = .pending op) (hstate : o'.state = o.state)
    (hothers : ∀ x, x ≠ t → o'.calls x = o.calls x) :
    step apply o (t, .call op) = some o' := by
  rw [eq_setCall hafter hothers, hstate]
  simp [step, hbefore, setCall]

theorem step_perform {op : ι} {result : ρ} (hbefore : o.calls t = .pending op)
    (happly : apply o.state op = some (o'.state, result))
    (hafter : o'.calls t = .done result)
    (hothers : ∀ x, x ≠ t → o'.calls x = o.calls x) :
    step apply o (t, .perform) = some o' := by
  rw [eq_setCall hafter hothers]
  simp [step, hbefore, happly]

theorem step_ret {result : ρ} (hbefore : o.calls t = .done result)
    (hafter : o'.calls t = .idle) (hstate : o'.state = o.state)
    (hothers : ∀ x, x ≠ t → o'.calls x = o.calls x) :
    step apply o (t, .ret) = some o' ∧ event o (t, .ret) = [.ret t result] := by
  constructor
  · rw [eq_setCall hafter hothers, hstate]
    simp [step, hbefore, setCall]
  · simp [event, hbefore]

end Steps

/-! ## Its histories -/

/-- The events `h` and the executed operations `p` so far belong to the object,
which started in `s`. -/
structure Follows (apply : σ → ι → Option (σ × ρ)) (s : σ)
    (o : AtomicObject θ σ ι ρ) (h : List (ObjectEvent θ ι ρ))
    (p : List (EffectPoint θ ι ρ)) : Prop where
  executes : Executes apply s p o.state
  agrees : ∀ x, Agrees x (h.filter fun e => e.thread = x)
    (p.filter fun q => q.thread = x) (o.calls x)

theorem fresh_follows (s : σ) :
    Follows apply s (fresh s : AtomicObject θ σ ι ρ) [] [] where
  executes := rfl
  agrees := fun _ => rfl

variable {s : σ} {o o' : AtomicObject θ σ ι ρ}
  {h : List (ObjectEvent θ ι ρ)} {p : List (EffectPoint θ ι ρ)}

namespace Follows

/-- The call of `t` moves on, and the other threads notice nothing. -/
theorem setCall (hf : Follows apply s o h p) {t : θ} {c : CallState ι ρ}
    {state : σ} {e : List (ObjectEvent θ ι ρ)} {q : List (EffectPoint θ ι ρ)}
    (hexecutes : Executes apply o.state q state)
    (he : ∀ x ∈ e, x.thread = t) (hq : ∀ x ∈ q, x.thread = t)
    (hagrees : Agrees t ((h.filter fun e => e.thread = t) ++ e)
      ((p.filter fun q => q.thread = t) ++ q) c) :
    Follows apply s { o.setCall t c with state := state } (h ++ e) (p ++ q) := by
  refine ⟨hf.executes.append hexecutes, fun x => ?_⟩
  rw [List.filter_append, List.filter_append]
  by_cases hx : x = t
  · subst hx
    have hall : (e.filter fun e => e.thread = x) = e :=
      List.filter_eq_self.mpr fun y hy => by simp [he y hy]
    have hevery : (q.filter fun q => q.thread = x) = q :=
      List.filter_eq_self.mpr fun y hy => by simp [hq y hy]
    rw [hall, hevery]
    simpa [AtomicObject.setCall] using hagrees
  · have hempty : (e.filter fun e => e.thread = x) = [] :=
      List.filter_eq_nil_iff.mpr fun y hy => by simp [he y hy, Ne.symm hx]
    have hnone : (q.filter fun q => q.thread = x) = [] :=
      List.filter_eq_nil_iff.mpr fun y hy => by simp [hq y hy, Ne.symm hx]
    rw [hempty, hnone, List.append_nil, List.append_nil]
    simpa [AtomicObject.setCall, hx] using hf.agrees x

theorem step (hf : Follows apply s o h p) {a : θ × Action ι}
    (hstep : AtomicObject.step apply o a = some o') :
    Follows apply s o' (h ++ event o a) (p ++ point apply o a) := by
  obtain ⟨t, a⟩ := a
  have hagrees := hf.agrees t
  cases a with
  | call op =>
      simp only [AtomicObject.step] at hstep
      split at hstep
      next hidle =>
        cases hstep
        rw [hidle] at hagrees
        refine hf.setCall rfl (by simp [event, ObjectEvent.thread])
          (by simp [point]) ?_
        simpa [Agrees, event, point] using hagrees
      next => cases hstep
  | perform =>
      simp only [AtomicObject.step] at hstep
      split at hstep
      next op hpending =>
        obtain ⟨⟨next, result⟩, happly, rfl⟩ := Option.map_eq_some_iff.mp hstep
        have hpoint : point apply o (t, .perform) = [⟨t, op, result⟩] := by
          simp [point, hpending, happly]
        rw [hpending] at hagrees
        rw [hpoint]
        refine hf.setCall ⟨next, happly, rfl⟩ (by simp [event])
          (by simp) ?_
        rw [Agrees] at hagrees
        simp [Agrees, event, hagrees, EffectPoint.events]
      next => cases hstep
  | ret =>
      simp only [AtomicObject.step] at hstep
      split at hstep
      next result hdone =>
        cases hstep
        have hevent : event o (t, .ret) = [.ret t result] := by
          simp [event, hdone]
        rw [hdone] at hagrees
        rw [hevent]
        refine hf.setCall rfl (by simp [ObjectEvent.thread])
          (by simp [point]) ?_
        simpa [Agrees, point] using hagrees
      next => cases hstep

theorem run (hf : Follows apply s o h p) {as : List (θ × Action ι)}
    (hrun : Support.run (AtomicObject.step apply) o as = some o') :
    Follows apply s o' (h ++ trace (AtomicObject.step apply) event o as)
      (p ++ trace (AtomicObject.step apply) (point apply) o as) := by
  induction as generalizing o h p with
  | nil =>
      obtain rfl : o = o' := by simpa using hrun
      simpa using hf
  | cons a as ih =>
      obtain ⟨next, hstep, hrest⟩ := run_cons_eq_some_iff.mp hrun
      have hnext := ih (hf.step hstep) hrest
      rwa [List.append_assoc, List.append_assoc, ← trace_cons hstep,
        ← trace_cons hstep] at hnext

end Follows

omit [DecidableEq θ] in
theorem event_length_le (o : AtomicObject θ σ ι ρ) (a : θ × Action ι) :
    (event o a).length ≤ 1 := by
  obtain ⟨t, a⟩ := a
  cases a with
  | call op => exact le_refl 1
  | perform => exact Nat.zero_le 1
  | ret =>
      simp only [event]
      split
      · exact le_refl 1
      · exact Nat.zero_le 1

/-- The histories of the object are linearizable. -/
theorem linearizes {as : List (θ × Action ι)}
    (hrun : Support.run (step apply) (fresh s) as = some o) :
    Linearizes apply s (trace (step apply) event (fresh s) as) o.state := by
  have hall := (fresh_follows s).run hrun
  refine ⟨trace (step apply) (point apply) (fresh s) as, hall.executes,
    fun x => ⟨o.calls x, hall.agrees x⟩, ?_⟩
  intro before after hcut
  obtain ⟨bs, cs, mid, rfl, hbs, -, rfl, -⟩ :=
    exists_split_of_trace_append event_length_le hrun hcut
  have hmid := (fresh_follows s).run hbs
  exact ⟨_, _, trace_append hbs cs, fun x => ⟨mid.calls x, hmid.agrees x⟩⟩

end AtomicObject

section Simulation

variable [DecidableEq θ] {τ α : Type*} {step : τ → α → Option τ}
  {event : τ → α → List (ObjectEvent θ ι ρ)}
  {R : τ → AtomicObject θ σ ι ρ → Prop}

/-- A machine that the atomic object simulates has only linearizable
histories. -/
theorem Simulates.linearizes {s : σ} {u v : τ} {as : List α}
    (h : Simulates step event (AtomicObject.step apply) AtomicObject.event R)
    (hstart : R u (.fresh s)) (hrun : Support.run step u as = some v) :
    ∃ o, R v o ∧ Linearizes apply s (trace step event u as) o.state := by
  obtain ⟨bs, o, hbs, hR, htrace⟩ := h.run hstart hrun
  exact ⟨o, hR, htrace ▸ AtomicObject.linearizes hbs⟩

end Simulation

end EventServer.Support
