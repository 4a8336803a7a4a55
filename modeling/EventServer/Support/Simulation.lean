import EventServer.Support.Run

/-!
# Histories of runs and forward simulation

What a run of a machine shows to the outside is its history: the events of its
steps, in order.  A machine is simulated by another one if each of its steps is
matched by a run of the other that shows the same events and leads back into
the simulation relation.  Then every history of the one is a history of the
other.
-/

namespace EventServer.Support

variable {σ α τ β ε : Type*}

/-- The history of a run.  `event s a` is what the action `a` shows when it is
taken in `s`. -/
def trace (step : σ → α → Option σ) (event : σ → α → List ε) :
    σ → List α → List ε
  | _, [] => []
  | s, a :: as =>
      event s a ++ (step s a).elim [] fun next => trace step event next as

section Trace

variable {step : σ → α → Option σ} {event : σ → α → List ε} {s t : σ}

@[simp] theorem trace_nil (s : σ) : trace step event s [] = [] := rfl

theorem trace_cons {a : α} {next : σ} (hstep : step s a = some next)
    (as : List α) :
    trace step event s (a :: as) = event s a ++ trace step event next as := by
  simp [trace, hstep]

theorem trace_singleton {a : α} (hstep : step s a = some t) :
    trace step event s [a] = event s a := by
  rw [trace_cons hstep, trace_nil, List.append_nil]

theorem run_singleton {a : α} (hstep : step s a = some t) :
    run step s [a] = some t :=
  run_cons_eq_some_iff.mpr ⟨t, hstep, rfl⟩

theorem trace_append {as : List α} (hrun : run step s as = some t)
    (bs : List α) :
    trace step event s (as ++ bs) =
      trace step event s as ++ trace step event t bs := by
  induction as generalizing s with
  | nil =>
      have heq : s = t := by simpa using hrun
      simp [heq]
  | cons a as ih =>
      obtain ⟨next, hstep, hrest⟩ := run_cons_eq_some_iff.mp hrun
      rw [List.cons_append, trace_cons hstep, trace_cons hstep, ih hrest,
        List.append_assoc]

/-- Where every action shows itself, the history is the list of actions. -/
theorem trace_self {as : List α} (hrun : run step s as = some t) :
    trace step (fun _ a => [a]) s as = as := by
  induction as generalizing s with
  | nil => rfl
  | cons a as ih =>
      obtain ⟨next, hstep, hrest⟩ := run_cons_eq_some_iff.mp hrun
      rw [trace_cons hstep, ih hrest, List.singleton_append]

/-- If no step shows more than one event, every cut through the history is a
cut through the run. -/
theorem exists_split_of_trace_append
    (hshort : ∀ s a, (event s a).length ≤ 1) {as : List α}
    (hrun : run step s as = some t) {before after : List ε}
    (htrace : trace step event s as = before ++ after) :
    ∃ bs cs mid, as = bs ++ cs ∧ run step s bs = some mid ∧
      run step mid cs = some t ∧ trace step event s bs = before ∧
      trace step event mid cs = after := by
  induction as generalizing s before with
  | nil =>
      obtain ⟨rfl, rfl⟩ := List.append_eq_nil_iff.mp htrace.symm
      exact ⟨[], [], s, rfl, rfl, hrun, rfl, rfl⟩
  | cons a as ih =>
      obtain ⟨next, hstep, hrest⟩ := run_cons_eq_some_iff.mp hrun
      cases before with
      | nil => exact ⟨[], a :: as, s, rfl, rfl, hrun, rfl, htrace⟩
      | cons e before =>
          rw [trace_cons hstep] at htrace
          -- The first event is that of `a`, or `a` shows none.
          obtain ⟨rest, hhead, htail⟩ :
              ∃ rest, event s a ++ rest = e :: before ∧
                trace step event next as = rest ++ after := by
            have hcases := hshort s a
            rcases hevent : event s a with _ | ⟨x, _ | ⟨y, l⟩⟩
            · exact ⟨e :: before, rfl, by simpa [hevent] using htrace⟩
            · rw [hevent] at htrace
              obtain ⟨rfl, hrest'⟩ := List.cons.inj htrace
              exact ⟨before, rfl, hrest'⟩
            · simp [hevent] at hcases
          obtain ⟨bs, cs, mid, rfl, hbs, hcs, htbs, htcs⟩ := ih hrest htail
          refine ⟨a :: bs, cs, mid, rfl, ?_, hcs, ?_, htcs⟩
          · exact run_cons_eq_some_iff.mpr ⟨next, hstep, hbs⟩
          · rw [trace_cons hstep, htbs, hhead]

end Trace

section Simulation

variable {step : σ → α → Option σ} {event : σ → α → List ε}
  {step' : τ → β → Option τ} {event' : τ → β → List ε} {R : σ → τ → Prop}

variable (step' event' R) in
/-- From `u` the second machine can show the events, and get to a state that is
related to `s`. -/
def Answers (s : σ) (u : τ) (shown : List ε) : Prop :=
  ∃ bs u', run step' u bs = some u' ∧ R s u' ∧ trace step' event' u bs = shown

/-- It need not do anything. -/
theorem Answers.of_related {s : σ} {u : τ} (hR : R s u) :
    Answers step' event' R s u [] :=
  ⟨[], u, rfl, hR, rfl⟩

/-- It takes one step. -/
theorem Answers.of_step {s : σ} {u u' : τ} {b : β} {shown : List ε}
    (hstep : step' u b = some u') (hevent : event' u b = shown) (hR : R s u') :
    Answers step' event' R s u shown :=
  ⟨[b], u', run_singleton hstep, hR, (trace_singleton hstep).trans hevent⟩

variable (step event step' event' R) in
/-- A forward simulation: from related states, each step of the first machine
is answered by the second one. -/
def Simulates : Prop :=
  ∀ s u a s', R s u → step s a = some s' →
    Answers step' event' R s' u (event s a)

/-- Under a forward simulation every run is matched by one with the same
history. -/
theorem Simulates.run (h : Simulates step event step' event' R)
    {s s' : σ} {u : τ} {as : List α} (hR : R s u)
    (hrun : Support.run step s as = some s') :
    Answers step' event' R s' u (trace step event s as) := by
  induction as generalizing s u with
  | nil =>
      have heq : s = s' := by simpa using hrun
      exact .of_related (heq ▸ hR)
  | cons a as ih =>
      obtain ⟨next, hstep, hrest⟩ := run_cons_eq_some_iff.mp hrun
      obtain ⟨bs, v, hbs, hRv, htbs⟩ := h s u a next hR hstep
      obtain ⟨cs, w, hcs, hRw, htcs⟩ := ih hRv hrest
      refine ⟨bs ++ cs, w, run_append hbs hcs, hRw, ?_⟩
      rw [trace_append hbs, trace_cons hstep, htbs, htcs]

end Simulation

end EventServer.Support
