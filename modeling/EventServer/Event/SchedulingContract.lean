import EventServer.Event.CallbackLoop

/-!
# The contract of scheduling

What the documentation of `SchedulableCallback` promises, over all runs of a
loop with any number of callbacks.
-/

namespace EventServer.Event

open EventServer.Support

namespace CallbackLoop

variable {ι : Type}

/-! ## The work list and the iterations -/

/-- The callback is in the work list, behind so few others that at most `bound`
callbacks have run when its turn comes. -/
def Queued (s : CallbackLoop ι) (c : ι) (bound : ℕ) : Prop :=
  s.phase ≠ .before ∧ ∃ front a back,
    s.workList = front ++ a :: back ∧ a.callback = c ∧
      s.ran.length + front.length ≤ bound

theorem Queued.mem {s : CallbackLoop ι} {c : ι} {bound : ℕ}
    (h : s.Queued c bound) : c ∈ s.workList.map Arming.callback := by
  obtain ⟨-, front, a, back, hlist, rfl, -⟩ := h
  rw [hlist]
  simp

theorem queued_of_mem {s : CallbackLoop ι} {c : ι} (hphase : s.phase ≠ .before)
    (h : c ∈ s.workList.map Arming.callback) :
    s.Queued c (s.ran.length + s.workList.length - 1) := by
  obtain ⟨a, ha, rfl⟩ := List.mem_map.mp h
  obtain ⟨front, back, hlist⟩ := List.append_of_mem ha
  refine ⟨hphase, front, a, back, hlist, rfl, ?_⟩
  rw [hlist, List.length_append, List.length_cons]
  omega

/-- The iteration that a callback is scheduled for by
`scheduleCallbackCurrentIteration`; before the loop it is the first one. -/
def currentIteration (s : CallbackLoop ι) : ℕ :=
  match s.phase with
  | .before => s.iteration + 1
  | .between | .running _ => s.iteration

theorem currentIteration_of_phase {s : CallbackLoop ι}
    (hphase : s.phase ≠ .before) : s.currentIteration = s.iteration := by
  unfold currentIteration
  split
  · exact absurd ‹_› hphase
  · rfl
  · rfl

variable [DecidableEq ι]

/-! ## The promises -/

/-- How often the callback has run. -/
def runsOf (s : CallbackLoop ι) (c : ι) : ℕ :=
  s.ran.countP fun a => a.callback = c

/-- The action is a call that schedules the callback. -/
def Action.Schedules (c : ι) : Action ι → Prop
  | .scheduleCurrent d | .scheduleNext d => d = c
  | .cancel _ | .startIteration _ | .runFirst | .finish => False

/-- The callback does not run until it is scheduled. -/
def QuietUntilScheduled (s : CallbackLoop ι) (c : ι) : Prop :=
  ∀ actions t, run step s actions = some t →
    (∀ action ∈ actions, ¬ action.Schedules c) → t.runsOf c = s.runsOf c

/-- Unless the callback is cancelled, the current iteration goes on until it
has run, with the callback in the work list as soon as the loop has begun. -/
def RunsInCurrentIteration (s : CallbackLoop ι) (c : ι) : Prop :=
  ∀ actions t, run step s actions = some t →
    (∀ action ∈ actions, action ≠ .cancel c) → t.runsOf c = s.runsOf c →
    t.currentIteration = s.currentIteration ∧
      (t.phase = .before ∨ c ∈ t.workList.map Arming.callback)

/-- Unless it is cancelled, a callback of the work list runs after fewer other
callbacks than the list is long. -/
def RunsInTurn (s : CallbackLoop ι) (c : ι) : Prop :=
  ∀ actions t, run step s actions = some t →
    (∀ action ∈ actions, action ≠ .cancel c) → t.runsOf c = s.runsOf c →
    t.ran.length < s.ran.length + s.workList.length

/-! ## After a cancellation -/

theorem quiet_step {s t : CallbackLoop ι} {action : Action ι} {c : ι}
    (hs : Inv s) (hidle : (s.callbacks c).enabled = false)
    (haction : ¬ action.Schedules c) (hstep : step s action = some t) :
    (t.callbacks c).enabled = false ∧ t.runsOf c = s.runsOf c := by
  rcases step_cases hstep with ⟨d, rfl, -, rfl⟩ | ⟨d, rfl, -, rfl⟩ |
    ⟨d, -, -, rfl⟩ | ⟨order, -, -, -, rfl⟩ |
    ⟨a, rest, cb, -, -, hlist, -, rfl⟩ | ⟨d, -, -, rfl⟩
  · have hne : c ≠ d := fun h => haction h.symm
    unfold scheduleCallbackCurrentIteration
    split
    · exact ⟨hidle, rfl⟩
    · exact ⟨by simpa [Function.update_of_ne hne] using hidle, rfl⟩
  · have hne : c ≠ d := fun h => haction h.symm
    unfold scheduleCallbackNextIteration
    split
    · exact ⟨hidle, rfl⟩
    · exact ⟨by simpa [Function.update_of_ne hne] using hidle, rfl⟩
  · refine ⟨?_, rfl⟩
    unfold cancel
    by_cases hc : c = d
    · subst hc
      simp
    · simpa [Function.update_of_ne hc] using hidle
  · refine ⟨?_, rfl⟩
    have hexpire : (s.callbacks c).expire = none := by
      cases h : (s.callbacks c).expire with
      | none => rfl
      | some next =>
          have := (SchedulableCallbackImpl.expire_enabled h).1
          rw [hidle] at this
          cases this
    simpa [hexpire] using hidle
  · have hnot := (hs.idle_iff c).mp hidle
    have hne : c ≠ a.callback := by
      rintro rfl
      apply hnot
      rw [hlist]
      simp
    refine ⟨by simpa [Function.update_of_ne hne] using hidle, ?_⟩
    simp [runsOf, List.countP_append, hne.symm]
  · exact ⟨hidle, rfl⟩

/-- An idle callback stays idle until it is scheduled. -/
theorem quiet_of_idle {s : CallbackLoop ι} {c : ι} (hs : Inv s)
    (hidle : (s.callbacks c).enabled = false) : s.QuietUntilScheduled c := by
  intro actions t hrun hactions
  induction actions generalizing s with
  | nil =>
      obtain rfl := Option.some.inj hrun
      rfl
  | cons action actions ih =>
      obtain ⟨next, hstep, hrest⟩ := run_cons_eq_some_iff.mp hrun
      obtain ⟨hnext, hruns⟩ :=
        quiet_step hs hidle (hactions action List.mem_cons_self) hstep
      rw [ih (inv_step s action next hs hstep) hnext hrest
        fun a ha => hactions a (List.mem_cons_of_mem _ ha)]
      exact hruns

/-! ## While the callback waits -/

theorem queued_step {s t : CallbackLoop ι} {action : Action ι} {c : ι}
    {bound : ℕ} (h : s.Queued c bound) (haction : action ≠ .cancel c)
    (hstep : step s action = some t) :
    s.runsOf c < t.runsOf c ∨
      (t.Queued c bound ∧ t.iteration = s.iteration ∧
        t.runsOf c = s.runsOf c) := by
  obtain ⟨hphase, front, a, back, hlist, hcallback, hbound⟩ := h
  rcases step_cases hstep with ⟨d, -, -, rfl⟩ | ⟨d, -, -, rfl⟩ |
    ⟨d, rfl, -, rfl⟩ | ⟨order, -, hbegin, -, rfl⟩ |
    ⟨b, rest, cb, -, -, hfirst, -, rfl⟩ | ⟨d, -, -, rfl⟩
  · refine Or.inr ?_
    unfold scheduleCallbackCurrentIteration
    split
    · exact ⟨⟨hphase, front, a, back, hlist, hcallback, hbound⟩, rfl, rfl⟩
    · refine ⟨⟨hphase, front, a, back ++ [s.newArming d .current], ?_,
        hcallback, hbound⟩, rfl, rfl⟩
      rw [hlist]
      simp
  · refine Or.inr ?_
    unfold scheduleCallbackNextIteration
    split
    · exact ⟨⟨hphase, front, a, back, hlist, hcallback, hbound⟩, rfl, rfl⟩
    · exact ⟨⟨hphase, front, a, back, hlist, hcallback, hbound⟩, rfl, rfl⟩
  · have hne : a.callback ≠ d := by
      rintro rfl
      exact haction (by rw [hcallback])
    refine Or.inr ⟨⟨hphase, front.filter fun b => b.callback ≠ d, a,
      back.filter fun b => b.callback ≠ d, ?_, hcallback, ?_⟩, rfl, rfl⟩
    · simp [cancel, hlist, hne]
    · have hfilter := List.length_filter_le
        (fun b => decide (b.callback ≠ d)) front
      simp only [cancel]
      omega
  · rcases hbegin with hbefore | ⟨-, hempty⟩
    · exact absurd hbefore hphase
    · rw [hempty] at hlist
      simp at hlist
  · by_cases hown : b.callback = c
    · refine Or.inl ?_
      simp [runsOf, List.countP_append, hown]
    · rw [hlist] at hfirst
      cases front with
      | nil =>
          obtain ⟨rfl, -⟩ := List.cons.inj hfirst
          exact absurd hcallback hown
      | cons x front =>
          obtain ⟨rfl, hrest⟩ := List.cons.inj hfirst
          refine Or.inr ⟨⟨by simp, front, a, back, hrest.symm, hcallback, ?_⟩,
            rfl, ?_⟩
          · simp only [List.length_append, List.length_cons,
              List.length_nil] at hbound ⊢
            omega
          · simp [runsOf, List.countP_append, hown]
  · exact Or.inr ⟨⟨by simp, front, a, back, hlist, hcallback, hbound⟩, rfl,
      rfl⟩

theorem runsOf_le_step {s t : CallbackLoop ι} {action : Action ι}
    (hstep : step s action = some t) (c : ι) : s.runsOf c ≤ t.runsOf c := by
  rcases step_cases hstep with ⟨d, -, -, rfl⟩ | ⟨d, -, -, rfl⟩ |
    ⟨d, -, -, rfl⟩ | ⟨order, -, -, -, rfl⟩ |
    ⟨b, rest, cb, -, -, -, -, rfl⟩ | ⟨d, -, -, rfl⟩
  · unfold scheduleCallbackCurrentIteration
    split
    · exact le_refl _
    · exact le_refl _
  · unfold scheduleCallbackNextIteration
    split
    · exact le_refl _
    · exact le_refl _
  · exact le_refl _
  · exact le_refl _
  · simp [runsOf, List.countP_append]
  · exact le_refl _

theorem runsOf_le_run {s t : CallbackLoop ι} {actions : List (Action ι)}
    (hrun : run step s actions = some t) (c : ι) :
    s.runsOf c ≤ t.runsOf c :=
  run_invariant (I := fun u => s.runsOf c ≤ u.runsOf c)
    (fun _ _ _ h hstep => h.trans (runsOf_le_step hstep c)) (le_refl _) hrun

theorem queued_run {s t : CallbackLoop ι} {actions : List (Action ι)} {c : ι}
    {bound : ℕ} (h : s.Queued c bound)
    (hactions : ∀ action ∈ actions, action ≠ .cancel c)
    (hrun : run step s actions = some t) (hruns : t.runsOf c = s.runsOf c) :
    t.Queued c bound ∧ t.iteration = s.iteration := by
  induction actions generalizing s with
  | nil =>
      obtain rfl := Option.some.inj hrun
      exact ⟨h, rfl⟩
  | cons action actions ih =>
      obtain ⟨next, hstep, hrest⟩ := run_cons_eq_some_iff.mp hrun
      have hle := runsOf_le_run hrest c
      rcases queued_step h (hactions action List.mem_cons_self) hstep with
        hran | ⟨hnext, hiteration, hsame⟩
      · omega
      · obtain ⟨hqueued, hlast⟩ := ih hnext
          (fun a ha => hactions a (List.mem_cons_of_mem _ ha)) hrest
          (hruns.trans hsame.symm)
        exact ⟨hqueued, hlast.trans hiteration⟩

/-- What is in the work list runs in the current iteration. -/
theorem runsInCurrentIteration_of_queued {s : CallbackLoop ι} {c : ι}
    {bound : ℕ} (h : s.Queued c bound) : s.RunsInCurrentIteration c := by
  intro actions t hrun hactions hruns
  obtain ⟨hqueued, hiteration⟩ := queued_run h hactions hrun hruns
  refine ⟨?_, Or.inr hqueued.mem⟩
  rw [currentIteration_of_phase hqueued.1, currentIteration_of_phase h.1,
    hiteration]

theorem runsInTurn_of_mem {s : CallbackLoop ι} {c : ι}
    (hphase : s.phase ≠ .before)
    (h : c ∈ s.workList.map Arming.callback) : s.RunsInTurn c := by
  intro actions t hrun hactions hruns
  obtain ⟨⟨-, front, a, back, -, -, hbound⟩, -⟩ :=
    queued_run (queued_of_mem hphase h) hactions hrun hruns
  have hpos : 0 < s.workList.length := by
    rw [← List.length_map Arming.callback]
    exact List.length_pos_of_mem h
  omega

/-! ## Before the loop -/

theorem before_step {s t : CallbackLoop ι} {action : Action ι} {c : ι}
    (hs : Inv s) (hphase : s.phase = .before)
    (henabled : (s.callbacks c).enabled = true) (haction : action ≠ .cancel c)
    (hstep : step s action = some t) :
    t.runsOf c = s.runsOf c ∧ t.currentIteration = s.currentIteration ∧
      ((t.phase = .before ∧ (t.callbacks c).enabled = true) ∨
        (t.phase ≠ .before ∧ c ∈ t.workList.map Arming.callback)) := by
  rcases step_cases hstep with ⟨d, -, -, rfl⟩ | ⟨d, -, -, rfl⟩ |
    ⟨d, rfl, -, rfl⟩ | ⟨order, -, -, horder, rfl⟩ |
    ⟨b, rest, cb, -, hbetween, -, -, rfl⟩ | ⟨d, -, hrunning, rfl⟩
  · unfold scheduleCallbackCurrentIteration
    split
    · exact ⟨rfl, rfl, Or.inl ⟨hphase, henabled⟩⟩
    · refine ⟨rfl, rfl, Or.inl ⟨hphase, ?_⟩⟩
      by_cases hd : c = d
      · subst hd
        simp
      · simpa [Function.update_of_ne hd] using henabled
  · unfold scheduleCallbackNextIteration
    split
    · exact ⟨rfl, rfl, Or.inl ⟨hphase, henabled⟩⟩
    · refine ⟨rfl, rfl, Or.inl ⟨hphase, ?_⟩⟩
      by_cases hd : c = d
      · subst hd
        simp
      · simpa [Function.update_of_ne hd] using henabled
  · have hne : c ≠ d := by
      rintro rfl
      exact haction rfl
    refine ⟨rfl, rfl, Or.inl ⟨hphase, ?_⟩⟩
    simpa [cancel, Function.update_of_ne hne] using henabled
  · refine ⟨rfl, ?_, Or.inr ⟨by simp, ?_⟩⟩
    · simp [currentIteration, hphase]
    · have hqueue : (s.workList ++ order).Perm (s.workList ++ s.timers) :=
        List.Perm.append_left _ horder
      rw [(hqueue.map Arming.callback).mem_iff]
      by_contra hnot
      rw [(hs.idle_iff c).mpr hnot] at henabled
      cases henabled
  · rw [hphase] at hbetween
    cases hbetween
  · rw [hphase] at hrunning
    cases hrunning

/-- What is pending before the loop runs in the first iteration. -/
theorem runsInCurrentIteration_of_before {s : CallbackLoop ι} {c : ι}
    (hs : Inv s) (hphase : s.phase = .before)
    (henabled : (s.callbacks c).enabled = true) :
    s.RunsInCurrentIteration c := by
  intro actions t hrun hactions hruns
  induction actions generalizing s with
  | nil =>
      obtain rfl := Option.some.inj hrun
      exact ⟨rfl, Or.inl hphase⟩
  | cons action actions ih =>
      obtain ⟨next, hstep, hrest⟩ := run_cons_eq_some_iff.mp hrun
      have htail : ∀ a ∈ actions, a ≠ .cancel c := fun a ha =>
        hactions a (List.mem_cons_of_mem _ ha)
      obtain ⟨hsame, hcurrent, hnext⟩ := before_step hs hphase henabled
        (hactions action List.mem_cons_self) hstep
      rw [← hcurrent]
      rw [← hsame] at hruns
      rcases hnext with ⟨hbefore, hpending⟩ | ⟨hloop, hmem⟩
      · exact ih (inv_step s action next hs hstep) hbefore hpending hrest
          htail hruns
      · exact runsInCurrentIteration_of_queued (queued_of_mem hloop hmem)
          actions t hrest htail hruns

/-! ## Callbacks that wait for the next iteration -/

/-- The first callback of the work list runs without scheduling anything. -/
theorem exists_firstRuns {s : CallbackLoop ι} (hs : Inv s)
    (hphase : s.phase = .between) {a : Arming ι} {rest : List (Arming ι)}
    (hlist : s.workList = a :: rest) :
    ∃ t, run step s [.runFirst, .finish] = some t ∧ t.phase = .between ∧
      t.workList = rest ∧ t.timers = s.timers ∧ t.iteration = s.iteration ∧
      ∀ c ≠ a.callback, t.runsOf c = s.runsOf c := by
  have hactive : (s.callbacks a.callback).raw_event_ = .active := by
    rw [hs.active_iff, hlist]
    simp
  refine ⟨{ s with
    callbacks := Function.update s.callbacks a.callback ⟨.idle⟩
    workList := rest
    phase := .between
    ran := s.ran ++ [a] }, ?_, rfl, rfl, rfl, rfl, ?_⟩
  · simp [run, step, runFirst, finish, hphase, hlist,
      SchedulableCallbackImpl.dequeue, hactive]
  · intro c hc
    simp [runsOf, List.countP_append, hc.symm]

/-- The other callbacks can run without scheduling anything. -/
theorem exists_drain {s : CallbackLoop ι} (hs : Inv s)
    (hphase : s.phase = .between) :
    ∃ actions t, run step s actions = some t ∧
      (∀ action ∈ actions, action = .runFirst ∨ action = .finish) ∧
      t.phase = .between ∧ t.workList = [] ∧ t.timers = s.timers ∧
      t.iteration = s.iteration ∧
      ∀ c ∉ s.workList.map Arming.callback, t.runsOf c = s.runsOf c := by
  generalize hlist : s.workList = list
  induction list generalizing s with
  | nil => exact ⟨[], s, rfl, by simp, hphase, hlist, rfl, rfl, by simp⟩
  | cons a rest ih =>
      obtain ⟨next, hfirst, hnext, hrest, hnextTimers, hnextIteration, hsame⟩ :=
        exists_firstRuns hs hphase hlist
      obtain ⟨actions, t, hrun, honly, hbetween, hempty, htimers, hiteration,
        hruns⟩ := ih (run_invariant inv_step hs hfirst) hnext hrest
      refine ⟨[.runFirst, .finish] ++ actions, t, run_append hfirst hrun, ?_,
        hbetween, hempty, htimers.trans hnextTimers,
        hiteration.trans hnextIteration, ?_⟩
      · intro action haction
        rcases List.mem_append.mp haction with haction | haction
        · simpa using haction
        · exact honly action haction
      · intro c hc
        rw [List.map_cons, List.mem_cons, not_or] at hc
        rw [hruns c hc.2, hsame c hc.1]

/-- Once the work list is empty the next iteration can start. -/
theorem exists_nextIteration {s : CallbackLoop ι} (hphase : s.phase = .between)
    (hempty : s.workList = []) :
    ∃ t, step s (.startIteration s.timers) = some t ∧ t.phase = .between ∧
      t.iteration = s.iteration + 1 ∧ ∀ c, t.runsOf c = s.runsOf c := by
  simp [step, startIteration, hphase, hempty, runsOf]

/-- A callback that waits for the next iteration does not have to run in the
current one. -/
theorem not_runsInCurrentIteration_of_timed {s : CallbackLoop ι} {c d : ι}
    (hs : Inv s) (hphase : s.phase = .running d)
    (htimed : (s.callbacks c).raw_event_ = .timed) :
    ¬ s.RunsInCurrentIteration c := by
  intro hruns
  have hreturned : step s .finish = some { s with phase := .between } := by
    simp [step, finish, hphase]
  have hnot : c ∉ s.workList.map Arming.callback := by
    rw [← hs.active_iff, htimed]
    decide
  obtain ⟨actions, t, hrun, honly, hbetween, hempty, -, hiteration, hsame⟩ :=
    exists_drain (inv_step _ _ _ hs hreturned) rfl
  obtain ⟨next, hnext, hnextPhase, hnextIteration, hnextRuns⟩ :=
    exists_nextIteration hbetween hempty
  have hall : run step s (.finish :: (actions ++ [.startIteration t.timers])) =
      some next := by
    refine run_cons_eq_some_iff.mpr ⟨_, hreturned, ?_⟩
    exact run_append hrun (run_cons_eq_some_iff.mpr ⟨next, hnext, rfl⟩)
  have hcancel : ∀ action ∈ .finish :: (actions ++ [.startIteration t.timers]),
      action ≠ .cancel c := by
    intro action haction
    rcases List.mem_cons.mp haction with rfl | haction
    · simp
    rcases List.mem_append.mp haction with haction | haction
    · rcases honly action haction with rfl | rfl
      · simp
      · simp
    · rw [List.mem_singleton.mp haction]
      simp
  have hlate := (hruns _ next hall hcancel
    ((hnextRuns c).trans (hsame c hnot))).1
  have hnow : s.currentIteration = s.iteration :=
    currentIteration_of_phase (by simp [hphase])
  have hthen : next.currentIteration = s.iteration + 1 := by
    rw [currentIteration_of_phase (by simp [hnextPhase]), hnextIteration]
    exact congrArg (· + 1) hiteration
  omega

/-! ## The contract -/

/-- The callback is armed for the next iteration while the current one is in
progress. -/
def WaitsForNext (s : CallbackLoop ι) (c : ι) : Prop :=
  s.phase ≠ .before ∧ (s.callbacks c).raw_event_ = .timed

theorem scheduleCurrent_runs_iff {s : CallbackLoop ι} {c : ι} (hs : Inv s)
    (hcode : s.phase.RunsUserCode) :
    (s.scheduleCallbackCurrentIteration c).RunsInCurrentIteration c ↔
      ¬ s.WaitsForNext c := by
  have hscheduled := hs.scheduleCurrent c
  by_cases hphase : s.phase = .before
  · have henabled : ((s.scheduleCallbackCurrentIteration c).callbacks c).enabled
        = true := by
      unfold scheduleCallbackCurrentIteration
      split
      · assumption
      · simp
    have hbefore : (s.scheduleCallbackCurrentIteration c).phase = .before := by
      unfold scheduleCallbackCurrentIteration
      split
      · exact hphase
      · exact hphase
    exact iff_of_true
      (runsInCurrentIteration_of_before hscheduled hbefore henabled)
      fun h => h.1 hphase
  obtain ⟨d, hrunning⟩ : ∃ d, s.phase = .running d := by
    cases h : s.phase with
    | before => exact absurd h hphase
    | between =>
        rw [h] at hcode
        cases hcode
    | running d => exact ⟨d, rfl⟩
  by_cases htimed : (s.callbacks c).raw_event_ = .timed
  · have hsame : s.scheduleCallbackCurrentIteration c = s := by
      simp [scheduleCallbackCurrentIteration, SchedulableCallbackImpl.enabled,
        htimed]
    rw [hsame]
    exact iff_of_false (not_runsInCurrentIteration_of_timed hs hrunning htimed)
      fun h => h ⟨hphase, htimed⟩
  · have hnext : (s.scheduleCallbackCurrentIteration c).phase ≠ .before := by
      unfold scheduleCallbackCurrentIteration
      split
      · exact hphase
      · exact hphase
    have hmem : c ∈ (s.scheduleCallbackCurrentIteration c).workList.map
        Arming.callback := by
      rw [← hscheduled.active_iff]
      unfold scheduleCallbackCurrentIteration SchedulableCallbackImpl.enabled
      cases hraw : (s.callbacks c).raw_event_ with
      | idle => simp [SchedulableCallbackImpl.eventActive]
      | timed => exact absurd hraw htimed
      | active => simp [hraw]
    exact iff_of_true
      (runsInCurrentIteration_of_queued (queued_of_mem hnext hmem))
      fun h => htimed h.2

/-- In every run nothing is queued twice, every arming runs at most once, and
armings for the current iteration run in order and before those that were made
in the same iteration for the next one.  A cancelled callback is quiet until it
is scheduled, and what is in the work list runs in its turn.  Scheduling a
callback for the current iteration makes it run in that iteration, unless it
waits for the next one already. -/
theorem scheduling_contract {actions : List (Action ι)} {s : CallbackLoop ι}
    (hrun : run step create actions = some s) :
    ((s.workList ++ s.timers).map Arming.callback).Nodup ∧
      (s.ran.Subperm s.armed ∧ s.armed.Nodup) ∧
      (s.ran.Pairwise fun a b => ¬ Precedes b a) ∧
      (∀ c t, step s (.cancel c) = some t → t.QuietUntilScheduled c) ∧
      (s.phase ≠ .before →
        ∀ c ∈ s.workList.map Arming.callback, s.RunsInTurn c) ∧
      ∀ c t, step s (.scheduleCurrent c) = some t →
        (t.RunsInCurrentIteration c ↔ ¬ s.WaitsForNext c) := by
  have hs := inv_of_run hrun
  refine ⟨hs.nodup, ⟨?_, hs.armed_nodup⟩, ?_, ?_, ?_, ?_⟩
  · exact (List.sublist_append_left _ _).subperm.trans hs.subperm
  · exact hs.ordered.sublist (List.sublist_append_left _ _)
  · intro c t hstep
    simp only [step, Option.ite_none_right_eq_some, Option.some.injEq] at hstep
    obtain ⟨-, rfl⟩ := hstep
    exact quiet_of_idle (hs.cancel c) (by simp [cancel])
  · exact fun hphase c hmem => runsInTurn_of_mem hphase hmem
  · intro c t hstep
    simp only [step, Option.ite_none_right_eq_some, Option.some.injEq] at hstep
    obtain ⟨hcode, rfl⟩ := hstep
    exact scheduleCurrent_runs_iff hs hcode

/-- Inside callback 0, callback 1 is scheduled for the next iteration. -/
def nextInsideCallback : List (Action ℕ) :=
  [.scheduleCurrent 0, .startIteration [], .runFirst, .scheduleNext 1]

theorem scheduling_contract_nextInsideCallback :
    ∃ s : CallbackLoop ℕ, run step create nextInsideCallback = some s ∧
      ∀ t, step s (.scheduleCurrent 0) = some t →
        t.RunsInCurrentIteration 0 := by
  obtain ⟨s, hrun, hidle⟩ : ∃ s : CallbackLoop ℕ,
      run step create nextInsideCallback = some s ∧
        (s.callbacks 0).raw_event_ = .idle :=
    exists_run_of_eval (by decide +kernel)
  refine ⟨s, hrun, fun t hstep => ?_⟩
  obtain ⟨-, -, -, -, -, hcurrent⟩ := scheduling_contract hrun
  refine (hcurrent 0 t hstep).mpr fun h => ?_
  have htimed := h.2
  rw [hidle] at htimed
  exact absurd htimed (by decide)

/-- If callback 1 is then scheduled for the current iteration, it does not have
to run in it. -/
theorem nextInsideCallback_not_current :
    ∃ s t : CallbackLoop ℕ, run step create nextInsideCallback = some s ∧
      step s (.scheduleCurrent 1) = some t ∧
      ¬ t.RunsInCurrentIteration 1 := by
  obtain ⟨s, hrun, hphase, htimed⟩ : ∃ s : CallbackLoop ℕ,
      run step create nextInsideCallback = some s ∧
        s.phase = .running 0 ∧ (s.callbacks 1).raw_event_ = .timed :=
    exists_run_of_eval (by decide +kernel)
  have hsame : step s (.scheduleCurrent 1) = some s := by
    simp [step, hphase, LoopPhase.RunsUserCode,
      scheduleCallbackCurrentIteration, SchedulableCallbackImpl.enabled, htimed]
  exact ⟨s, s, hrun, hsame,
    not_runsInCurrentIteration_of_timed (inv_of_run hrun) hphase htimed⟩

end CallbackLoop

end EventServer.Event
