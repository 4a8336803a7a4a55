import EventServer.Support.Run
import EventServer.Network.TcpServerSteps

/-!
# Which threads touch the bookkeeping of the server

`nextConnId_` and `connections_` are declared as only used in the loop thread
of the server.  The close callback of a connection is nevertheless called on
the thread of its io loop, and `removeConnection` does not hand the work over.
Every end of file therefore breaks the confinement, and nothing else does.
-/

namespace EventServer.Network

open EventServer.Support

namespace TcpServer

/-- The acceptor is between the two halves of its insertion. -/
def Inserting (s : TcpServer) : Prop := ∃ c, s.acceptorPc = .assigning c

/-- The loop is between the two halves of a removal. -/
def Removing (s : TcpServer) (l : ℕ) : Prop :=
  ∃ c temp, s.loopPc l = .removing c temp

/-- Only the thread of the server's dispatcher has touched the bookkeeping, and
no insertion overlaps a removal. -/
structure Confined (s : TcpServer) : Prop where
  only_acceptor : ∀ a ∈ s.accesses, a.thread = .acceptor
  exclusive : ∀ l, ¬ (s.Inserting ∧ s.Removing l)

/-- The action delivers an end of file. -/
def Action.IsEof : Action → Prop
  | .readable _ _ result _ => result = .stored []
  | _ => False

instance : DecidablePred Action.IsEof
  | .readable _ _ result _ => inferInstanceAs (Decidable (result = .stored []))
  | .newConnection | .obtainSlot | .assignSlot | .runTask _
  | .finishRemove _ => isFalse id

/-- A removal has already touched the map from the thread of its loop. -/
def RemovalsLogged (s : TcpServer) : Prop :=
  ∀ l, s.Removing l → ⟨.io l, .connections_⟩ ∈ s.accesses

theorem RemovalsLogged.not_removing {s : TcpServer} (hlogged : s.RemovalsLogged)
    (hconfined : s.Confined) (l : ℕ) : ¬ s.Removing l := by
  intro hremoving
  have hacceptor := hconfined.only_acceptor _ (hlogged l hremoving)
  cases hacceptor

/-! ## One step -/

/-- What a step adds to the log of accesses, and what it does to the loops.
Without an end of file no loop begins a removal, and only a removal in
progress accesses the map from another thread. -/
theorem step_accesses {s t : TcpServer} {a : Action}
    (hstep : step s a = some t) :
    (∃ l c temp, a.IsEof ∧
        t.accesses = s.accesses ++ [⟨.io l, .connections_⟩] ∧
        t.loopPc = Function.update s.loopPc l (.removing c temp)) ∨
    (∃ l, ¬ a.IsEof ∧ s.Removing l ∧
        t.accesses = s.accesses ++ [⟨.io l, .connections_⟩] ∧
        t.loopPc = Function.update s.loopPc l .idle) ∨
    (∃ added, ¬ a.IsEof ∧ t.accesses = s.accesses ++ added ∧
        (∀ access ∈ added, access.thread = .acceptor) ∧
        t.loopPc = s.loopPc) := by
  cases a with
  | newConnection =>
      rw [step] at hstep
      obtain ⟨-, ioLoop, pool, -, rfl⟩ := newConnection_cases hstep
      refine Or.inr (Or.inr ⟨[⟨.acceptor, .nextConnId_⟩,
        ⟨.acceptor, .nextConnId_⟩], id, ?_, ?_, rfl⟩)
      · simp [access]
      · simp
  | obtainSlot =>
      obtain ⟨c, conn, -, -, rfl⟩ := obtainSlot_cases hstep
      refine Or.inr (Or.inr ⟨[⟨.acceptor, .connections_⟩], id, ?_, ?_, rfl⟩)
      · simp only [access]
      · simp
  | assignSlot =>
      obtain ⟨c, conn, -, -, rfl⟩ := assignSlot_cases hstep
      refine Or.inr (Or.inr ⟨[⟨.acceptor, .connections_⟩], id, ?_, ?_, rfl⟩)
      · simp only [access]
      · simp
  | runTask l =>
      obtain ⟨c, rest, conn, -, -, -, rfl⟩ := runTask_cases hstep
      exact Or.inr (Or.inr ⟨[], id, by simp, by simp, rfl⟩)
  | readable l c result write =>
      obtain ⟨conn, next, -, -, -, -, hmessage | heof⟩ :=
        readable_cases hstep
      · obtain ⟨hresult, -, rfl⟩ := hmessage
        exact Or.inr (Or.inr ⟨[], hresult, by simp, by simp, rfl⟩)
      · obtain ⟨hresult, -, -, rfl⟩ := heof
        exact Or.inl ⟨l, c, _, hresult, rfl, rfl⟩
  | finishRemove l =>
      obtain ⟨c, temp, conn, hremoving, -, -, rfl⟩ := finishRemove_cases hstep
      exact Or.inr (Or.inl ⟨l, id, ⟨c, some temp, hremoving⟩, rfl, rfl⟩)

theorem removalsLogged_preserved {s t : TcpServer} {a : Action}
    (hlogged : s.RemovalsLogged) (hstep : step s a = some t) :
    t.RemovalsLogged := by
  rintro k ⟨c', temp', hremoving⟩
  have hlogs : ∀ l pc,
      t.accesses = s.accesses ++ [⟨.io l, .connections_⟩] →
      t.loopPc = Function.update s.loopPc l pc →
      ⟨.io k, .connections_⟩ ∈ t.accesses := by
    intro l pc haccesses hloops
    rw [haccesses, List.mem_append]
    by_cases hk : k = l
    · subst hk
      exact Or.inr (List.mem_singleton_self _)
    · rw [hloops, Function.update_of_ne hk] at hremoving
      exact Or.inl (hlogged k ⟨c', temp', hremoving⟩)
  rcases step_accesses hstep with ⟨l, c, temp, -, haccesses, hloops⟩ |
    ⟨l, -, -, haccesses, hloops⟩ | ⟨added, -, haccesses, -, hloops⟩
  · exact hlogs l _ haccesses hloops
  · exact hlogs l _ haccesses hloops
  · rw [haccesses, List.mem_append]
    rw [hloops] at hremoving
    exact Or.inl (hlogged k ⟨c', temp', hremoving⟩)

/-- A step keeps the bookkeeping confined exactly when it delivers no end of
file. -/
theorem confined_next_iff {s t : TcpServer} {a : Action}
    (hlogged : s.RemovalsLogged) (hconfined : s.Confined)
    (hstep : step s a = some t) : t.Confined ↔ ¬ a.IsEof := by
  rcases step_accesses hstep with ⟨l, c, temp, heof, haccesses, -⟩ |
    ⟨l, -, hremoving, -, -⟩ | ⟨added, heof, haccesses, hadded, hloops⟩
  · constructor
    · intro hnext
      have hio : (⟨.io l, .connections_⟩ : Access) ∈ t.accesses := by
        rw [haccesses]
        exact List.mem_append_right _ (List.mem_singleton_self _)
      cases hnext.only_acceptor _ hio
    · intro hno
      exact absurd heof hno
  · exact absurd hremoving (hlogged.not_removing hconfined l)
  · constructor
    · intro _
      exact heof
    · intro _
      constructor
      · intro access haccess
        rw [haccesses, List.mem_append] at haccess
        rcases haccess with hold | hnew
        · exact hconfined.only_acceptor access hold
        · exact hadded access hnew
      · rintro l ⟨-, c, temp, hremoving⟩
        rw [hloops] at hremoving
        exact hlogged.not_removing hconfined l ⟨c, temp, hremoving⟩

/-! ## Runs -/

/-- The bookkeeping of a new server stays confined along a run exactly when
the run delivers no end of file to any connection. -/
theorem confined_always_iff_no_eof (listenAddr : InetAddress)
    (nameArg : List Char) (threadNum : ℕ) (actions : List Action)
    (last : TcpServer)
    (hrun : run step (create listenAddr nameArg threadNum) actions =
      some last) :
    Always step Confined (create listenAddr nameArg threadNum) actions ↔
      ∀ a ∈ actions, ¬ a.IsEof := by
  have hlogged : (create listenAddr nameArg threadNum).RemovalsLogged := by
    rintro l ⟨c, temp, hremoving⟩
    cases hremoving
  have hconfined : (create listenAddr nameArg threadNum).Confined := by
    constructor
    · intro access haccess
      cases haccess
    · rintro l ⟨-, c, temp, hremoving⟩
      cases hremoving
  rw [← guarded_iff_forall hrun]
  exact always_iff_guarded
    (fun _ _ _ hlogged hstep => removalsLogged_preserved hlogged hstep)
    (fun _ _ _ hlogged hconfined hstep =>
      confined_next_iff hlogged hconfined hstep)
    hlogged hconfined hrun

/-- One connection is accepted, becomes readable and sends a message. -/
def messageRun : List Action :=
  [.newConnection, .obtainSlot, .runTask 0, .assignSlot,
    .readable 0 0 (.stored [104, 105]) (.wrote 2)]

theorem confined_always_of_message_run :
    (Always step Confined (create .any [] 1) messageRun ↔
      ∀ a ∈ messageRun, ¬ a.IsEof) ∧ ∀ a ∈ messageRun, ¬ a.IsEof := by
  have hsome :
      (run step (create .any [] 1) messageRun).isSome = true := by
    decide +kernel
  obtain ⟨last, hrun⟩ := Option.isSome_iff_exists.mp hsome
  constructor
  · exact confined_always_iff_no_eof .any [] 1 messageRun last hrun
  · decide

/-- The first connection reaches its end of file while the acceptor is about
to assign the second one to its slot: the map is in use on two threads. -/
theorem removal_overlaps_insertion :
    ∃ last, run step (create .any [] 1)
        [.newConnection, .obtainSlot, .assignSlot, .runTask 0,
          .newConnection, .obtainSlot,
          .readable 0 0 (.stored []) (.wrote 0)] = some last ∧
      (last.Inserting ∧ last.Removing 0) ∧
      ⟨.io 0, .connections_⟩ ∈ last.accesses ∧ ¬ last.Confined := by
  suffices hrun : ∃ last, run step (create .any [] 1)
      [.newConnection, .obtainSlot, .assignSlot, .runTask 0,
        .newConnection, .obtainSlot,
        .readable 0 0 (.stored []) (.wrote 0)] = some last ∧
      last.acceptorPc = .assigning 1 ∧
      last.loopPc 0 = .removing 0 (some 0) ∧
      ⟨.io 0, .connections_⟩ ∈ last.accesses by
    obtain ⟨last, hlast, hassigning, hremoving, haccess⟩ := hrun
    have hoverlap : last.Inserting ∧ last.Removing 0 :=
      ⟨⟨1, hassigning⟩, ⟨0, some 0, hremoving⟩⟩
    refine ⟨last, hlast, hoverlap, haccess, ?_⟩
    intro hconfined
    exact hconfined.exclusive 0 hoverlap
  apply exists_run_of_eval
  decide +kernel

end TcpServer

end EventServer.Network
