import EventServer.Network.ConnectionPhases
import EventServer.Network.RegistrySteps

/-!
# Registration and removal of connections

The acceptor posts `connectEstablished` before it stores the connection in
`connections_`.  From then on the io loop may run, and the peer may already
have closed the connection.  If the end of file arrives before the connection
is stored, `removeConnection` does not find it.  If it arrives afterwards,
every removal finds its own connection, erases exactly this entry, and nothing
is inserted for the connection again.
-/

namespace EventServer.Network

open EventServer.Support

namespace TcpServer

theorem create_registry (listenAddr : InetAddress) (nameArg : List Char)
    (threadNum : ℕ) : (create listenAddr nameArg threadNum).Registry := by
  have hunheld : ∀ c, ¬ (create listenAddr nameArg threadNum).Held c := by
    rintro c (hheld | hheld)
    · cases hheld
    · cases hheld
  have hpos : 0 < 2 ^ 31 := by decide
  have hfirst : 1 = wrapInt 1 := by decide
  refine ⟨⟨listenAddr.toIpPort_length_le, hpos, hfirst, ?_⟩,
    ⟨?_, ?_, ?_, ?_, ?_, List.nodup_nil⟩, ⟨?_, ?_, ?_, ?_⟩⟩
  · intro c conn hconn
    cases hconn
  · intro c hheld
    exact absurd hheld (hunheld c)
  · intro l c hc
    cases hc
  · intro l
    exact List.nodup_nil
  · intro l c temp hremoving
    cases hremoving
  · intro c hc
    cases hc
  · intro c hc
    exact absurd hc (Nat.not_lt_zero c)
  · intro key _
    exact AList.lookup_empty key
  · intro k hk
    cases hk
  · intro e he
    cases he

theorem registry_preserved {s t : TcpServer} {a : Action} (h : s.Registry)
    (hcounter : s.CounterInRange a) (hstored : s.StoredFirst a)
    (hstep : step s a = some t) : t.Registry := by
  cases a with
  | newConnection =>
      have hnew : s.newConnection = some t := by rwa [step] at hstep
      exact ⟨(newConnection_numbered h.numbered hcounter hnew).1,
        newConnection_staged h.staged hnew,
        newConnection_mapped h.numbered h.mapped hnew⟩
  | obtainSlot => exact obtainSlot_registry h hstep
  | assignSlot => exact assignSlot_registry h hstep
  | runTask l => exact runTask_registry h hstep
  | readable l c result write =>
      obtain ⟨conn, next, -, hconn, hdispatcher, hsame, hmessage | heof⟩ :=
        readable_cases hstep
      · obtain ⟨-, hstate, rfl⟩ := hmessage
        exact message_registry h hconn hsame hstate
      · obtain ⟨hresult, hstate, hclosed, rfl⟩ := heof
        exact eof_registry h hconn (hstored hresult) hdispatcher hstate
          hsame hclosed
  | finishRemove l => exact finishRemove_registry h hstep

theorem Registry.registered {s : TcpServer} (h : s.Registry)
    (hphased : s.Phased) : s.Registered where
  lookups_found := h.mapped.lookups_found
  erasures_removed := h.mapped.erasures_removed
  erased_nodup := h.staged.erased_nodup
  removal_finishes := fun _ _ _ => h.removal_finishes
  closed_removed := fun _ _ => hphased.closed_removed
  erased_absent := by
    intro c conn hconn hc
    rw [lookup_name h.numbered h.mapped hconn]
    exact entryOf_of_erased h.staged hc
  closed_unheld := by
    intro c conn hconn hclosed hheld
    exact (h.staged.held c hheld).and_of_getElem? hconn hclosed

/-- The removal of a connection that is not yet stored looks for an entry that
is not there. -/
theorem storedFirst_of_registered {s t : TcpServer} {a : Action}
    (h : s.Registry) (hregistered : t.Registered)
    (hstep : step s a = some t) : s.StoredFirst a := by
  cases a with
  | readable l c result write =>
      intro hresult hheld
      obtain ⟨conn, next, -, hconn, -, hsame, hmessage | heof⟩ :=
        readable_cases hstep
      · exact hmessage.1 hresult
      · obtain ⟨-, -, -, rfl⟩ := heof
        have hfound := hregistered.lookups_found
          ⟨c, s.connections_.lookup next.name_⟩
          (List.mem_append_right _ (List.mem_singleton_self _))
        have hentry : s.entryOf c = some (some c) := by
          rw [← lookup_name h.numbered h.mapped hconn, ← hsame.name_eq]
          exact hfound
        rcases hheld with hposted | hassigning
        · simp [entryOf, hposted] at hentry
        · simp [entryOf, hassigning] at hentry
  | newConnection => trivial
  | obtainSlot => trivial
  | assignSlot => trivial
  | runTask l => trivial
  | finishRemove l => trivial

/-- Take a run of a new server in which `nextConnId_` does not overflow.  The
registrations and removals are in order at every moment of the run exactly
when every end of file arrives after its connection is stored. -/
theorem registered_always_iff_stored_first (listenAddr : InetAddress)
    (nameArg : List Char) (threadNum : ℕ) (actions : List Action)
    (last : TcpServer)
    (hcounter : Guarded step CounterInRange
      (create listenAddr nameArg threadNum) actions)
    (hrun : run step (create listenAddr nameArg threadNum) actions =
      some last) :
    Always step Registered (create listenAddr nameArg threadNum) actions ↔
      Guarded step StoredFirst (create listenAddr nameArg threadNum)
        actions := by
  have hcreate := create_registry listenAddr nameArg threadNum
  have hphased := create_phased listenAddr nameArg threadNum
  refine always_iff_guarded_of_guarded (I := fun s => s.Registry ∧ s.Phased)
    (fun _ _ _ h hcounter hstored hstep =>
      ⟨registry_preserved h.1 hcounter hstored hstep,
        phased_preserved h.2 hstep⟩)
    (fun _ _ _ h _ hcounter hstep => ⟨?_, ?_⟩)
    ⟨hcreate, hphased⟩ (hcreate.registered hphased) hcounter hrun
  · intro hregistered
    exact storedFirst_of_registered h.1 hregistered hstep
  · intro hstored
    exact (registry_preserved h.1 hcounter hstored hstep).registered
      (phased_preserved h.2 hstep)

/-- Two connections on two loops, both removed. -/
def removalRun : List Action :=
  [.newConnection, .runTask 0, .obtainSlot, .assignSlot, .newConnection,
    .obtainSlot, .readable 0 0 (.stored []) (.wrote 0), .runTask 1,
    .finishRemove 0, .assignSlot,
    .readable 1 1 (.stored [104]) (.wrote 1),
    .readable 1 1 (.stored []) (.wrote 0), .finishRemove 1]

theorem registered_always_of_removal_run :
    ∃ last, run step (create .any [] 2) removalRun = some last ∧
      (Always step Registered (create .any [] 2) removalRun ↔
        Guarded step StoredFirst (create .any [] 2) removalRun) ∧
      Always step Registered (create .any [] 2) removalRun ∧
      last.erased = [0, 1] ∧ last.connections_.entries = [] := by
  obtain ⟨last, hrun, herased, hentries⟩ :
      ∃ last, run step (create .any [] 2) removalRun = some last ∧
        last.erased = [0, 1] ∧ last.connections_.entries = [] :=
    exists_run_of_eval (by decide +kernel)
  have hiff := registered_always_iff_stored_first .any [] 2 removalRun last
    (by decide +kernel) hrun
  exact ⟨last, hrun, hiff, hiff.mpr (by decide +kernel), herased, hentries⟩

/-- The peer closes before the acceptor stores the connection: the removal
finds nothing, it inserts and reads a null pointer, and the acceptor then
stores the closed connection. -/
theorem removal_before_registration :
    ∃ last, run step (create .any [] 1)
        [.newConnection, .runTask 0, .readable 0 0 (.stored []) (.wrote 0),
          .obtainSlot, .assignSlot] = some last ∧
      last.lookups = [⟨0, none⟩] ∧
      last.loopPc 0 = .removing 0 none ∧ last.finishRemove 0 = none ∧
      (last.conns[0]?).map TcpConnection.state_ = some .kDisconnected ∧
      last.connections_.lookup (last.connName 1) = some (some 0) ∧
      ¬ last.Registered := by
  suffices hrun : ∃ last, run step (create .any [] 1)
      [.newConnection, .runTask 0, .readable 0 0 (.stored []) (.wrote 0),
        .obtainSlot, .assignSlot] = some last ∧
      last.lookups = [⟨0, none⟩] ∧
      last.loopPc 0 = .removing 0 none ∧
      (last.conns[0]?).map TcpConnection.state_ = some .kDisconnected ∧
      last.connections_.lookup (last.connName 1) = some (some 0) by
    obtain ⟨last, hlast, hlookups, hremoving, hstate, hentry⟩ := hrun
    refine ⟨last, hlast, hlookups, hremoving, ?_, hstate, hentry, ?_⟩
    · simp [finishRemove, hremoving]
    · intro hregistered
      have hfound := hregistered.lookups_found ⟨0, none⟩ (by simp [hlookups])
      cases hfound
  apply exists_run_of_eval
  decide +kernel

end TcpServer

end EventServer.Network
