import EventServer.Network.ConnectionLife
import EventServer.Network.Registration
import EventServer.Network.StateAssertions

/-!
# The io loops do not fail

A readable event runs the assertions of `send(Buffer*)` and of `handleClose`,
and `removeConnection` uses the pointer that it has read from the map.  The
read event of a connection stays registered after its end of file, so that
only the disappearance of the last pointer to the connection keeps a second
end of file away from the assertion of `handleClose`.  This is enough exactly
when no end of file arrives before its connection is stored.  Then a
connection also lives exactly as long as it has to.
-/

namespace EventServer.Network

open EventServer.Support

namespace TcpServer

/-- Whatever an io loop finds to do, it does without a failing assertion, a
null pointer or a read of what is not there. -/
structure LoopsGoOn (s : TcpServer) : Prop where
  read : ∀ l c conn result write, s.loopPc l = .idle →
    s.conns[c]? = some conn → conn.dispatcher_ = l →
    conn.readEventPtr_ = true → s.Referenced l c →
    Watched.Possible conn result write → (s.readable l c result write).isSome
  task : ∀ l, s.loopPc l = .idle → s.tasks l ≠ [] → (s.runTask l).isSome
  removal : ∀ l c temp, s.loopPc l = .removing c temp →
    (s.finishRemove l).isSome

/-! ## What an io loop finds -/

/-- The map holds a pointer to a connection only under its name, and only as
long as it has not been erased. -/
theorem not_erased_of_entry {s : TcpServer} (h : s.Mapped) {c : ConnId}
    (hentry : some c ∈ s.connections_.entries.map fun entry => entry.2) :
    c ∉ s.erased := by
  obtain ⟨⟨key, p⟩, hmem, hp⟩ := List.mem_map.mp hentry
  obtain rfl : p = some c := hp
  have hlookup : s.connections_.lookup key = some (some c) :=
    AList.mem_lookup_iff.mpr hmem
  by_cases hkey : ∀ d < s.conns.length, key ≠ s.connName ((d + 1 : ℕ) : ℤ)
  · rw [h.lookup_other key hkey] at hlookup
    cases hlookup
  · push Not at hkey
    obtain ⟨d, hd, rfl⟩ := hkey
    rw [h.lookup_eq d hd, entryOf] at hlookup
    intro herased
    split_ifs at hlookup with hposted hassigning hgone
    · simp at hlookup
    · obtain rfl : d = c := by simpa using hlookup
      exact hgone herased

/-- A connection that its idle loop can read is connected. -/
theorem connected_of_referenced {s : TcpServer} (hregistry : s.Registry)
    (hphased : s.Phased) {c : ConnId} {conn : TcpConnection}
    (hidle : s.loopPc conn.dispatcher_ = .idle)
    (hconn : s.conns[c]? = some conn) (hread : conn.readEventPtr_ = true)
    (hreferenced : s.Referenced conn.dispatcher_ c) :
    conn.state_ = .kConnected := by
  cases hphased c conn hconn with
  | waiting hstate hfalse =>
      exact absurd (hfalse.symm.trans hread) Bool.false_ne_true
  | connected hstate => exact hstate
  | leaving hstate temp hremoving =>
      rw [hidle] at hremoving
      cases hremoving
  | gone hstate herased =>
      have hopen : ∀ P, ConnAt s.conns c P →
          (∀ conn, P conn → conn.state_ ≠ .kDisconnected) → False := by
        intro P hP hexclude
        exact hexclude conn (hP.and_of_getElem? hconn) hstate
      rcases hreferenced with hentry | hposted | hassigning | htask
      · exact absurd herased (not_erased_of_entry hregistry.mapped hentry)
      · exact (hopen _ (hregistry.staged.held c (.inl hposted))
          fun _ h => h).elim
      · exact (hopen _ (hregistry.staged.held c (.inr hassigning))
          fun _ h => h).elim
      · refine (hopen _ (hregistry.staged.task _ c htask) ?_).elim
        rintro conn ⟨-, hconnecting⟩
        simp [hconnecting]

/-- A connected connection handles every answer of the kernel. -/
theorem handleRead_returns {conn : TcpConnection} {result : ReadvResult}
    {write : WriteResult} (hready : conn.EchoReady)
    (hstate : conn.state_ = .kConnected)
    (hpossible : Watched.Possible conn result write) :
    ∃ next closed, conn.handleRead (doMessageDefault write) result =
      .ok (next, closed) := by
  cases result with
  | failed errno =>
      exact ⟨conn, false, TcpConnection.handleRead_failed _ conn errno⟩
  | stored bytes =>
      obtain ⟨input, hread, hfilled, hwrite⟩ :=
        Watched.readFd_possible hready hpossible
      by_cases hempty : bytes = []
      · subst hempty
        let filled := { conn with
          inputBuffer_ := input, socket_ := conn.socket_.deliver [] }
        have hclose : filled.handleClose =
            .ok (filled.setState .kDisconnected) := by
          have hopen : filled.state_ = .kConnected ∨
              filled.state_ = .kDisconnecting := Or.inl hstate
          simp [TcpConnection.handleClose, ensure_of hopen]
        refine ⟨filled.setState .kDisconnected, true, ?_⟩
        simp only [TcpConnection.handleRead, hread, ok_bind]
        exact hclose ▸ rfl
      · obtain ⟨next, hsend, -, -⟩ :=
          Watched.doMessageDefault_returns hfilled hstate hwrite
        have hpos : 0 < (bytes.length : ℤ) := by
          have := List.length_pos_iff.mpr hempty
          omega
        refine ⟨next, false, ?_⟩
        simp only [TcpConnection.handleRead, hread, ok_bind, if_pos hpos,
          ReadvResult.bytes, hsend, pure_eq_ok]

/-- The invariant of the runs in which the io loops do not fail. -/
structure Safe (s : TcpServer) : Prop where
  registry : s.Registry
  phased : s.Phased
  ready : s.EchoReady

theorem Safe.loopsGoOn {s : TcpServer} (h : s.Safe) : s.LoopsGoOn where
  read := by
    rintro l c conn result write hidle hconn rfl hread hreferenced hpossible
    have hstate := connected_of_referenced h.registry h.phased hidle hconn
      hread hreferenced
    have hready := h.ready conn (List.mem_of_getElem? hconn)
    obtain ⟨next, closed, hnext⟩ := handleRead_returns hready hstate hpossible
    cases closed
    all_goals simp [readable, hidle, hconn, hread, hreferenced, hnext]
  task := by
    intro l hidle htasks
    obtain ⟨c, rest, hhead⟩ := List.exists_cons_of_ne_nil htasks
    obtain ⟨conn, hconn, -⟩ :=
      h.registry.staged.task l c (hhead ▸ List.mem_cons_self)
    simp [runTask, hidle, hhead, hconn]
  removal := fun _ _ _ => h.registry.removal_finishes

/-- The removal of a connection that is not yet stored cannot be finished. -/
theorem storedFirst_of_loopsGoOn {s t : TcpServer} {a : Action}
    (h : s.Registry) (hgoes : t.LoopsGoOn) (hstep : step s a = some t) :
    s.StoredFirst a := by
  cases a with
  | readable l c result write =>
      intro hresult hheld
      obtain ⟨conn, next, -, hconn, -, hsame, hmessage | heof⟩ :=
        readable_cases hstep
      · exact hmessage.1 hresult
      · obtain ⟨-, -, -, rfl⟩ := heof
        have hentry : s.connections_.lookup next.name_ = s.entryOf c := by
          rw [hsame.name_eq]
          exact lookup_name h.numbered h.mapped hconn
        have hnull : (s.connections_.subscript next.name_).1 = none := by
          rcases hheld with hposted | hassigning
          · rw [entryOf, if_pos hposted] at hentry
            rw [ConnectionMap.subscript_of_none hentry]
          · have hposted : s.acceptorPc ≠ .posted c := by
              rw [hassigning]
              exact AcceptorPc.noConfusion
            rw [entryOf, if_neg hposted, if_pos hassigning] at hentry
            rw [ConnectionMap.subscript_of_some hentry]
        have hremoving : (beginRemove { s with conns := s.conns.set c next } l
            c next).loopPc l = .removing c none := by
          simp [beginRemove, access, hnull]
        have hsome := hgoes.removal l c none hremoving
        simp [finishRemove, hremoving] at hsome
  | newConnection => trivial
  | obtainSlot => trivial
  | assignSlot => trivial
  | runTask l => trivial
  | finishRemove l => trivial

/-- The connection counter has not overflowed, and the kernel answers within
its bounds. -/
def Ordinary (s : TcpServer) (a : Action) : Prop :=
  s.CounterInRange a ∧ s.LegalRead a

instance (s : TcpServer) : DecidablePred s.Ordinary :=
  fun _ => inferInstanceAs (Decidable (_ ∧ _))

theorem safe_preserved {s t : TcpServer} {a : Action} (h : s.Safe)
    (hordinary : s.Ordinary a) (hstored : s.StoredFirst a)
    (hstep : step s a = some t) : t.Safe where
  registry := registry_preserved h.registry hordinary.1 hstored hstep
  phased := phased_preserved h.phased hstep
  ready := echoReady_preserved h.ready hordinary.2 hstep

theorem create_safe (listenAddr : InetAddress) (nameArg : List Char)
    (threadNum : ℕ) : (create listenAddr nameArg threadNum).Safe where
  registry := create_registry listenAddr nameArg threadNum
  phased := create_phased listenAddr nameArg threadNum
  ready := by
    intro conn hconn
    cases hconn

/-- Take a run of a new server in which `nextConnId_` does not overflow and
the kernel answers within its bounds.  At every moment all io loops can do
what they find to do exactly when every end of file arrives after its
connection is stored. -/
theorem loopsGoOn_always_iff (listenAddr : InetAddress)
    (nameArg : List Char) (threadNum : ℕ) (actions : List Action)
    (last : TcpServer)
    (hordinary : Guarded step Ordinary
      (create listenAddr nameArg threadNum) actions)
    (hrun : run step (create listenAddr nameArg threadNum) actions =
      some last) :
    Always step LoopsGoOn (create listenAddr nameArg threadNum) actions ↔
      Guarded step StoredFirst (create listenAddr nameArg threadNum)
        actions := by
  have hsafe := create_safe listenAddr nameArg threadNum
  refine always_iff_guarded_of_guarded
    (fun _ _ _ h hordinary hstored hstep =>
      safe_preserved h hordinary hstored hstep)
    (fun _ _ _ h _ hordinary hstep => ⟨?_, ?_⟩)
    hsafe hsafe.loopsGoOn hordinary hrun
  · intro hgoes
    exact storedFirst_of_loopsGoOn h.registry hgoes hstep
  · intro hstored
    exact (safe_preserved h hordinary hstored hstep).loopsGoOn

theorem loopsGoOn_always_alternating :
    (Always step LoopsGoOn (create .any [] 2) alternating ↔
      Guarded step StoredFirst (create .any [] 2) alternating) ∧
    Guarded step StoredFirst (create .any [] 2) alternating := by
  have hsome : (run step (create .any [] 2) alternating).isSome = true := by
    decide +kernel
  obtain ⟨last, hrun⟩ := Option.isSome_iff_exists.mp hsome
  constructor
  · exact loopsGoOn_always_iff .any [] 2 alternating last (by decide +kernel)
      hrun
  · decide +kernel

/-! ## Lifetime -/

/-- Somebody holds a pointer to the connection: the map, the acceptor, a
posted task, or a loop inside `handleClose`.  Without one the destructor of
the connection has run, which closes the descriptor. -/
def Alive (s : TcpServer) (c : ConnId) : Prop :=
  (∃ l, s.Referenced l c) ∨ ∃ l temp, s.loopPc l = .removing c temp

theorem Registry.not_erased_of_alive {s : TcpServer} (h : s.Registry)
    {c : ConnId} (halive : s.Alive c) : c ∉ s.erased := by
  rcases halive with ⟨l, hreferenced⟩ | ⟨l, temp, hremoving⟩
  · intro herased
    have hclosed := h.staged.erased c herased
    rcases hreferenced with hentry | hposted | hassigning | htask
    · exact not_erased_of_entry h.mapped hentry herased
    · exact (h.staged.held c (.inl hposted)).ne hclosed (fun _ h => h) rfl
    · exact (h.staged.held c (.inr hassigning)).ne hclosed (fun _ h => h) rfl
    · refine (h.staged.task l c htask).ne hclosed ?_ rfl
      rintro conn ⟨-, hconnecting⟩
      simp [hconnecting]
  · exact (h.staged.removing l c temp hremoving).2.1

theorem Registry.alive_of_not_erased {s : TcpServer} (h : s.Registry)
    {c : ConnId} (hc : c < s.conns.length) (herased : c ∉ s.erased) :
    s.Alive c := by
  refine Or.inl ⟨0, ?_⟩
  by_cases hheld : s.Held c
  · exact Or.inr (hheld.imp id Or.inl)
  · have hlookup := h.mapped.lookup_eq c hc
    rw [entryOf_of_not_held hheld herased] at hlookup
    have hmem := AList.mem_lookup_iff.mp hlookup
    exact Or.inl (List.mem_map.mpr ⟨_, hmem, rfl⟩)

/-- In a run in which every end of file arrives after its connection is
stored, a connection lives until `removeConnection` has erased it, and no
longer: no connection is destroyed while somebody may use it, and none that
has been erased keeps its descriptor. -/
theorem alive_iff_not_erased (listenAddr : InetAddress)
    (nameArg : List Char) (threadNum : ℕ) (actions : List Action)
    (last : TcpServer)
    (hordinary : Guarded step (fun s a => s.CounterInRange a ∧ s.StoredFirst a)
      (create listenAddr nameArg threadNum) actions)
    (hrun : run step (create listenAddr nameArg threadNum) actions =
      some last) (c : ConnId) (hc : c < last.conns.length) :
    last.Alive c ↔ c ∉ last.erased := by
  have hregistry : last.Registry := run_invariant_of_guarded
    (fun _ _ _ h hguard hstep =>
      registry_preserved h hguard.1 hguard.2 hstep)
    (create_registry listenAddr nameArg threadNum) hordinary hrun
  exact ⟨hregistry.not_erased_of_alive, hregistry.alive_of_not_erased hc⟩

theorem alive_iff_not_erased_alternating :
    ∃ last, run step (create .any [] 2) alternating = some last ∧
      (last.Alive 0 ↔ 0 ∉ last.erased) ∧ 0 ∉ last.erased ∧
      (last.Alive 1 ↔ 1 ∉ last.erased) ∧ 1 ∈ last.erased := by
  have hexists : ∃ last, run step (create .any [] 2) alternating =
      some last ∧ last.conns.length = 2 ∧ last.erased = [1] := by
    apply exists_run_of_eval
    decide +kernel
  obtain ⟨last, hrun, hlength, herased⟩ := hexists
  have hordinary : Guarded step
      (fun s a => s.CounterInRange a ∧ s.StoredFirst a) (create .any [] 2)
      alternating := by
    decide +kernel
  refine ⟨last, hrun, ?_, by simp [herased], ?_, by simp [herased]⟩
  · exact alive_iff_not_erased .any [] 2 alternating last hordinary hrun 0
      (by rw [hlength]; decide)
  · exact alive_iff_not_erased .any [] 2 alternating last hordinary hrun 1
      (by rw [hlength]; decide)

end TcpServer

end EventServer.Network
