import EventServer.Network.Registry

/-!
# The phases of a connection

A connection waits for `connectEstablished`, is connected, or is closed.  A
closed one is in the middle of its removal until it has been erased from the
map.  This is so in every run, whenever the connection was stored.
-/

namespace EventServer.Network

open EventServer.Support

namespace TcpServer

/-- A connection waits for its task, is connected, or is closed, and a closed
one is about to leave the map or has left it. -/
inductive Phase (s : TcpServer) (c : ConnId) (conn : TcpConnection) : Prop where
  | waiting (hstate : conn.state_ = .kConnecting)
      (hread : conn.readEventPtr_ = false)
  | connected (hstate : conn.state_ = .kConnected)
  | leaving (hstate : conn.state_ = .kDisconnected) (temp : TcpConnectionPtr)
      (hremoving : s.loopPc conn.dispatcher_ = .removing c temp)
  | gone (hstate : conn.state_ = .kDisconnected) (herased : c ∈ s.erased)

def Phased (s : TcpServer) : Prop :=
  ∀ c conn, s.conns[c]? = some conn → s.Phase c conn

/-- A step that leaves the removals alone leaves the phase alone. -/
theorem Phase.of_eq {s t : TcpServer} {c : ConnId} {conn : TcpConnection}
    (h : s.Phase c conn) (hloops : t.loopPc = s.loopPc)
    (herased : t.erased = s.erased) : t.Phase c conn := by
  cases h with
  | waiting hstate hread => exact .waiting hstate hread
  | connected hstate => exact .connected hstate
  | leaving hstate temp hremoving =>
      exact .leaving hstate temp (by rw [hloops, hremoving])
  | gone hstate hmem => exact .gone hstate (by rwa [herased])

/-- A connection that is read has a registered read event. -/
theorem readable_registered {s t : TcpServer} {l : ℕ} {c : ConnId}
    {result : ReadvResult} {write : WriteResult} {conn : TcpConnection}
    (hconn : s.conns[c]? = some conn)
    (h : s.readable l c result write = some t) :
    conn.readEventPtr_ = true := by
  unfold readable at h
  split at h
  · rename_i other hidle hother
    obtain rfl := Option.some.inj (hconn.symm.trans hother)
    exact (Option.ite_none_right_eq_some.mp h).1.2.1
  · cases h

theorem readable_phased {s t : TcpServer} {l : ℕ} {c : ConnId}
    {result : ReadvResult} {write : WriteResult} (h : s.Phased)
    (hstep : s.readable l c result write = some t) : t.Phased := by
  obtain ⟨conn, next, hidle, hconn, hl, hsame, hmessage | heof⟩ :=
    readable_cases hstep
  · obtain ⟨-, hstate, rfl⟩ := hmessage
    intro d other hother
    rcases getElem?_set_cases hother with ⟨rfl, rfl⟩ | hold
    · -- the connection that is read is not waiting
      have hread := readable_registered hconn hstep
      cases h d conn hconn with
      | waiting hconnecting hfalse =>
          exact absurd (hfalse.symm.trans hread) Bool.false_ne_true
      | connected hconnected => exact .connected (hstate.trans hconnected)
      | leaving hclosed temp hremoving =>
          refine .leaving (hstate.trans hclosed) temp ?_
          rw [hsame.dispatcher_eq]
          exact hremoving
      | gone hclosed herased => exact .gone (hstate.trans hclosed) herased
    · exact (h d other hold).of_eq rfl rfl
  · obtain ⟨-, -, hclosed, rfl⟩ := heof
    intro d other hother
    rcases getElem?_set_cases hother with ⟨rfl, rfl⟩ | hold
    · refine .leaving hclosed (s.connections_.subscript other.name_).1 ?_
      rw [hsame.dispatcher_eq, hl]
      simp [beginRemove, access]
    · cases h d other hold with
      | waiting hstate hread => exact .waiting hstate hread
      | connected hstate => exact .connected hstate
      | leaving hstate temp hremoving =>
          refine .leaving hstate temp ?_
          have hne : other.dispatcher_ ≠ l := by
            rintro heq
            rw [heq, hidle] at hremoving
            cases hremoving
          simp [beginRemove, access, Function.update_of_ne hne, hremoving]
      | gone hstate herased => exact .gone hstate herased

theorem finishRemove_phased {s t : TcpServer} {l : ℕ} (h : s.Phased)
    (hstep : s.finishRemove l = some t) : t.Phased := by
  obtain ⟨c, temp, conn, hremoving, -, -, rfl⟩ := finishRemove_cases hstep
  intro d other hother
  cases h d other hother with
  | waiting hstate hread => exact .waiting hstate hread
  | connected hstate => exact .connected hstate
  | leaving hstate temp' hremoving' =>
      by_cases hl : other.dispatcher_ = l
      · -- the loop of this connection is the one that ends its removal
        rw [hl, hremoving] at hremoving'
        obtain ⟨rfl, -⟩ := LoopPc.removing.inj hremoving'
        exact .gone hstate (by simp [erased])
      · refine .leaving hstate temp' ?_
        simp [Function.update_of_ne hl, hremoving']
  | gone hstate herased =>
      refine .gone hstate ?_
      have hmem : d ∈ s.erased := herased
      simp only [erased, List.map_append, List.mem_append] at hmem ⊢
      exact Or.inl hmem

theorem phased_preserved {s t : TcpServer} {a : Action} (h : s.Phased)
    (hstep : step s a = some t) : t.Phased := by
  cases a with
  | newConnection =>
      have hnew : s.newConnection = some t := by rwa [step] at hstep
      obtain ⟨-, ioLoop, pool, -, ht⟩ := newConnection_cases hnew
      intro c conn hconn
      rw [ht] at hconn
      rcases getElem?_append_cases hconn with hold | ⟨-, rfl⟩
      · exact (h c conn hold).of_eq (by rw [ht]; rfl) (by rw [ht]; rfl)
      · exact .waiting rfl rfl
  | obtainSlot =>
      obtain ⟨_, _, -, -, rfl⟩ := obtainSlot_cases hstep
      intro c conn hconn
      exact (h c conn hconn).of_eq rfl rfl
  | assignSlot =>
      obtain ⟨_, _, -, -, rfl⟩ := assignSlot_cases hstep
      intro c conn hconn
      exact (h c conn hconn).of_eq rfl rfl
  | runTask l =>
      obtain ⟨c, rest, conn, -, -, -, rfl⟩ := runTask_cases hstep
      intro d other hother
      rcases getElem?_set_cases hother with ⟨-, rfl⟩ | hold
      · exact .connected rfl
      · exact (h d other hold).of_eq rfl rfl
  | readable l c result write => exact readable_phased h hstep
  | finishRemove l => exact finishRemove_phased h hstep

theorem create_phased (listenAddr : InetAddress) (nameArg : List Char)
    (threadNum : ℕ) : (create listenAddr nameArg threadNum).Phased := by
  intro c conn hconn
  cases hconn

/-- A closed connection has been erased, or its loop is about to do so. -/
theorem Phased.closed_removed {s : TcpServer} (h : s.Phased) {c : ConnId}
    {conn : TcpConnection} (hconn : s.conns[c]? = some conn)
    (hclosed : conn.state_ = .kDisconnected) :
    (∃ temp, s.loopPc conn.dispatcher_ = .removing c temp) ∨ c ∈ s.erased := by
  cases h c conn hconn with
  | waiting hstate =>
      rw [hclosed] at hstate
      cases hstate
  | connected hstate =>
      rw [hclosed] at hstate
      cases hstate
  | leaving hstate temp hremoving => exact Or.inl ⟨temp, hremoving⟩
  | gone hstate herased => exact Or.inr herased

end TcpServer

end EventServer.Network
