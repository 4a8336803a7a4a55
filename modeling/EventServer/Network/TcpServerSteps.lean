import EventServer.Network.TcpServer

/-!
# What the steps of the server do

One inversion lemma for each step of `TcpServer`: when the step can be taken,
and the state that it leads to.  Everything that is proved about runs of the
server uses these lemmas instead of the definitions of the steps.
-/

namespace EventServer.Network

open EventServer.Support

theorem ConnectionMap.subscript_of_some {m : ConnectionMap} {key : List Char}
    {p : TcpConnectionPtr} (h : m.lookup key = some p) :
    m.subscript key = (p, m) := by
  simp [subscript, h]

theorem ConnectionMap.subscript_of_none {m : ConnectionMap} {key : List Char}
    (h : m.lookup key = none) :
    m.subscript key = (none, m.insert key none) := by
  simp [subscript, h]

namespace TcpServer

theorem newConnection_cases {s t : TcpServer}
    (h : s.newConnection = some t) :
    s.acceptorPc = .idle ∧ ∃ ioLoop pool,
      s.threadPool_.getNextLoop = (some ioLoop, pool) ∧ t = {
      (s.access .acceptor .nextConnId_).access .acceptor .nextConnId_ with
      threadPool_ := pool
      nextConnId_ := wrapInt (s.nextConnId_ + 1)
      conns := s.conns ++
        [TcpConnection.fresh ioLoop (s.connName s.nextConnId_)]
      acceptorPc := .posted s.conns.length
      tasks := Function.update s.tasks ioLoop
        (s.tasks ioLoop ++ [s.conns.length]) } := by
  unfold newConnection at h
  split at h
  · rename_i ioLoop pool hidle hpool
    rw [TcpConnection.create_eq_fresh] at h
    exact ⟨hidle, ioLoop, pool, hpool, (Option.some.inj h).symm⟩
  · cases h

theorem obtainSlot_cases {s t : TcpServer} (h : s.obtainSlot = some t) :
    ∃ c conn, s.acceptorPc = .posted c ∧ s.conns[c]? = some conn ∧ t = {
      s.access .acceptor .connections_ with
      connections_ := (s.connections_.subscript conn.name_).2
      acceptorPc := .assigning c } := by
  unfold obtainSlot at h
  split at h
  · rename_i c hposted
    obtain ⟨conn, hconn, ht⟩ := Option.map_eq_some_iff.mp h
    exact ⟨c, conn, hposted, hconn, ht.symm⟩
  · cases h

theorem assignSlot_cases {s t : TcpServer} (h : s.assignSlot = some t) :
    ∃ c conn, s.acceptorPc = .assigning c ∧ s.conns[c]? = some conn ∧ t = {
      s.access .acceptor .connections_ with
      connections_ := s.connections_.insert conn.name_ (some c)
      acceptorPc := .idle } := by
  unfold assignSlot at h
  split at h
  · rename_i c hassigning
    obtain ⟨conn, hconn, ht⟩ := Option.map_eq_some_iff.mp h
    exact ⟨c, conn, hassigning, hconn, ht.symm⟩
  · cases h

theorem runTask_cases {s t : TcpServer} {l : ℕ} (h : s.runTask l = some t) :
    ∃ c rest conn, s.loopPc l = .idle ∧ s.tasks l = c :: rest ∧
      s.conns[c]? = some conn ∧ t = { s with
        conns := s.conns.set c conn.connectEstablished
        tasks := Function.update s.tasks l rest } := by
  unfold runTask at h
  split at h
  · rename_i c rest hidle htasks
    obtain ⟨conn, hconn, ht⟩ := Option.map_eq_some_iff.mp h
    exact ⟨c, rest, conn, hidle, htasks, hconn, ht.symm⟩
  · cases h

/-- A connection after an event that changes only its buffers, its socket and
its state. -/
structure SameIdentity (conn next : TcpConnection) : Prop where
  name_eq : next.name_ = conn.name_
  dispatcher_eq : next.dispatcher_ = conn.dispatcher_

/-- A readable event keeps the connection open unless `readv` reports the end
of file, which begins the removal of the connection. -/
theorem readable_cases {s t : TcpServer} {l : ℕ} {c : ConnId}
    {result : ReadvResult} {write : WriteResult}
    (h : s.readable l c result write = some t) :
    ∃ conn next, s.loopPc l = .idle ∧ s.conns[c]? = some conn ∧
      conn.dispatcher_ = l ∧ SameIdentity conn next ∧
      ((result ≠ .stored [] ∧ next.state_ = conn.state_ ∧
          t = { s with conns := s.conns.set c next }) ∨
        (result = .stored [] ∧
          (conn.state_ = .kConnected ∨ conn.state_ = .kDisconnecting) ∧
          next.state_ = .kDisconnected ∧
          t = beginRemove { s with conns := s.conns.set c next } l c
            next)) := by
  unfold readable at h
  split at h
  · rename_i conn hidle hconn
    by_cases hready : conn.dispatcher_ = l ∧ conn.readEventPtr_ = true ∧
        s.Referenced l c
    · rw [if_pos hready] at h
      cases hread : conn.handleRead (doMessageDefault write) result with
      | error fault => simp [hread] at h
      | ok pair =>
          obtain ⟨next, closed⟩ := pair
          obtain ⟨input, heof | hmessage⟩ :=
            TcpConnection.handleRead_cases hread
          · obtain ⟨hresult, hclosed, hclose⟩ := heof
            obtain ⟨hstate, hnext⟩ := TcpConnection.handleClose_eq_ok hclose
            rw [hread, hclosed] at h
            have ht := (Option.some.inj h).symm
            refine ⟨conn, next, hidle, hconn, hready.1, ?_,
              Or.inr ⟨hresult, hstate, ?_, ht⟩⟩
            · rw [hnext]
              exact ⟨rfl, rfl⟩
            · rw [hnext]
              rfl
          · obtain ⟨hresult, hclosed, hnext⟩ := hmessage
            rw [hread, hclosed] at h
            have ht := (Option.some.inj h).symm
            suffices hsame : ∃ input socket, next = { conn with
                inputBuffer_ := input, socket_ := socket } by
              obtain ⟨input, socket, hnext⟩ := hsame
              refine ⟨conn, next, hidle, hconn, hready.1, ?_,
                Or.inl ⟨hresult, ?_, ht⟩⟩
              · rw [hnext]
                exact ⟨rfl, rfl⟩
              · rw [hnext]
            rcases hnext with hfilled | hsend
            · exact ⟨_, _, hfilled⟩
            · obtain ⟨input', socket, heq⟩ :=
                TcpConnection.sendBuffer_frame hsend
              exact ⟨input', socket, heq⟩
    · rw [if_neg hready] at h
      cases h
  · cases h

theorem finishRemove_cases {s t : TcpServer} {l : ℕ}
    (h : s.finishRemove l = some t) :
    ∃ c temp conn, s.loopPc l = .removing c (some temp) ∧
      s.conns[c]? = some conn ∧
      (s.connections_.lookup conn.name_).isSome ∧ t = {
        s.access (.io l) .connections_ with
        connections_ := s.connections_.erase conn.name_
        loopPc := Function.update s.loopPc l .idle
        erasures := s.erasures ++
          [⟨c, s.connections_.lookup conn.name_⟩] } := by
  unfold finishRemove at h
  split at h
  · rename_i c temp hremoving
    obtain ⟨conn, hconn, hrest⟩ := Option.bind_eq_some_iff.mp h
    by_cases hentry : (s.connections_.lookup conn.name_).isSome
    · rw [if_pos hentry] at hrest
      exact ⟨c, temp, conn, hremoving, hconn, hentry,
        (Option.some.inj hrest).symm⟩
    · rw [if_neg hentry] at hrest
      cases hrest
  · cases h

end TcpServer

end EventServer.Network
