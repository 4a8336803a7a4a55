import EventServer.Support.Run
import EventServer.Network.TcpConnection

/-!
# What becomes of the bytes passed to `send`

A connected connection is driven by calls of the three `send` overloads, by
writable events and by reads.  The bytes that the kernel has accepted,
followed by those that wait in the output buffer, are compared with everything
that was passed to `send`.

Two of the overloads do nothing, nothing is ever queued after a short write,
and no write event is ever registered.  The comparison therefore holds along a
run exactly when each call passed no bytes, or was the overload for buffers
and had all its bytes accepted by its own `write`.
-/

namespace EventServer.Network

open EventServer.Support

/-- What can happen to a connection between `connectEstablished` and its
close.  The messages received are handed to a callback whose calls of `send`
are the next events. -/
inductive SendEvent where
  | stringPiece (message : List UInt8)
  | data (bytes : List UInt8)
  | buffer (buf : Buffer) (write : WriteResult)
  | writable (write : WriteResult)
  | readable (result : ReadvResult)

namespace SendEvent

/-- The bytes that the event passes to `send`. -/
def passed : SendEvent → List UInt8
  | .stringPiece message => message
  | .data bytes => bytes
  | .buffer buf _ => buf.content
  | .writable _ => []
  | .readable _ => []

/-- The bytes that the kernel accepts during the event. -/
def accepted : SendEvent → List UInt8
  | .buffer buf write => buf.content.take write.acceptedLength
  | .stringPiece _ | .data _ | .writable _ | .readable _ => []

/-- The answers are those of a healthy connection, and the buffer is one that
operations on buffers can produce. -/
def Legal (conn : TcpConnection) : SendEvent → Prop
  | .stringPiece _ => True
  | .data _ => True
  | .buffer buf write => buf.Valid ∧ write.NoFault buf.content.length
  | .writable write => write.NoFault conn.outputBuffer_.content.length
  | .readable result => result ≠ .stored []

instance (conn : TcpConnection) :
    ∀ e : SendEvent, Decidable (e.Legal conn)
  | .stringPiece _ => isTrue trivial
  | .data _ => isTrue trivial
  | .buffer buf write => inferInstanceAs (Decidable
      (buf.Valid ∧ write.NoFault buf.content.length))
  | .writable write => inferInstanceAs (Decidable
      (write.NoFault conn.outputBuffer_.content.length))
  | .readable result => inferInstanceAs (Decidable (result ≠ .stored []))

/-- The event leaves no byte behind: the call passes nothing, or it is the
overload for buffers and `write` accepts everything. -/
def Complete : SendEvent → Prop
  | .stringPiece message => message = []
  | .data bytes => bytes = []
  | .buffer buf (.wrote n) => n = buf.content.length
  | .buffer buf (.failed _) => buf.content = []
  | .writable _ => True
  | .readable _ => True

instance : DecidablePred Complete
  | .stringPiece message => inferInstanceAs (Decidable (message = []))
  | .data bytes => inferInstanceAs (Decidable (bytes = []))
  | .buffer buf (.wrote n) =>
      inferInstanceAs (Decidable (n = buf.content.length))
  | .buffer buf (.failed _) => inferInstanceAs (Decidable (buf.content = []))
  | .writable _ => isTrue trivial
  | .readable _ => isTrue trivial

end SendEvent

/-- A connection with everything that was passed to its `send` so far. -/
structure Sender where
  conn : TcpConnection
  passed : List UInt8
  deriving DecidableEq

namespace Sender

/-- The event as a call of the connection's function for it. -/
def call (callback : Option WriteCompleteCallback) (conn : TcpConnection) :
    SendEvent → Except Fault TcpConnection
  | .stringPiece message => .ok (conn.sendStringPiece message)
  | .data bytes => .ok (conn.sendData bytes)
  | .buffer buf write => conn.sendBuffer callback buf write
  | .writable write => conn.handleWrite callback write
  | .readable result => Prod.fst <$> conn.handleRead .ok result

/-- One event of a connected connection. -/
def step (callback : Option WriteCompleteCallback) (s : Sender)
    (e : SendEvent) : Option Sender :=
  if e.Legal s.conn then
    match call callback s.conn e with
    | .ok conn => some { conn := conn, passed := s.passed ++ e.passed }
    | .error _ => none
  else none

/-- The accepted bytes and the queued ones are those passed to `send`. -/
def Conserved (s : Sender) : Prop :=
  s.conn.socket_.accepted ++ s.conn.outputBuffer_.content = s.passed

instance : DecidablePred Conserved :=
  fun s => inferInstanceAs (Decidable (_ = s.passed))

/-- A new connection on which `connectEstablished` has run. -/
def start (dispatcher : ℕ) (name : List Char) : Except Fault Sender := do
  let conn ← TcpConnection.create dispatcher name
  return { conn := conn.connectEstablished, passed := [] }

theorem start_eq_ok {dispatcher : ℕ} {name : List Char} {s : Sender}
    (h : start dispatcher name = .ok s) :
    s = ⟨(TcpConnection.fresh dispatcher name).connectEstablished, []⟩ := by
  simp only [start, TcpConnection.create_eq_fresh, ok_bind] at h
  exact (Except.ok.inj h).symm

/-! ## One event -/

/-- The invariant of a run: the connection is connected, and nothing is queued
on it. -/
structure Ready (s : Sender) : Prop where
  connected : s.conn.state_ = .kConnected
  unqueued : s.conn.Unqueued

theorem Ready.conserved_iff {s : Sender} (h : s.Ready) :
    s.Conserved ↔ s.conn.socket_.accepted = s.passed := by
  rw [Conserved, h.unqueued.output_content, List.append_nil]

/-- `send(Buffer*)` hands the accepted part of the bytes to the kernel, and
changes nothing else but the input buffer. -/
theorem sendBuffer_accepts {callback : Option WriteCompleteCallback}
    {conn next : TcpConnection} {buf : Buffer} {write : WriteResult}
    (hqueue : conn.Unqueued) (hbuf : buf.Valid)
    (hwrite : write.NoFault buf.content.length)
    (hsend : conn.sendBuffer callback buf write = .ok next) :
    ∃ input, next = { conn with
      inputBuffer_ := input
      socket_ := conn.socket_.accept
        (buf.content.take write.acceptedLength) } := by
  have hstate := TcpConnection.sendBuffer_eq_ok hsend
  cases write with
  | failed errno =>
      rw [TcpConnection.sendBuffer_failed hstate hqueue] at hsend
      have heq := Except.ok.inj hsend
      refine ⟨conn.inputBuffer_, ?_⟩
      simp [← heq, WriteResult.acceptedLength, Socket.accept]
  | wrote n =>
      rw [TcpConnection.sendBuffer_wrote hstate hqueue hbuf hwrite] at hsend
      have heq := Except.ok.inj hsend
      by_cases hall : n = buf.content.length
      · simp only [if_pos hall] at heq
        obtain ⟨input, hinput⟩ :=
          TcpConnection.invokeWriteComplete_frame callback
          { conn with socket_ := conn.socket_.accept (buf.content.take n) }
        exact ⟨input, heq.symm.trans hinput⟩
      · simp only [if_neg hall] at heq
        exact ⟨conn.inputBuffer_, heq.symm⟩

/-- A read that is not the end of file changes only the input buffer and what
was received. -/
theorem handleRead_frame {conn next : TcpConnection} {result : ReadvResult}
    {closed : Bool} (hresult : result ≠ .stored [])
    (hread : conn.handleRead .ok result = .ok (next, closed)) :
    ∃ input, next = { conn with
      inputBuffer_ := input
      socket_ := conn.socket_.deliver result.bytes } := by
  obtain ⟨input, hcases⟩ := TcpConnection.handleRead_cases hread
  rcases hcases with ⟨heof, -, -⟩ | ⟨-, -, heq | hok⟩
  · exact absurd heof hresult
  · exact ⟨input, heq⟩
  · exact ⟨input, (Except.ok.inj hok).symm⟩

/-- A call leaves no byte behind exactly when it is complete. -/
theorem accepted_eq_passed_iff {conn : TcpConnection} {e : SendEvent}
    (hlegal : e.Legal conn) : e.accepted = e.passed ↔ e.Complete := by
  cases e with
  | stringPiece message => exact eq_comm
  | data bytes => exact eq_comm
  | buffer buf write =>
      cases write with
      | failed errno =>
          have hnone : buf.content.take 0 = [] := List.take_zero
          change buf.content.take 0 = buf.content ↔ buf.content = []
          rw [hnone]
          exact eq_comm
      | wrote n =>
          have hn : n ≤ buf.content.length := hlegal.2
          have htake : buf.content.take n = buf.content ↔
              buf.content.length ≤ n := List.take_eq_self_iff _
          constructor
          · intro haccepted
            exact le_antisymm hn (htake.mp haccepted)
          · intro hall
            exact htake.mpr hall.ge
  | writable write => exact iff_of_true rfl trivial
  | readable result => exact iff_of_true rfl trivial

/-- One event appends what it passes and what the kernel accepts of it. -/
theorem step_spec {callback : Option WriteCompleteCallback}
    {s t : Sender} {e : SendEvent} (hready : s.Ready)
    (hstep : step callback s e = some t) :
    t.Ready ∧ t.passed = s.passed ++ e.passed ∧
      t.conn.socket_.accepted = s.conn.socket_.accepted ++ e.accepted := by
  by_cases hlegal : e.Legal s.conn
  swap
  · simp [step, hlegal] at hstep
  cases hcall : call callback s.conn e with
  | error fault => simp [step, hcall] at hstep
  | ok conn =>
      have ht : ⟨conn, s.passed ++ e.passed⟩ = t := by
        simpa [step, hlegal, hcall] using hstep
      subst ht
      suffices hconn : ∃ input received, conn = { s.conn with
          inputBuffer_ := input
          socket_ := ⟨received, s.conn.socket_.accepted ++ e.accepted⟩ } by
        obtain ⟨input, received, rfl⟩ := hconn
        exact ⟨⟨hready.connected, ⟨hready.unqueued.output_eq,
          hready.unqueued.writeEvent_eq⟩⟩, rfl, rfl⟩
      have hsame : s.conn = { s.conn with
          inputBuffer_ := s.conn.inputBuffer_
          socket_ := ⟨s.conn.socket_.received,
            s.conn.socket_.accepted ++ []⟩ } := by
        simp
      cases e with
      | stringPiece message =>
          have heq := Except.ok.inj hcall
          rw [TcpConnection.sendStringPiece, ite_self] at heq
          exact ⟨_, _, heq.symm.trans hsame⟩
      | data bytes =>
          have heq := Except.ok.inj hcall
          rw [TcpConnection.sendData, TcpConnection.sendStringPiece,
            ite_self] at heq
          exact ⟨_, _, heq.symm.trans hsame⟩
      | buffer buf write =>
          obtain ⟨input, rfl⟩ := sendBuffer_accepts hready.unqueued hlegal.1
            hlegal.2 hcall
          exact ⟨input, _, rfl⟩
      | writable write =>
          rw [call, TcpConnection.handleWrite,
            hready.unqueued.writeEvent_eq] at hcall
          exact ⟨_, _, (Except.ok.inj hcall).symm.trans hsame⟩
      | readable result =>
          rw [call] at hcall
          cases hread : s.conn.handleRead .ok result with
          | error fault => simp [hread] at hcall
          | ok pair =>
              obtain ⟨next, closed⟩ := pair
              have heq : next = conn := by simpa [hread] using hcall
              obtain ⟨input, hinput⟩ := handleRead_frame hlegal hread
              refine ⟨input, s.conn.socket_.received ++ result.bytes, ?_⟩
              rw [← heq, hinput]
              simp [Socket.deliver, SendEvent.accepted]

theorem step_ready {callback : Option WriteCompleteCallback}
    {s t : Sender} {e : SendEvent} (hready : s.Ready)
    (hstep : step callback s e = some t) : t.Ready :=
  (step_spec hready hstep).1

/-- While nothing is lost, an event loses nothing exactly when it is
complete. -/
theorem conserved_next_iff {callback : Option WriteCompleteCallback}
    {s t : Sender} {e : SendEvent} (hready : s.Ready)
    (hconserved : s.Conserved) (hstep : step callback s e = some t) :
    t.Conserved ↔ e.Complete := by
  obtain ⟨hnext, hpassed, haccepted⟩ := step_spec hready hstep
  have hlegal : e.Legal s.conn := by
    by_contra hillegal
    simp [step, hillegal] at hstep
  rw [hready.conserved_iff] at hconserved
  rw [hnext.conserved_iff, hpassed, haccepted, hconserved,
    List.append_right_inj]
  exact accepted_eq_passed_iff hlegal

/-! ## Runs of events -/

/-- On a run of a connected connection the accepted bytes and the queued ones
are at every moment those passed to `send` exactly when every event of the run
is complete. -/
theorem conserved_always_iff_complete
    (callback : Option WriteCompleteCallback) (dispatcher : ℕ)
    (name : List Char) (s last : Sender) (events : List SendEvent)
    (hstart : start dispatcher name = .ok s)
    (hrun : run (step callback) s events = some last) :
    Always (step callback) Conserved s events ↔
      ∀ e ∈ events, e.Complete := by
  have heq := start_eq_ok hstart
  subst heq
  have hregions := @Buffer.fresh_regions Buffer.kInitialSize (by decide)
  have hready : Ready
      ⟨(TcpConnection.fresh dispatcher name).connectEstablished, []⟩ :=
    ⟨rfl, ⟨rfl, rfl⟩⟩
  have hconserved : Conserved
      ⟨(TcpConnection.fresh dispatcher name).connectEstablished, []⟩ :=
    hready.conserved_iff.mpr rfl
  rw [← guarded_iff_forall hrun]
  exact always_iff_guarded
    (fun _ _ _ hready hstep => step_ready hready hstep)
    (fun _ _ _ hready hconserved hstep =>
      conserved_next_iff hready hconserved hstep)
    hready hconserved hrun

/-- A buffer that holds `ab`. -/
def abBuffer : Buffer :=
  ⟨List.replicate Buffer.kCheapPrepend 0 ++ [97, 98], 8, 10⟩

/-- The event sequence of a connection that only makes complete calls. -/
def completeCalls : List SendEvent :=
  [.buffer abBuffer (.wrote 2), .readable (.stored [99]), .stringPiece [],
    .writable (.failed .EWOULDBLOCK)]

theorem conserved_always_of_complete_calls :
    (Always (step none) Conserved
        ⟨(TcpConnection.fresh 0 []).connectEstablished, []⟩ completeCalls ↔
      ∀ e ∈ completeCalls, e.Complete) ∧
    ∀ e ∈ completeCalls, e.Complete := by
  have hstart : start 0 [] =
      .ok ⟨(TcpConnection.fresh 0 []).connectEstablished, []⟩ := by
    simp only [start, TcpConnection.create_eq_fresh, ok_bind, pure_eq_ok]
  have hsome : (run (step none)
      ⟨(TcpConnection.fresh 0 []).connectEstablished, []⟩
      completeCalls).isSome = true := by
    decide +kernel
  obtain ⟨last, hrun⟩ := Option.isSome_iff_exists.mp hsome
  constructor
  · exact conserved_always_iff_complete none 0 [] _ last completeCalls
      hstart hrun
  · decide +kernel

/-- Sending `ab` through a buffer and then `ab` as a string, of which the
kernel accepts one byte: nothing waits, and three bytes are gone. -/
theorem short_write_and_string_lost :
    ∃ last, run (step none)
        ⟨(TcpConnection.fresh 0 []).connectEstablished, []⟩
        [.buffer abBuffer (.wrote 1), .stringPiece [97, 98]] = some last ∧
      last.conn.state_ = .kConnected ∧
      last.passed = [97, 98, 97, 98] ∧
      last.conn.socket_.accepted = [97] ∧
      last.conn.outputBuffer_.content = [] ∧ ¬ last.Conserved := by
  apply exists_run_of_eval
  decide +kernel

end Sender

end EventServer.Network
