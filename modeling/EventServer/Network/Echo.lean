import EventServer.Support.Run
import EventServer.Network.TcpServer

/-!
# Echoing under the default callbacks

A connection of `TcpServer` sends back what it reads: the message callback
passes the whole input buffer to `send`, and the write-complete callback
clears the input buffer.  In between, nothing remembers how much of the input
buffer an incomplete `write` has already accepted.  The echo is therefore
faithful exactly on the runs in which no `write` accepts some, but not all, of
the bytes that it is given.
-/

namespace EventServer.Network

open EventServer.Support

/-- A `write` of `len` bytes that accepts all of them, or none. -/
def WriteResult.WholeOrNothing : WriteResult → ℕ → Prop
  | .wrote n, len => n = 0 ∨ n = len
  | .failed _, _ => True

instance : ∀ (write : WriteResult) (len : ℕ),
    Decidable (write.WholeOrNothing len)
  | .wrote n, len => inferInstanceAs (Decidable (n = 0 ∨ n = len))
  | .failed _, _ => isTrue trivial

/-- A readable event: what `readv` answers, and what `write` answers when the
message callback sends. -/
structure ReadableEvent where
  result : ReadvResult
  write : WriteResult

namespace TcpConnection

/-- The event is one that the kernel can produce. -/
def Legal (conn : TcpConnection) (e : ReadableEvent) : Prop :=
  e.result.bytes.length ≤ conn.inputBuffer_.iovCapacity ∧
    e.write.NoFault (conn.inputBuffer_.content ++ e.result.bytes).length

instance (conn : TcpConnection) (e : ReadableEvent) :
    Decidable (conn.Legal e) :=
  inferInstanceAs (Decidable (_ ∧ _))

/-- One readable event of a connection with the default callbacks. -/
def echoStep (conn : TcpConnection) (e : ReadableEvent) :
    Option TcpConnection :=
  if conn.Legal e then
    match conn.handleRead (TcpServer.doMessageDefault e.write) e.result with
    | .ok (next, _) => some next
    | .error _ => none
  else none

/-- The bytes that the connection still holds, in the order in which they
would be sent. -/
def held (conn : TcpConnection) : List UInt8 :=
  conn.outputBuffer_.content ++ conn.inputBuffer_.content

/-- The accepted bytes are a prefix of the received ones, and the rest is
exactly what the connection holds. -/
def Echoes (conn : TcpConnection) : Prop :=
  conn.socket_.accepted ++ conn.held = conn.socket_.received

instance : DecidablePred Echoes :=
  fun conn => inferInstanceAs (Decidable (_ ++ conn.held = _))

/-- If the event leads to a `write`, then this does not accept some of its
bytes without accepting all of them. -/
def NoPartialWrite (conn : TcpConnection) (e : ReadableEvent) : Prop :=
  match e.result with
  | .stored bytes =>
      bytes = [] ∨
        e.write.WholeOrNothing (conn.inputBuffer_.content ++ bytes).length
  | .failed _ => True

instance (conn : TcpConnection) :
    ∀ e : ReadableEvent, Decidable (conn.NoPartialWrite e)
  | ⟨.stored bytes, write⟩ =>
      inferInstanceAs (Decidable (bytes = [] ∨ write.WholeOrNothing
        (conn.inputBuffer_.content ++ bytes).length))
  | ⟨.failed _, _⟩ => isTrue trivial

/-! ## One event -/

/-- The invariant of a run of events. -/
structure EchoReady (conn : TcpConnection) : Prop where
  unqueued : conn.Unqueued
  input_valid : conn.inputBuffer_.Valid

theorem EchoReady.held_eq {conn : TcpConnection} (h : conn.EchoReady) :
    conn.held = conn.inputBuffer_.content := by
  rw [held, h.unqueued.output_content, List.nil_append]

/-- What sending the input buffer back does, by the answer of `write`. -/
theorem doMessageDefault_cases {filled next : TcpConnection}
    {write : WriteResult} (hready : filled.EchoReady)
    (hlegal : write.NoFault filled.inputBuffer_.content.length)
    (hsend : TcpServer.doMessageDefault write filled = .ok next) :
    next.socket_.received = filled.socket_.received ∧ next.EchoReady ∧
      ((write.WholeOrNothing filled.inputBuffer_.content.length ∧
          next.socket_.accepted ++ next.inputBuffer_.content =
            filled.socket_.accepted ++ filled.inputBuffer_.content) ∨
        ∃ n, write = .wrote n ∧ 0 < n ∧
          n < filled.inputBuffer_.content.length ∧
          next.socket_.accepted = filled.socket_.accepted ++
            filled.inputBuffer_.content.take n ∧
          next.inputBuffer_.content = filled.inputBuffer_.content) := by
  have hstate := sendBuffer_eq_ok hsend
  rw [TcpServer.doMessageDefault] at hsend
  cases write with
  | failed errno =>
      rw [sendBuffer_failed hstate hready.unqueued] at hsend
      have heq := Except.ok.inj hsend
      subst heq
      exact ⟨rfl, hready, Or.inl ⟨trivial, rfl⟩⟩
  | wrote n =>
      have hn : n ≤ filled.inputBuffer_.content.length := hlegal
      rw [sendBuffer_wrote hstate hready.unqueued hready.input_valid hn]
        at hsend
      have heq := Except.ok.inj hsend
      by_cases hall : n = filled.inputBuffer_.content.length
      · -- everything is accepted, and the input buffer is cleared
        simp only [if_pos hall] at heq
        subst heq
        refine ⟨rfl, ⟨⟨hready.unqueued.output_eq,
          hready.unqueued.writeEvent_eq⟩,
          Buffer.retrieveAll_valid hready.input_valid⟩,
          Or.inl ⟨Or.inr hall, ?_⟩⟩
        simp only [invokeWriteComplete, TcpServer.doWriteCompleteDefault,
          Buffer.retrieveAll_content, Socket.accept, hall, List.take_length,
          List.append_nil]
      · simp only [if_neg hall] at heq
        subst heq
        refine ⟨rfl, ⟨⟨hready.unqueued.output_eq,
          hready.unqueued.writeEvent_eq⟩, hready.input_valid⟩, ?_⟩
        by_cases hzero : n = 0
        · refine Or.inl ⟨Or.inl hzero, ?_⟩
          simp only [Socket.accept, hzero, List.take_zero, List.append_nil]
        · exact Or.inr ⟨n, rfl, Nat.pos_of_ne_zero hzero,
            lt_of_le_of_ne hn hall, rfl, rfl⟩

/-- What one event does, by the answers of `readv` and `write`. -/
theorem echoStep_cases {conn next : TcpConnection} {e : ReadableEvent}
    (hready : conn.EchoReady) (hstep : echoStep conn e = some next) :
    next.socket_.received = conn.socket_.received ++ e.result.bytes ∧
      next.EchoReady ∧
      ((conn.NoPartialWrite e ∧
          next.socket_.accepted ++ next.inputBuffer_.content =
            conn.socket_.accepted ++
              (conn.inputBuffer_.content ++ e.result.bytes)) ∨
        ∃ n, 0 < n ∧
          n < (conn.inputBuffer_.content ++ e.result.bytes).length ∧
          ¬ conn.NoPartialWrite e ∧
          next.socket_.accepted = conn.socket_.accepted ++
            (conn.inputBuffer_.content ++ e.result.bytes).take n ∧
          next.inputBuffer_.content =
            conn.inputBuffer_.content ++ e.result.bytes) := by
  obtain ⟨result, write⟩ := e
  by_cases hlegal : conn.Legal ⟨result, write⟩
  swap
  · simp [echoStep, hlegal] at hstep
  obtain ⟨hcap, hfault⟩ := hlegal
  simp only [echoStep, Legal, hcap, hfault, and_self, if_true] at hstep
  cases result with
  | failed errno =>
      have heq : conn = next := by simpa [handleRead_failed] using hstep
      subst heq
      refine ⟨?_, hready, Or.inl ⟨trivial, ?_⟩⟩
      · simp [ReadvResult.bytes]
      · simp [ReadvResult.bytes]
  | stored bytes =>
      simp only [ReadvResult.bytes] at hcap hfault ⊢
      cases hread : conn.handleRead (TcpServer.doMessageDefault write)
          (.stored bytes) with
      | error fault => simp [hread] at hstep
      | ok pair =>
          obtain ⟨after, closed⟩ := pair
          have heq : after = next := by simpa [hread] using hstep
          subst heq
          obtain ⟨input, hvalid, hcontent, hafter⟩ :=
            handleRead_stored hready.input_valid hcap hread
          have hfilled : EchoReady { conn with
              inputBuffer_ := input
              socket_ := conn.socket_.deliver bytes } :=
            ⟨⟨hready.unqueued.output_eq, hready.unqueued.writeEvent_eq⟩,
              hvalid⟩
          by_cases hempty : bytes = []
          · -- end of file: the buffers stay as they are
            simp only [if_pos hempty] at hafter
            obtain ⟨-, hclosed⟩ := handleClose_eq_ok hafter.1
            subst hclosed
            refine ⟨rfl, ⟨⟨hready.unqueued.output_eq,
              hready.unqueued.writeEvent_eq⟩, hvalid⟩, Or.inl ⟨?_, ?_⟩⟩
            · exact Or.inl hempty
            · simp only [setState, Socket.deliver, hcontent]
          · simp only [if_neg hempty] at hafter
            rw [← hcontent] at hfault
            obtain ⟨hreceived, hnext, hcases⟩ :=
              doMessageDefault_cases hfilled hfault hafter.1
            simp only [Socket.deliver, hcontent] at hreceived hcases
            refine ⟨hreceived, hnext, ?_⟩
            rcases hcases with ⟨hwhole, hkept⟩ | ⟨n, hn, hpos, hlt, hrest⟩
            · exact Or.inl ⟨Or.inr hwhole, hkept⟩
            · refine Or.inr ⟨n, hpos, hlt, ?_, hrest⟩
              subst hn
              rintro (h | h | h)
              · exact hempty h
              · exact absurd h hpos.ne'
              · exact absurd h hlt.ne

theorem echoStep_ready {conn next : TcpConnection} {e : ReadableEvent}
    (hready : conn.EchoReady) (hstep : echoStep conn e = some next) :
    next.EchoReady :=
  (echoStep_cases hready hstep).2.1

/-- After a faithful echo, an event keeps the echo faithful exactly when it
involves no partial write. -/
theorem echoes_next_iff {conn next : TcpConnection} {e : ReadableEvent}
    (hready : conn.EchoReady) (hechoes : conn.Echoes)
    (hstep : echoStep conn e = some next) :
    next.Echoes ↔ conn.NoPartialWrite e := by
  obtain ⟨hreceived, hnext, hcases⟩ := echoStep_cases hready hstep
  rw [Echoes, hready.held_eq] at hechoes
  rw [Echoes, hnext.held_eq, hreceived, ← hechoes]
  rcases hcases with ⟨hwrite, hkept⟩ | ⟨n, hpos, hlt, hwrite, haccepted, hinput⟩
  · constructor
    · intro _
      exact hwrite
    · intro _
      rw [hkept, List.append_assoc]
  · constructor
    · intro hsame
      -- the accepted part is still held, so the lengths differ
      have hlength := congrArg List.length hsame
      rw [haccepted, hinput] at hlength
      simp only [List.length_append, List.length_take] at hlength hlt
      omega
    · intro hno
      exact absurd hno hwrite

/-! ## Runs of events -/

/-- On a run of a new connection under the default callbacks the echo is
faithful at every moment exactly when no `write` of the run accepts some, but
not all, of the bytes that it is given. -/
theorem echoes_always_iff_no_partial_write (dispatcher : ℕ)
    (name : List Char) (conn last : TcpConnection)
    (events : List ReadableEvent)
    (hcreate : create dispatcher name = .ok conn)
    (hrun : run echoStep conn.connectEstablished events = some last) :
    Always echoStep Echoes conn.connectEstablished events ↔
      Guarded echoStep NoPartialWrite conn.connectEstablished events := by
  have heq : fresh dispatcher name = conn :=
    Except.ok.inj ((create_eq_fresh dispatcher name).symm.trans hcreate)
  subst heq
  have hregions := @Buffer.fresh_regions Buffer.kInitialSize (by decide)
  have hready : (fresh dispatcher name).connectEstablished.EchoReady :=
    ⟨⟨rfl, rfl⟩, hregions.valid⟩
  have hechoes : (fresh dispatcher name).connectEstablished.Echoes := by
    rw [Echoes, hready.held_eq]
    exact hregions.content_eq
  exact always_iff_guarded
    (fun _ _ _ hready hstep => echoStep_ready hready hstep)
    (fun _ _ _ hready hechoes hstep => echoes_next_iff hready hechoes hstep)
    hready hechoes hrun

/-- Events with an empty write, a full one and one that would block. -/
def wholeWrites : List ReadableEvent :=
  [⟨.stored [1, 2], .wrote 0⟩, ⟨.stored [3], .wrote 3⟩,
    ⟨.stored [4], .failed .EWOULDBLOCK⟩]

theorem echoes_always_of_whole_writes :
    (Always echoStep Echoes (fresh 0 []).connectEstablished wholeWrites ↔
      Guarded echoStep NoPartialWrite (fresh 0 []).connectEstablished
        wholeWrites) ∧
    Guarded echoStep NoPartialWrite (fresh 0 []).connectEstablished
      wholeWrites := by
  have hsome : (run echoStep (fresh 0 []).connectEstablished
      wholeWrites).isSome = true := by
    decide +kernel
  obtain ⟨last, hrun⟩ := Option.isSome_iff_exists.mp hsome
  constructor
  · exact echoes_always_iff_no_partial_write 0 [] _ last wholeWrites
      (create_eq_fresh 0 []) hrun
  · decide +kernel

/-- The peer sends `ab`, of which one byte is echoed, and then `c`: the
connection answers `aabc`. -/
theorem partial_write_echoes_twice :
    ∃ last, run echoStep (fresh 0 []).connectEstablished
        [⟨.stored [97, 98], .wrote 1⟩, ⟨.stored [99], .wrote 3⟩] =
          some last ∧
      last.socket_.received = [97, 98, 99] ∧
      last.socket_.accepted = [97, 97, 98, 99] ∧
      ¬ last.socket_.accepted <+: last.socket_.received ∧ ¬ last.Echoes := by
  apply exists_run_of_eval
  decide +kernel

end TcpConnection

end EventServer.Network
