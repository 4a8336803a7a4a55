import EventServer.Network.Echo

/-!
# The assertions on the state of a connection

`send(Buffer*)` asserts that the connection is connected, and `handleClose`
that it has not been closed before.  Neither function is called by the user of
a connection: a readable event enters the first one through the message
callback, and the second one at end of file.  The events of a connection are
watched here together with the calls of `shutdown`, `forceClose` and
`forceCloseWithDelay` by whoever holds a pointer to it.

These calls leave the read event registered, so that a message that arrives
later still reaches `send(Buffer*)`.  The assertions hold exactly when nothing
of this kind arrives.
-/

namespace EventServer.Network

open EventServer.Support

/-- What happens to a connection on its loop thread. -/
inductive ConnectionEvent where
  | readable (result : ReadvResult) (write : WriteResult)
  | shutdown
  | forceClose
  | forceCloseWithDelay
  deriving DecidableEq

namespace ConnectionEvent

/-- A readable event with a positive count. -/
def IsMessage (e : ConnectionEvent) : Prop :=
  match e with
  | .readable (.stored bytes) _ => bytes ≠ []
  | _ => False

/-- A readable event with count zero. -/
def IsEndOfFile (e : ConnectionEvent) : Prop :=
  match e with
  | .readable (.stored bytes) _ => bytes = []
  | _ => False

/-- An end of file, or a call that asks to close the connection. -/
def IsClosing (e : ConnectionEvent) : Prop :=
  match e with
  | .readable (.stored bytes) _ => bytes = []
  | .readable (.failed _) _ => False
  | _ => True

instance : DecidablePred IsMessage
  | .readable (.stored bytes) _ => inferInstanceAs (Decidable (bytes ≠ []))
  | .readable (.failed _) _ | .shutdown | .forceClose | .forceCloseWithDelay =>
      isFalse id

instance : DecidablePred IsEndOfFile
  | .readable (.stored bytes) _ => inferInstanceAs (Decidable (bytes = []))
  | .readable (.failed _) _ | .shutdown | .forceClose | .forceCloseWithDelay =>
      isFalse id

instance : DecidablePred IsClosing
  | .readable (.stored bytes) _ => inferInstanceAs (Decidable (bytes = []))
  | .readable (.failed _) _ => isFalse id
  | .shutdown | .forceClose | .forceCloseWithDelay => isTrue trivial

end ConnectionEvent

/-- No message arrives after an event that closes the connection or asks to
close it, and end of file is reported once. -/
def Orderly (events : List ConnectionEvent) : Prop :=
  events.Pairwise fun earlier later =>
    (earlier.IsClosing → ¬ later.IsMessage) ∧
      (earlier.IsEndOfFile → ¬ later.IsEndOfFile)

instance : DecidablePred Orderly :=
  fun events => inferInstanceAs (Decidable (events.Pairwise _))

/-- A call of a function that asserts the state, with the state in which it
is entered. -/
inductive Entry where
  | send (state : StateE)
  | handleClose (state : StateE)
  deriving DecidableEq, Repr

namespace Entry

/-- The assertion at the head of the function holds. -/
def Allowed : Entry → Prop
  | .send state => state = .kConnected
  | .handleClose state => state = .kConnected ∨ state = .kDisconnecting

instance : DecidablePred Allowed
  | .send state => inferInstanceAs (Decidable (state = .kConnected))
  | .handleClose state =>
      inferInstanceAs
        (Decidable (state = .kConnected ∨ state = .kDisconnecting))

def isClose : Entry → Bool
  | .send _ => false
  | .handleClose _ => true

end Entry

/-- A connection, the calls that it has seen so far, and the fault that has
ended the program. -/
structure Watched where
  conn : TcpConnection
  entries : List Entry
  fault : Option Fault

namespace Watched

def start (conn : TcpConnection) : Watched := ⟨conn, [], none⟩

/-- The function that `handleRead` enters, by the value that `readFd`
returns. -/
def entered (conn : TcpConnection) (result : ReadvResult) : List Entry :=
  match conn.inputBuffer_.readFd result with
  | .ok (_, n, _) =>
      if 0 < n then [.send conn.state_]
      else if n = 0 then [.handleClose conn.state_]
      else []
  | .error _ => []

/-- `readFd` can return with this result, and `write` can give this answer. -/
def Possible (conn : TcpConnection) (result : ReadvResult)
    (write : WriteResult) : Prop :=
  result.bytes.length ≤ conn.inputBuffer_.iovCapacity ∧
    (conn.inputBuffer_.readFd result).isOk = true ∧
    write.acceptedLength ≤
      (conn.inputBuffer_.content ++ result.bytes).length

instance (conn : TcpConnection) (result : ReadvResult)
    (write : WriteResult) : Decidable (Possible conn result write) :=
  inferInstanceAs (Decidable (_ ∧ _))

def readable (w : Watched) (result : ReadvResult) (write : WriteResult) :
    Watched :=
  let entries := w.entries ++ entered w.conn result
  match w.conn.handleRead (TcpServer.doMessageDefault write) result with
  | .ok (next, _) => ⟨next, entries, w.fault⟩
  | .error fault => ⟨w.conn, entries, some fault⟩

/-- One event.  A program that has met a fault takes no further step. -/
def step (w : Watched) (e : ConnectionEvent) : Option Watched :=
  if w.fault = none then
    match e with
    | .readable result write =>
        if Possible w.conn result write
        then some (w.readable result write)
        else none
    | .shutdown => some { w with conn := w.conn.shutdown }
    | .forceClose => some { w with conn := w.conn.forceClose }
    | .forceCloseWithDelay =>
        some { w with conn := w.conn.forceCloseWithDelay }
  else none

/-- No assertion has failed, each call was allowed, and the connection was
closed at most once. -/
def AssertionsHold (w : Watched) : Prop :=
  w.fault = none ∧ (∀ e ∈ w.entries, e.Allowed) ∧
    w.entries.countP Entry.isClose ≤ 1

instance : DecidablePred AssertionsHold :=
  fun _ => inferInstanceAs (Decidable (_ ∧ _))

/-! ## One event -/

open TcpConnection

/-- On a connected connection the message callback returns, whatever `write`
answers. -/
theorem doMessageDefault_returns {filled : TcpConnection}
    {write : WriteResult} (hready : filled.EchoReady)
    (hstate : filled.state_ = .kConnected)
    (hwrite : write.acceptedLength ≤ filled.inputBuffer_.content.length) :
    ∃ next, TcpServer.doMessageDefault write filled = .ok next ∧
      next.EchoReady ∧ next.state_ = .kConnected := by
  cases write with
  | failed errno =>
      exact ⟨filled, sendBuffer_failed hstate hready.unqueued, hready, hstate⟩
  | wrote n =>
      have hn : n ≤ filled.inputBuffer_.content.length := hwrite
      refine ⟨_, sendBuffer_wrote hstate hready.unqueued hready.input_valid hn,
        ?_⟩
      by_cases hall : n = filled.inputBuffer_.content.length
      · rw [if_pos hall]
        exact ⟨⟨⟨hready.unqueued.output_eq, hready.unqueued.writeEvent_eq⟩,
          Buffer.retrieveAll_valid hready.input_valid⟩, hstate⟩
      · rw [if_neg hall]
        exact ⟨⟨⟨hready.unqueued.output_eq, hready.unqueued.writeEvent_eq⟩,
          hready.input_valid⟩, hstate⟩

/-- In any other state the assertion of `send(Buffer*)` fails. -/
theorem doMessageDefault_fails {filled : TcpConnection} (write : WriteResult)
    (hstate : filled.state_ ≠ .kConnected) :
    TcpServer.doMessageDefault write filled = .error .assertion := by
  simp [TcpServer.doMessageDefault, sendBuffer, ensure, hstate]

theorem readable_failed (w : Watched) (errno : Errno) (write : WriteResult) :
    w.readable (.failed errno) write = w := by
  simp [readable, entered, handleRead_failed, Buffer.readFd_failed]

/-- What `readFd` does to a ready connection when it returns. -/
theorem readFd_possible {conn : TcpConnection} {bytes : List UInt8}
    {write : WriteResult} (hready : conn.EchoReady)
    (hpossible : Possible conn (.stored bytes) write) :
    ∃ input : Buffer,
      conn.inputBuffer_.readFd (.stored bytes) =
        .ok (input, bytes.length, none) ∧
      EchoReady { conn with
        inputBuffer_ := input, socket_ := conn.socket_.deliver bytes } ∧
      write.acceptedLength ≤ input.content.length := by
  obtain ⟨hcap, hok, hwrite⟩ := hpossible
  simp only [ReadvResult.bytes] at hcap hwrite
  rcases Buffer.readFd_stored_cases hready.input_valid hcap with
    ⟨hfail, -⟩ | ⟨input, hread, hvalid, hcontent⟩
  · rw [hfail] at hok
    exact absurd hok (by decide)
  · refine ⟨input, hread, ⟨⟨hready.unqueued.output_eq,
      hready.unqueued.writeEvent_eq⟩, hvalid⟩, ?_⟩
    rw [hcontent]
    exact hwrite

/-- A message enters `send(Buffer*)` in the state of the connection. -/
theorem readable_message {w : Watched} {bytes : List UInt8}
    {write : WriteResult} (hready : w.conn.EchoReady)
    (hpossible : Possible w.conn (.stored bytes) write)
    (hmessage : bytes ≠ []) :
    if w.conn.state_ = .kConnected then
      ∃ next, next.EchoReady ∧ next.state_ = .kConnected ∧
        w.readable (.stored bytes) write =
          ⟨next, w.entries ++ [.send .kConnected], w.fault⟩
    else (w.readable (.stored bytes) write).fault = some .assertion := by
  obtain ⟨input, hread, hfilled, hwrite⟩ := readFd_possible hready hpossible
  have hpos : 0 < (bytes.length : ℤ) := by
    have := List.length_pos_iff.mpr hmessage
    omega
  by_cases hstate : w.conn.state_ = .kConnected
  · rw [if_pos hstate]
    obtain ⟨next, hsend, hnext, hnextState⟩ :=
      doMessageDefault_returns hfilled hstate hwrite
    refine ⟨next, hnext, hnextState, ?_⟩
    simp only [readable, entered, handleRead, hread, ok_bind, if_pos hpos,
      ReadvResult.bytes, hsend, pure_eq_ok]
    rw [hstate]
  · rw [if_neg hstate]
    have hfails : TcpServer.doMessageDefault write { w.conn with
        inputBuffer_ := input
        socket_ := w.conn.socket_.deliver bytes } = .error .assertion :=
      doMessageDefault_fails write hstate
    simp only [readable, entered, handleRead, hread, ok_bind, if_pos hpos,
      ReadvResult.bytes, hfails, error_bind]

/-- End of file enters `handleClose` in the state of the connection. -/
theorem readable_endOfFile {w : Watched} {write : WriteResult}
    (hready : w.conn.EchoReady)
    (hpossible : Possible w.conn (.stored []) write) :
    if w.conn.state_ = .kConnected ∨ w.conn.state_ = .kDisconnecting then
      ∃ next, next.EchoReady ∧ next.state_ = .kDisconnected ∧
        w.readable (.stored []) write =
          ⟨next, w.entries ++ [.handleClose w.conn.state_], w.fault⟩
    else (w.readable (.stored []) write).fault = some .assertion := by
  obtain ⟨input, hread, hfilled, -⟩ := readFd_possible hready hpossible
  by_cases hstate :
      w.conn.state_ = .kConnected ∨ w.conn.state_ = .kDisconnecting
  · rw [if_pos hstate]
    refine ⟨{ w.conn with
      inputBuffer_ := input
      socket_ := w.conn.socket_.deliver []
      state_ := .kDisconnected }, ⟨⟨hfilled.unqueued.output_eq,
      hfilled.unqueued.writeEvent_eq⟩, hfilled.input_valid⟩, rfl, ?_⟩
    simp [readable, entered, handleRead, hread, ReadvResult.bytes,
      handleClose, ensure, hstate, setState]
  · rw [if_neg hstate]
    simp [readable, entered, handleRead, hread, ReadvResult.bytes,
      handleClose, ensure, hstate]

/-- The invariant of a run as long as no assertion has failed. -/
structure Sound (w : Watched) : Prop where
  no_fault : w.fault = none
  ready : w.conn.EchoReady
  established : w.conn.state_ ≠ .kConnecting
  allowed : ∀ e ∈ w.entries, e.Allowed
  closes : w.entries.countP Entry.isClose =
    if w.conn.state_ = .kDisconnected then 1 else 0

theorem Sound.assertionsHold {w : Watched} (h : w.Sound) :
    w.AssertionsHold := by
  refine ⟨h.no_fault, h.allowed, ?_⟩
  rw [h.closes]
  split
  · exact le_refl 1
  · exact Nat.zero_le 1

/-- The state meets the assertion that the event leads to. -/
def Admits (state : StateE) (e : ConnectionEvent) : Prop :=
  (e.IsMessage → state = .kConnected) ∧
    (e.IsEndOfFile → state ≠ .kDisconnected)

/-- How an event moves the state of a connection. -/
structure Moves (state : StateE) (e : ConnectionEvent) (next : StateE) :
    Prop where
  connected : next = .kConnected ↔ state = .kConnected ∧ ¬ e.IsClosing
  disconnected : next = .kDisconnected ↔
    state = .kDisconnected ∨ e.IsEndOfFile

/-- The state after a call that asks to close the connection. -/
def closingState (state : StateE) : StateE :=
  if state = .kDisconnected then .kDisconnected else .kDisconnecting

theorem closing_eq {conn : TcpConnection}
    (hstate : conn.state_ ≠ .kConnecting) :
    conn.shutdown = conn.setState (closingState conn.state_) ∧
      conn.forceClose = conn.setState (closingState conn.state_) := by
  obtain ⟨_, _, state, _, _, _, _, _⟩ := conn
  cases state with
  | kConnecting => exact absurd rfl hstate
  | kDisconnected => exact ⟨rfl, rfl⟩
  | kConnected => exact ⟨rfl, rfl⟩
  | kDisconnecting => exact ⟨rfl, rfl⟩

theorem Sound.requestClose {w : Watched} (hw : w.Sound) :
    Sound { w with
      conn := w.conn.setState (closingState w.conn.state_) } := by
  refine ⟨hw.no_fault, ⟨⟨hw.ready.unqueued.output_eq,
    hw.ready.unqueued.writeEvent_eq⟩, hw.ready.input_valid⟩, ?_, hw.allowed, ?_⟩
  · simp only [setState, closingState]
    split
    · simp
    · simp
  · rw [hw.closes]
    simp [setState, closingState]

/-- A call that asks to close the connection keeps the invariant; every state
admits it. -/
theorem step_requestClose {w next : Watched} {e : ConnectionEvent}
    (hw : w.Sound) (he : e = .shutdown ∨ e = .forceClose ∨
      e = .forceCloseWithDelay) (hstep : w.step e = some next) :
    Admits w.conn.state_ e ∧ next.Sound ∧
      Moves w.conn.state_ e next.conn.state_ := by
  have hnext : { w with
      conn := w.conn.setState (closingState w.conn.state_) } = next := by
    rcases he with rfl | rfl | rfl
    · simpa [step, hw.no_fault, (closing_eq hw.established).1] using hstep
    · simpa [step, hw.no_fault, (closing_eq hw.established).2] using hstep
    · have hsame : w.conn.forceCloseWithDelay = w.conn.forceClose := rfl
      simpa [step, hw.no_fault, hsame, (closing_eq hw.established).2]
        using hstep
  have hkind : ¬ e.IsMessage ∧ ¬ e.IsEndOfFile ∧ e.IsClosing := by
    rcases he with rfl | rfl | rfl
    · exact ⟨id, id, trivial⟩
    · exact ⟨id, id, trivial⟩
    · exact ⟨id, id, trivial⟩
  obtain ⟨hmessage, heof, hclosing⟩ := hkind
  subst hnext
  refine ⟨⟨fun h => absurd h hmessage, fun h => absurd h heof⟩,
    hw.requestClose, ?_, ?_⟩
  · simp only [setState, closingState, hclosing, not_true, and_false, iff_false]
    split
    · simp
    · simp
  · simp [setState, closingState, heof]

/-- What one event does: either the state admits it, or an assertion fails. -/
def Outcome (w next : Watched) (e : ConnectionEvent) : Prop :=
  (Admits w.conn.state_ e ∧ next.Sound ∧
      Moves w.conn.state_ e next.conn.state_) ∨
    (¬ Admits w.conn.state_ e ∧ next.fault ≠ none)

theorem outcome_endOfFile {w : Watched} {write : WriteResult} (hw : w.Sound)
    (hpossible : Possible w.conn (.stored []) write) :
    w.Outcome (w.readable (.stored []) write)
      (.readable (.stored []) write) := by
  have hread := readable_endOfFile hw.ready hpossible
  split at hread
  next hstate =>
    obtain ⟨conn, hready, hclosed, heq⟩ := hread
    have hopen : w.conn.state_ ≠ .kDisconnected := by
      rcases hstate with h | h
      · simp [h]
      · simp [h]
    rw [heq]
    refine Or.inl ⟨⟨fun h => absurd rfl h, fun _ => hopen⟩,
      ⟨hw.no_fault, hready, by simp [hclosed], ?_, ?_⟩, ?_, ?_⟩
    · intro entry hentry
      rcases List.mem_append.mp hentry with h | h
      · exact hw.allowed entry h
      · rw [List.mem_singleton.mp h]
        exact hstate
    · simp [hw.closes, hopen, hclosed, Entry.isClose]
    · simp [hclosed, ConnectionEvent.IsClosing]
    · simp [hclosed, ConnectionEvent.IsEndOfFile]
  next hstate =>
    refine Or.inr ⟨?_, by simp [hread]⟩
    intro hadmits
    have hopen : w.conn.state_ ≠ .kDisconnected := hadmits.2 rfl
    have hestablished := hw.established
    cases h : w.conn.state_ with
    | kDisconnected => exact hopen h
    | kConnecting => exact hestablished h
    | kConnected => exact hstate (Or.inl h)
    | kDisconnecting => exact hstate (Or.inr h)

theorem outcome_message {w : Watched} {bytes : List UInt8}
    {write : WriteResult} (hw : w.Sound)
    (hpossible : Possible w.conn (.stored bytes) write)
    (hmessage : bytes ≠ []) :
    w.Outcome (w.readable (.stored bytes) write)
      (.readable (.stored bytes) write) := by
  have hread := readable_message hw.ready hpossible hmessage
  split at hread
  next hstate =>
    obtain ⟨conn, hready, hconnected, heq⟩ := hread
    rw [heq]
    refine Or.inl ⟨⟨fun _ => hstate, fun h => absurd h hmessage⟩,
      ⟨hw.no_fault, hready, by simp [hconnected], ?_, ?_⟩, ?_, ?_⟩
    · intro entry hentry
      rcases List.mem_append.mp hentry with h | h
      · exact hw.allowed entry h
      · rw [List.mem_singleton.mp h]
        rfl
    · simp [hw.closes, hstate, hconnected, Entry.isClose]
    · simp [hconnected, hstate, ConnectionEvent.IsClosing, hmessage]
    · simp [hconnected, hstate, ConnectionEvent.IsEndOfFile, hmessage]
  next hstate =>
    refine Or.inr ⟨?_, by simp [hread]⟩
    intro hadmits
    exact hstate (hadmits.1 hmessage)

theorem step_cases {w next : Watched} {e : ConnectionEvent} (hw : w.Sound)
    (hstep : w.step e = some next) : w.Outcome next e := by
  cases e with
  | shutdown => exact Or.inl (step_requestClose hw (by simp) hstep)
  | forceClose => exact Or.inl (step_requestClose hw (by simp) hstep)
  | forceCloseWithDelay => exact Or.inl (step_requestClose hw (by simp) hstep)
  | readable result write =>
      simp only [step, hw.no_fault, if_true] at hstep
      by_cases hpossible : Possible w.conn result write
      swap
      · simp [hpossible] at hstep
      rw [if_pos hpossible] at hstep
      obtain rfl := Option.some.inj hstep
      cases result with
      | failed errno =>
          rw [readable_failed]
          refine Or.inl ⟨⟨False.elim, False.elim⟩, hw, ?_, ?_⟩
          · simp [ConnectionEvent.IsClosing]
          · simp [ConnectionEvent.IsEndOfFile]
      | stored bytes =>
          by_cases hempty : bytes = []
          · subst hempty
            exact outcome_endOfFile hw hpossible
          · exact outcome_message hw hpossible hempty

/-! ## Runs of events -/

/-- The state after an event admits a later one exactly when the state before
it does, unless the two events are in the wrong order. -/
theorem Moves.admits_iff {state next : StateE} {e : ConnectionEvent}
    (h : Moves state e next) (later : ConnectionEvent) :
    Admits next later ↔ Admits state later ∧
      (e.IsClosing → ¬ later.IsMessage) ∧
      (e.IsEndOfFile → ¬ later.IsEndOfFile) := by
  simp only [Admits, h.connected, ne_eq, h.disconnected]
  tauto

theorem assertionsHold_iff {w last : Watched} {events : List ConnectionEvent}
    (hw : w.Sound) (hrun : run step w events = some last) :
    last.AssertionsHold ↔
      (∀ e ∈ events, Admits w.conn.state_ e) ∧ Orderly events := by
  induction events generalizing w with
  | nil =>
      have heq : w = last := by simpa using hrun
      subst heq
      simp [hw.assertionsHold, Orderly]
  | cons e rest ih =>
      obtain ⟨next, hstep, hrest⟩ := run_cons_eq_some_iff.mp hrun
      rcases step_cases hw hstep with ⟨hadmits, hnext, hmoves⟩ | ⟨hnot, hfault⟩
      · have hlater := hmoves.admits_iff
        rw [ih hnext hrest]
        simp only [hlater, Orderly, List.pairwise_cons, List.mem_cons,
          forall_eq_or_imp, hadmits, true_and]
        constructor
        · rintro ⟨hall, horder⟩
          exact ⟨fun l hl => (hall l hl).1, fun l hl => (hall l hl).2, horder⟩
        · rintro ⟨hall, hpairs, horder⟩
          exact ⟨fun l hl => ⟨hall l hl, hpairs l hl⟩, horder⟩
      · -- the program has ended, so this was the last event
        have hlast : next = last := by
          cases rest with
          | nil => simpa using hrest
          | cons e' rest' =>
              obtain ⟨other, hother, -⟩ := run_cons_eq_some_iff.mp hrest
              simp [step, hfault] at hother
        subst hlast
        constructor
        · intro hholds
          exact absurd hholds.1 hfault
        · rintro ⟨hall, -⟩
          exact absurd (hall e (by simp)) hnot

theorem start_sound {dispatcher : ℕ} {name : List Char}
    {conn : TcpConnection} (hcreate : create dispatcher name = .ok conn) :
    (start conn.connectEstablished).Sound := by
  have heq : fresh dispatcher name = conn :=
    Except.ok.inj ((create_eq_fresh dispatcher name).symm.trans hcreate)
  subst heq
  have hregions := @Buffer.fresh_regions Buffer.kInitialSize (by decide)
  refine ⟨rfl, ⟨⟨rfl, rfl⟩, hregions.valid⟩, ?_, ?_, rfl⟩
  · simp [start, connectEstablished, setState]
  · simp [start]

/-- On a run of a new connection under the default callbacks the assertions on
its state hold exactly when no message arrives after a call that asks to close
the connection or after end of file, and end of file is reported once. -/
theorem assertionsHold_iff_orderly (dispatcher : ℕ) (name : List Char)
    (conn : TcpConnection) (last : Watched) (events : List ConnectionEvent)
    (hcreate : create dispatcher name = .ok conn)
    (hrun : run step (start conn.connectEstablished) events = some last) :
    last.AssertionsHold ↔ Orderly events := by
  have hadmits : ∀ e : ConnectionEvent, Admits .kConnected e :=
    fun e => ⟨fun _ => rfl, fun _ => by decide⟩
  rw [assertionsHold_iff (start_sound hcreate) hrun]
  exact and_iff_right fun e _ => hadmits e

/-- A message, a failed `readv`, a call of `shutdown` and the end of file. -/
def orderlyEvents : List ConnectionEvent :=
  [.readable (.stored [1, 2]) (.wrote 1),
    .readable (.failed (.other 4)) (.wrote 0), .shutdown, .forceClose,
    .readable (.stored []) (.wrote 0), .forceCloseWithDelay]

theorem assertionsHold_of_orderlyEvents :
    ∃ last, run step (start (fresh 0 []).connectEstablished) orderlyEvents =
        some last ∧
      (last.AssertionsHold ↔ Orderly orderlyEvents) ∧
      Orderly orderlyEvents := by
  have hsome : (run step (start (fresh 0 []).connectEstablished)
      orderlyEvents).isSome = true := by
    decide +kernel
  obtain ⟨last, hrun⟩ := Option.isSome_iff_exists.mp hsome
  refine ⟨last, hrun, ?_, by decide⟩
  exact assertionsHold_iff_orderly 0 [] _ last orderlyEvents
    (create_eq_fresh 0 []) hrun

/-- The peer sends one byte after a call of `shutdown`: `send(Buffer*)` is
entered in state `kDisconnecting`. -/
theorem message_after_shutdown_fails :
    ∃ last, run step (start (fresh 0 []).connectEstablished)
        [.shutdown, .readable (.stored [97]) (.wrote 1)] = some last ∧
      last.entries = [.send .kDisconnecting] ∧
      last.fault = some .assertion ∧ ¬ last.AssertionsHold := by
  apply exists_run_of_eval
  decide +kernel

end Watched

end EventServer.Network
