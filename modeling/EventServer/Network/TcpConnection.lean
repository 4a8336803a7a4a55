import EventServer.Network.BufferRegions

/-!
# A TCP connection

The functions of `TcpConnection.cc` that move bytes or change the state of a
connection, as they run on the thread of its loop.  The kernel answers each
`readv` and `write`; what it delivered and what it accepted is recorded in the
socket, so that the bytes on both sides of the connection can be compared.
-/

namespace EventServer.Network

open EventServer.Support

/-- `TcpConnection::StateE`. -/
inductive StateE where
  | kDisconnected
  | kConnecting
  | kConnected
  | kDisconnecting
  deriving DecidableEq, Repr

/-- The kernel's view of a connected socket: all bytes that `readv` has
delivered and all bytes that `write` has accepted, in order. -/
structure Socket where
  received : List UInt8
  accepted : List UInt8
  deriving DecidableEq, Repr

/-- The kernel accepts bytes. -/
def Socket.accept (socket : Socket) (bytes : List UInt8) : Socket :=
  { socket with accepted := socket.accepted ++ bytes }

/-- The kernel delivers bytes. -/
def Socket.deliver (socket : Socket) (bytes : List UInt8) : Socket :=
  { socket with received := socket.received ++ bytes }

/-- A connection.  `dispatcher_` is the index of its io loop, and the event
pointers only matter by being null or not. -/
structure TcpConnection where
  dispatcher_ : ℕ
  name_ : List Char
  state_ : StateE
  socket_ : Socket
  inputBuffer_ : Buffer
  outputBuffer_ : Buffer
  readEventPtr_ : Bool
  writeEventPtr_ : Bool
  deriving DecidableEq, Repr

/-- What a write-complete callback does with the input buffer.  It is the last
thing that its caller does, so calls of `send` made by the callback are simply
the next calls on the connection. -/
abbrev WriteCompleteCallback := Buffer → Buffer

namespace TcpConnection

/-- The constructor. -/
def create (dispatcher : ℕ) (name : List Char) :
    Except Fault TcpConnection := do
  let inputBuffer ← Buffer.create Buffer.kInitialSize
  let outputBuffer ← Buffer.create Buffer.kInitialSize
  return {
    dispatcher_ := dispatcher
    name_ := name
    state_ := .kConnecting
    socket_ := ⟨[], []⟩
    inputBuffer_ := inputBuffer
    outputBuffer_ := outputBuffer
    readEventPtr_ := false
    writeEventPtr_ := false }

def setState (conn : TcpConnection) (s : StateE) : TcpConnection :=
  { conn with state_ := s }

/-- Register the read event; the state is set without looking at the old
one. -/
def connectEstablished (conn : TcpConnection) : TcpConnection :=
  { conn.setState .kConnected with readEventPtr_ := true }

/-! ## Sending -/

/-- `send(const StringPiece&)`.  The body of its conditional is commented
out. -/
def sendStringPiece (conn : TcpConnection) (_message : List UInt8) :
    TcpConnection :=
  if conn.state_ = .kConnected then conn else conn

/-- `send(const void*, int)`. -/
def sendData (conn : TcpConnection) (data : List UInt8) : TcpConnection :=
  conn.sendStringPiece data

def invokeWriteComplete (callback : Option WriteCompleteCallback)
    (conn : TcpConnection) : TcpConnection :=
  match callback with
  | some f => { conn with inputBuffer_ := f conn.inputBuffer_ }
  | none => conn

/-- `send(Buffer*)`, given the answer of `write`.  What is left after a short
write is only counted: the statement that would append it to `outputBuffer_`
is commented out. -/
def sendBuffer (writeCompleteCallback_ : Option WriteCompleteCallback)
    (conn : TcpConnection) (buf : Buffer) (write : WriteResult) :
    Except Fault TcpConnection := do
  ensure (conn.state_ = .kConnected) .assertion
  let len := buf.readableBytes
  let data := buf.peekBytes len
  if conn.state_ = .kDisconnected then
    return conn
  if conn.writeEventPtr_ = false ∧ conn.outputBuffer_.readableBytes = 0 then
    match write with
    | .wrote nwrote =>
        let remaining := sizeSub len nwrote
        let sent :=
          { conn with socket_ := conn.socket_.accept (data.take nwrote) }
        let sent :=
          if remaining = 0
          then invokeWriteComplete writeCompleteCallback_ sent
          else sent
        ensure (remaining ≤ len) .assertion
        return sent
    | .failed _ => return conn
  else
    return conn

/-! ## Events -/

/-- `handleWrite`, given the answer of `write`. -/
def handleWrite (writeCompleteCallback_ : Option WriteCompleteCallback)
    (conn : TcpConnection) (write : WriteResult) :
    Except Fault TcpConnection :=
  if conn.writeEventPtr_ then
    let data := conn.outputBuffer_.peekBytes conn.outputBuffer_.readableBytes
    match write with
    | .wrote n =>
        if 0 < n then do
          let outputBuffer ← conn.outputBuffer_.retrieve n
          let flushed := { conn with
            socket_ := conn.socket_.accept (data.take n)
            outputBuffer_ := outputBuffer }
          if outputBuffer.readableBytes = 0
          then return invokeWriteComplete writeCompleteCallback_ flushed
          else return flushed
        else return conn
    | .failed _ => return conn
  else return conn

/-- `handleClose` up to its call of `closeCallback_`, which is made with the
returned connection. -/
def handleClose (conn : TcpConnection) : Except Fault TcpConnection := do
  ensure (conn.state_ = .kConnected ∨ conn.state_ = .kDisconnecting) .assertion
  return conn.setState .kDisconnected

/-- `handleRead`, given the answer of `readv`.  The flag tells whether
`closeCallback_` is called.  An error of `readv` is only logged. -/
def handleRead
    (messageCallback_ : TcpConnection → Except Fault TcpConnection)
    (conn : TcpConnection) (result : ReadvResult) :
    Except Fault (TcpConnection × Bool) := do
  let (inputBuffer, n, _savedErrno) ← conn.inputBuffer_.readFd result
  let filled := { conn with
    inputBuffer_ := inputBuffer
    socket_ := conn.socket_.deliver result.bytes }
  if 0 < n then
    let conn ← messageCallback_ filled
    return (conn, false)
  else if n = 0 then
    let conn ← filled.handleClose
    return (conn, true)
  else
    return (filled, false)

/-! ## Closing -/

/-- `shutdown`.  The statement that would shut the socket down is commented
out. -/
def shutdown (conn : TcpConnection) : TcpConnection :=
  if conn.state_ = .kConnected then conn.setState .kDisconnecting else conn

/-- `forceClose`. -/
def forceClose (conn : TcpConnection) : TcpConnection :=
  if conn.state_ = .kConnected ∨ conn.state_ = .kDisconnecting
  then conn.setState .kDisconnecting
  else conn

/-- `forceCloseWithDelay`.  Only statements that are commented out use the
delay. -/
def forceCloseWithDelay (conn : TcpConnection) : TcpConnection :=
  if conn.state_ = .kConnected ∨ conn.state_ = .kDisconnecting
  then conn.setState .kDisconnecting
  else conn

/-! ## What the functions do -/

/-- What the constructor builds. -/
def fresh (dispatcher : ℕ) (name : List Char) : TcpConnection where
  dispatcher_ := dispatcher
  name_ := name
  state_ := .kConnecting
  socket_ := ⟨[], []⟩
  inputBuffer_ := Buffer.fresh Buffer.kInitialSize
  outputBuffer_ := Buffer.fresh Buffer.kInitialSize
  readEventPtr_ := false
  writeEventPtr_ := false

theorem create_eq_fresh (dispatcher : ℕ) (name : List Char) :
    create dispatcher name = .ok (fresh dispatcher name) := by
  have hbuffer : Buffer.create Buffer.kInitialSize =
      .ok (Buffer.fresh Buffer.kInitialSize) :=
    Buffer.create_eq_fresh (by decide)
  simp [create, hbuffer, fresh]

/-- Nothing waits to be written: the output buffer is as the constructor left
it, and no write event is registered. -/
structure Unqueued (conn : TcpConnection) : Prop where
  output_eq : conn.outputBuffer_ = Buffer.fresh Buffer.kInitialSize
  writeEvent_eq : conn.writeEventPtr_ = false

theorem Unqueued.output_empty {conn : TcpConnection} (h : conn.Unqueued) :
    conn.outputBuffer_.readableBytes = 0 := by
  rw [h.output_eq]
  decide

theorem Unqueued.output_content {conn : TcpConnection} (h : conn.Unqueued) :
    conn.outputBuffer_.content = [] := by
  rw [h.output_eq]
  decide

theorem sendBuffer_eq_ok {callback : Option WriteCompleteCallback}
    {conn next : TcpConnection} {buf : Buffer} {write : WriteResult}
    (h : conn.sendBuffer callback buf write = .ok next) :
    conn.state_ = .kConnected := by
  unfold sendBuffer at h
  obtain ⟨_, hstate, _⟩ := bind_eq_ok_iff.mp h
  exact ensure_eq_ok_iff.mp hstate

theorem sendBuffer_wrote {callback : Option WriteCompleteCallback}
    {conn : TcpConnection} {buf : Buffer} {n : ℕ}
    (hstate : conn.state_ = .kConnected) (hqueue : conn.Unqueued)
    (hbuf : buf.Valid) (hn : n ≤ buf.content.length) :
    conn.sendBuffer callback buf (.wrote n) =
      let sent :=
        { conn with socket_ := conn.socket_.accept (buf.content.take n) }
      .ok (if n = buf.content.length
        then invokeWriteComplete callback sent else sent) := by
  obtain ⟨front, back, hregions⟩ := hbuf.exists_regions
  have hlen := hregions.readableBytes_eq
  have hdata : buf.peekBytes buf.content.length = buf.content := by
    rw [hregions.peekBytes_eq (le_refl _), List.take_length]
  have hremaining : sizeSub buf.content.length n = buf.content.length - n := by
    have := hregions.length_lt
    exact sizeSub_eq hn (by omega)
  have hle : buf.content.length - n ≤ buf.content.length := Nat.sub_le _ _
  have hzero : buf.content.length - n = 0 ↔ n = buf.content.length := by omega
  simp only [sendBuffer, hlen, hdata, hremaining]
  rw [ensure_of hstate, ensure_of hle]
  simp [hstate, hqueue.writeEvent_eq, hqueue.output_empty, hzero]

theorem sendBuffer_failed {callback : Option WriteCompleteCallback}
    {conn : TcpConnection} {buf : Buffer} {errno : Errno}
    (hstate : conn.state_ = .kConnected) (hqueue : conn.Unqueued) :
    conn.sendBuffer callback buf (.failed errno) = .ok conn := by
  simp only [sendBuffer]
  rw [ensure_of hstate]
  simp [hstate, hqueue.writeEvent_eq, hqueue.output_empty]

theorem invokeWriteComplete_frame (callback : Option WriteCompleteCallback)
    (conn : TcpConnection) :
    ∃ input, invokeWriteComplete callback conn =
      { conn with inputBuffer_ := input } := by
  cases callback with
  | none => exact ⟨conn.inputBuffer_, rfl⟩
  | some f => exact ⟨f conn.inputBuffer_, rfl⟩

/-- Whatever `write` answers, `send(Buffer*)` changes nothing but the input
buffer and what the kernel has accepted. -/
theorem sendBuffer_frame {callback : Option WriteCompleteCallback}
    {conn next : TcpConnection} {buf : Buffer} {write : WriteResult}
    (h : conn.sendBuffer callback buf write = .ok next) :
    ∃ input socket, next =
      { conn with inputBuffer_ := input, socket_ := socket } := by
  have hsame : conn = { conn with
      inputBuffer_ := conn.inputBuffer_, socket_ := conn.socket_ } := rfl
  have hstate := sendBuffer_eq_ok h
  simp only [sendBuffer] at h
  rw [ensure_of hstate, ok_bind, if_neg (by simp [hstate])] at h
  by_cases hempty : conn.writeEventPtr_ = false ∧
      conn.outputBuffer_.readableBytes = 0
  · rw [if_pos hempty] at h
    cases write with
    | failed errno => exact ⟨_, _, (Except.ok.inj h).symm.trans hsame⟩
    | wrote n =>
        obtain ⟨_, -, hnext⟩ := bind_eq_ok_iff.mp h
        have heq := Except.ok.inj hnext
        by_cases hall : sizeSub buf.readableBytes n = 0
        · rw [if_pos hall] at heq
          let data := (buf.peekBytes buf.readableBytes).take n
          obtain ⟨input, hinput⟩ := invokeWriteComplete_frame callback
            { conn with socket_ := conn.socket_.accept data }
          exact ⟨input, _, heq.symm.trans hinput⟩
        · rw [if_neg hall] at heq
          exact ⟨_, _, heq.symm⟩
  · rw [if_neg hempty] at h
    exact ⟨_, _, (Except.ok.inj h).symm.trans hsame⟩

theorem handleClose_eq_ok {conn next : TcpConnection}
    (h : conn.handleClose = .ok next) :
    (conn.state_ = .kConnected ∨ conn.state_ = .kDisconnecting) ∧
      next = conn.setState .kDisconnected := by
  obtain ⟨_, hstate, hnext⟩ := bind_eq_ok_iff.mp h
  have heq : conn.setState .kDisconnected = next := by simpa using hnext
  exact ⟨ensure_eq_ok_iff.mp hstate, heq.symm⟩

/-- The three ways through `handleRead`: end of file, a failed `readv`, and a
message. -/
theorem handleRead_cases
    {callback : TcpConnection → Except Fault TcpConnection}
    {conn next : TcpConnection} {result : ReadvResult} {closed : Bool}
    (h : conn.handleRead callback result = .ok (next, closed)) :
    ∃ input,
      let filled := { conn with
        inputBuffer_ := input, socket_ := conn.socket_.deliver result.bytes }
      (result = .stored [] ∧ closed = true ∧ filled.handleClose = .ok next) ∨
      (result ≠ .stored [] ∧ closed = false ∧
        (next = filled ∨ callback filled = .ok next)) := by
  obtain ⟨⟨input, n, errno⟩, hfd, hrest⟩ := bind_eq_ok_iff.mp h
  have hn := Buffer.readFd_result hfd
  refine ⟨input, ?_⟩
  simp only at hrest ⊢
  by_cases hpos : 0 < n
  · rw [if_pos hpos] at hrest
    obtain ⟨conn', hcallback, hpair⟩ := bind_eq_ok_iff.mp hrest
    have heq : conn' = next ∧ false = closed := by simpa using hpair
    obtain ⟨rfl, rfl⟩ := heq
    refine Or.inr ⟨?_, rfl, Or.inr hcallback⟩
    rintro rfl
    simp [hn] at hpos
  · rw [if_neg hpos] at hrest
    by_cases hzero : n = 0
    · rw [if_pos hzero] at hrest
      obtain ⟨conn', hclose, hpair⟩ := bind_eq_ok_iff.mp hrest
      have heq : conn' = next ∧ true = closed := by simpa using hpair
      obtain ⟨rfl, rfl⟩ := heq
      refine Or.inl ⟨?_, rfl, hclose⟩
      cases result with
      | failed errno => simp [hn] at hzero
      | stored bytes =>
          have hlength : (bytes.length : ℤ) = 0 := hn.symm.trans hzero
          have hempty : bytes = [] := by simpa using hlength
          rw [hempty]
    · rw [if_neg hzero] at hrest
      obtain ⟨heq, hclosed⟩ := Prod.mk.inj (Except.ok.inj hrest)
      refine Or.inr ⟨?_, hclosed.symm, Or.inl heq.symm⟩
      rintro rfl
      simp [hn] at hzero

/-- `handleRead` after a failed `readv`. -/
theorem handleRead_failed
    (callback : TcpConnection → Except Fault TcpConnection)
    (conn : TcpConnection) (errno : Errno) :
    conn.handleRead callback (.failed errno) = .ok (conn, false) := by
  simp [handleRead, Buffer.readFd_failed, ReadvResult.bytes, Socket.deliver]

/-- `handleRead` after a `readv` that stored bytes, or that met the end of
file. -/
theorem handleRead_stored
    {callback : TcpConnection → Except Fault TcpConnection}
    {conn next : TcpConnection} {bytes : List UInt8} {closed : Bool}
    (hinput : conn.inputBuffer_.Valid)
    (hcap : bytes.length ≤ conn.inputBuffer_.iovCapacity)
    (h : conn.handleRead callback (.stored bytes) = .ok (next, closed)) :
    ∃ input : Buffer, input.Valid ∧
      input.content = conn.inputBuffer_.content ++ bytes ∧
      let filled := { conn with
        inputBuffer_ := input, socket_ := conn.socket_.deliver bytes }
      if bytes = []
      then filled.handleClose = .ok next ∧ closed = true
      else callback filled = .ok next ∧ closed = false := by
  rcases Buffer.readFd_stored_cases hinput hcap with
    ⟨hfail, -⟩ | ⟨input, hread, hvalid, hcontent⟩
  · simp [handleRead, hfail] at h
  · refine ⟨input, hvalid, hcontent, ?_⟩
    simp only [handleRead, hread, ok_bind, ReadvResult.bytes] at h
    by_cases hempty : bytes = []
    · subst hempty
      obtain ⟨conn', hclose, hpair⟩ := bind_eq_ok_iff.mp h
      have heq : conn' = next ∧ true = closed := by simpa using hpair
      exact ⟨heq.1 ▸ hclose, heq.2.symm⟩
    · have hpos : 0 < (bytes.length : ℤ) := by
        have := List.length_pos_iff.mpr hempty
        omega
      rw [if_pos hpos] at h
      obtain ⟨conn', hcallback, hpair⟩ := bind_eq_ok_iff.mp h
      have heq : conn' = next ∧ false = closed := by simpa using hpair
      simp only [if_neg hempty]
      exact ⟨heq.1 ▸ hcallback, heq.2.symm⟩

end TcpConnection

end EventServer.Network
