import Mathlib.Data.List.AList
import EventServer.Network.InetAddress
import EventServer.Network.TcpConnection
import EventServer.Thread.EventLoopThreadPool

/-!
# The TCP server

`TcpServer` lives on two kinds of threads.  The thread of its own dispatcher
accepts connections: `newConnection` builds a connection, posts
`connectEstablished` to an io loop, and stores the connection in
`connections_`.  The threads of the io loops run the posted tasks and the read
events, and with them the close callback, which is `removeConnection`.

The two threads share `connections_`, so the functions that work on the map
are cut into their separate accesses: an insertion is `operator[]` followed by
an assignment to the slot, a removal is `operator[]` followed by `erase`.
-/

namespace EventServer.Network

open EventServer.Support
open EventServer.Thread

/-! ## The state -/

/-- A connection object, by its position among all objects ever built. -/
abbrev ConnId := ℕ

/-- A `shared_ptr<TcpConnection>`. -/
abbrev TcpConnectionPtr := Option ConnId

/-- `std::map<string, TcpConnectionPtr>`. -/
abbrev ConnectionMap := AList fun _ : List Char => TcpConnectionPtr

/-- `operator[]`, which inserts a null pointer under a new key. -/
def ConnectionMap.subscript (m : ConnectionMap) (key : List Char) :
    TcpConnectionPtr × ConnectionMap :=
  match m.lookup key with
  | some p => (p, m)
  | none => (none, m.insert key none)

/-- The threads that run the server: the one of its dispatcher, and one for
each io loop. -/
inductive ServerThread where
  | acceptor
  | io (loop : ℕ)
  deriving DecidableEq, Repr

/-- The members of the server that are documented as only used in the loop
thread. -/
inductive ServerField where
  | nextConnId_
  | connections_
  deriving DecidableEq, Repr

/-- One read or write of a member. -/
structure Access where
  thread : ServerThread
  field : ServerField
  deriving DecidableEq, Repr

/-- How far the acceptor is inside `newConnection`: it has posted
`connectEstablished`, or it has obtained the slot to which it will assign. -/
inductive AcceptorPc where
  | idle
  | posted (c : ConnId)
  | assigning (c : ConnId)
  deriving DecidableEq, Repr

/-- What an io loop is doing: `removing c temp` is `removeConnection(c)` after
it has read the pointer `temp` from the map. -/
inductive LoopPc where
  | idle
  | removing (c : ConnId) (temp : TcpConnectionPtr)
  deriving DecidableEq, Repr

/-- A call of `removeConnection`: the entry that it finds under the name of
its connection. -/
structure Lookup where
  conn : ConnId
  found : Option TcpConnectionPtr
  deriving DecidableEq, Repr

/-- A call of `erase` in `removeConnection`: the entry that it removes. -/
structure Erasure where
  conn : ConnId
  removed : Option TcpConnectionPtr
  deriving DecidableEq, Repr

/-- The server, its io loops, and the history of the map. -/
structure TcpServer where
  ipPort_ : List Char
  name_ : List Char
  threadPool_ : EventLoopThreadPool
  nextConnId_ : ℤ
  connections_ : ConnectionMap
  conns : List TcpConnection
  acceptorPc : AcceptorPc
  tasks : ℕ → List ConnId
  loopPc : ℕ → LoopPc
  accesses : List Access
  lookups : List Lookup
  erasures : List Erasure

namespace TcpServer

/-- The constructor. -/
def create (listenAddr : InetAddress) (nameArg : List Char)
    (threadNum : ℕ) : TcpServer where
  ipPort_ := listenAddr.toIpPort
  name_ := nameArg
  threadPool_ := ⟨threadNum, 0⟩
  nextConnId_ := 1
  connections_ := ∅
  conns := []
  acceptorPc := .idle
  tasks := fun _ => []
  loopPc := fun _ => .idle
  accesses := []
  lookups := []
  erasures := []

/-- The name that `newConnection` builds from the connection counter. -/
def connName (s : TcpServer) (id : ℤ) : List Char :=
  s.name_ ++ snprintf 64 ('-' :: (s.ipPort_ ++ '#' :: decimalInt id))

def access (s : TcpServer) (thread : ServerThread) (field : ServerField) :
    TcpServer :=
  { s with accesses := s.accesses ++ [⟨thread, field⟩] }

/-! ## Default callbacks -/

def doWriteCompleteDefault : WriteCompleteCallback := Buffer.retrieveAll

def doMessageDefault (write : WriteResult) (conn : TcpConnection) :
    Except Fault TcpConnection :=
  conn.sendBuffer (some doWriteCompleteDefault) conn.inputBuffer_ write

/-! ## Steps of the acceptor -/

/-- `newConnection` up to the post of `connectEstablished`.  A pool without
loops yields a null pointer, through which `post` is called.  `++nextConnId_`
wraps instead of failing, so that the last name is built before its overflow. -/
def newConnection (s : TcpServer) : Option TcpServer :=
  match s.acceptorPc, s.threadPool_.getNextLoop with
  | .idle, (some ioLoop, pool) =>
      match TcpConnection.create ioLoop (s.connName s.nextConnId_) with
      | .ok conn =>
          let c := s.conns.length
          some {
            (s.access .acceptor .nextConnId_).access .acceptor .nextConnId_ with
            threadPool_ := pool
            nextConnId_ := wrapInt (s.nextConnId_ + 1)
            conns := s.conns ++ [conn]
            acceptorPc := .posted c
            tasks := Function.update s.tasks ioLoop (s.tasks ioLoop ++ [c]) }
      | .error _ => none
  | _, _ => none

/-- `connections_[connName]` in `newConnection`. -/
def obtainSlot (s : TcpServer) : Option TcpServer :=
  match s.acceptorPc with
  | .posted c =>
      (s.conns[c]?).map fun conn =>
        { s.access .acceptor .connections_ with
          connections_ := (s.connections_.subscript conn.name_).2
          acceptorPc := .assigning c }
  | _ => none

/-- The assignment of the connection to its slot. -/
def assignSlot (s : TcpServer) : Option TcpServer :=
  match s.acceptorPc with
  | .assigning c =>
      (s.conns[c]?).map fun conn =>
        { s.access .acceptor .connections_ with
          connections_ := s.connections_.insert conn.name_ (some c)
          acceptorPc := .idle }
  | _ => none

/-! ## Steps of an io loop -/

/-- Run the next posted `connectEstablished`. -/
def runTask (s : TcpServer) (l : ℕ) : Option TcpServer :=
  match s.loopPc l, s.tasks l with
  | .idle, c :: rest =>
      (s.conns[c]?).map fun conn =>
        { s with
          conns := s.conns.set c conn.connectEstablished
          tasks := Function.update s.tasks l rest }
  | _, _ => none

/-- The connection still exists: the map, the acceptor or a posted task holds
a pointer to it. -/
def Referenced (s : TcpServer) (l : ℕ) (c : ConnId) : Prop :=
  some c ∈ s.connections_.entries.map (fun entry => entry.2) ∨
    s.acceptorPc = .posted c ∨ s.acceptorPc = .assigning c ∨ c ∈ s.tasks l

instance (s : TcpServer) (l : ℕ) (c : ConnId) :
    Decidable (s.Referenced l c) := by
  unfold Referenced
  infer_instance

/-- `removeConnection(c)` up to its first access to the map. -/
def beginRemove (s : TcpServer) (l : ℕ) (c : ConnId)
    (conn : TcpConnection) : TcpServer :=
  let slot := s.connections_.subscript conn.name_
  { s.access (.io l) .connections_ with
    connections_ := slot.2
    loopPc := Function.update s.loopPc l (.removing c slot.1)
    lookups := s.lookups ++ [⟨c, s.connections_.lookup conn.name_⟩] }

/-- A readable event of connection `c` on its loop, and with end of file the
first half of the removal of the connection. -/
def readable (s : TcpServer) (l : ℕ) (c : ConnId) (result : ReadvResult)
    (write : WriteResult) : Option TcpServer :=
  match s.loopPc l, s.conns[c]? with
  | .idle, some conn =>
      if conn.dispatcher_ = l ∧ conn.readEventPtr_ = true ∧ s.Referenced l c
      then
        match conn.handleRead (doMessageDefault write) result with
        | .ok (conn', false) => some { s with conns := s.conns.set c conn' }
        | .ok (conn', true) =>
            some (beginRemove { s with conns := s.conns.set c conn' } l c conn')
        | .error _ => none
      else none
  | _, _ => none

/-- The second half of `removeConnection`: it uses the pointer that it has
read, erases the entry and asserts that there was one. -/
def finishRemove (s : TcpServer) (l : ℕ) : Option TcpServer :=
  match s.loopPc l with
  | .removing c (some _) =>
      (s.conns[c]?).bind fun conn =>
        if (s.connections_.lookup conn.name_).isSome then
          some { s.access (.io l) .connections_ with
            connections_ := s.connections_.erase conn.name_
            loopPc := Function.update s.loopPc l .idle
            erasures := s.erasures ++
              [⟨c, s.connections_.lookup conn.name_⟩] }
        else none
  | _ => none

/-! ## The whole system -/

inductive Action where
  | newConnection
  | obtainSlot
  | assignSlot
  | runTask (l : ℕ)
  | readable (l : ℕ) (c : ConnId) (result : ReadvResult) (write : WriteResult)
  | finishRemove (l : ℕ)
  deriving DecidableEq

/-- The step function: there is no next state when the action is not enabled
or when it ends the program. -/
def step (s : TcpServer) : Action → Option TcpServer
  | .newConnection => s.newConnection
  | .obtainSlot => s.obtainSlot
  | .assignSlot => s.assignSlot
  | .runTask l => s.runTask l
  | .readable l c result write => s.readable l c result write
  | .finishRemove l => s.finishRemove l

end TcpServer

end EventServer.Network
