import Mathlib.Data.Multiset.Count
import EventServer.Support.Machine
import EventServer.Support.Run

/-!
# The connector

A `Connector` makes a socket for each attempt to connect, and passes it on by
its number.  The calls that would deliver events to it are commented out in
the source; here the handlers may be called at any moment.
-/

namespace EventServer.Network

open EventServer.Support

/-- `savedErrno` in `Connector::connect`. -/
inductive ConnectErrno where
  | zero
  | EINPROGRESS
  | EINTR
  | EISCONN
  | EAGAIN
  | EADDRINUSE
  | EADDRNOTAVAIL
  | ECONNREFUSED
  | ENETUNREACH
  | EACCES
  | EPERM
  | EAFNOSUPPORT
  | EALREADY
  | EBADF
  | EFAULT
  | ENOTSOCK
  | other (code : ℕ)
  deriving DecidableEq, Repr

/-- The values for which `Connector::connect` calls `connecting`. -/
def ConnectErrno.isKept : ConnectErrno → Bool
  | .zero | .EINPROGRESS | .EINTR | .EISCONN => true
  | _ => false

/-- `Connector::States`. -/
inductive ConnectorState where
  | kDisconnected
  | kConnecting
  | kConnected
  deriving DecidableEq, Repr

/-- What `getSocketError` and `isSelfConnect` return. -/
structure SocketQuery where
  err : ℕ
  isSelfConnect : Bool
  deriving DecidableEq, Repr

def kMaxRetryDelayMs : ℕ := 30 * 1000
def kInitRetryDelayMs : ℕ := 500

/-- A connector.  `created`, `handed` and `closed` are the histories of the
descriptors that it has got from `socket`, passed to `newConnectionCallback_`
and closed.  `strays` are the descriptors that it has named in some other call
without having them open. -/
structure Connector where
  connect_ : Bool
  state_ : ConnectorState
  retryDelayMs_ : ℕ
  created : Multiset ℤ
  handed : Multiset ℤ
  closed : Multiset ℤ
  strays : List ℤ
  fault : Option Fault
  deriving DecidableEq

namespace Connector

/-- The constructor. -/
def create : Connector where
  connect_ := false
  state_ := .kDisconnected
  retryDelayMs_ := kInitRetryDelayMs
  created := 0
  handed := 0
  closed := 0
  strays := []
  fault := none

/-- The connector has made the descriptor, and has neither closed it nor
passed it on. -/
def IsOpen (s : Connector) (sockfd : ℤ) : Prop :=
  s.handed.count sockfd + s.closed.count sockfd < s.created.count sockfd

instance (s : Connector) (sockfd : ℤ) : Decidable (s.IsOpen sockfd) :=
  inferInstanceAs (Decidable (_ < _))

/-! ## Calls on a descriptor -/

/-- `sockets::close`.  A negative number is no descriptor. -/
def close (s : Connector) (sockfd : ℤ) : Connector :=
  if sockfd < 0 then s else { s with closed := sockfd ::ₘ s.closed }

/-- `sockets::getSocketError` and `sockets::isSelfConnect`. -/
def query (s : Connector) (sockfd : ℤ) : Connector :=
  if s.IsOpen sockfd then s else { s with strays := s.strays ++ [sockfd] }

/-- The call of `newConnectionCallback_`. -/
def newConnectionCallback (s : Connector) (sockfd : ℤ) : Connector :=
  { s with handed := sockfd ::ₘ s.handed }

/-! ## The functions -/

def start (s : Connector) : Connector := { s with connect_ := true }

def stop (s : Connector) : Connector := { s with connect_ := false }

def retry (s : Connector) (sockfd : ℤ) : Connector :=
  let s := { s.close sockfd with state_ := .kDisconnected }
  if s.connect_ then
    { s with retryDelayMs_ := min (s.retryDelayMs_ * 2) kMaxRetryDelayMs }
  else s

def connecting (s : Connector) (_sockfd : ℤ) : Connector :=
  { s with state_ := .kConnecting }

def removeAndResetChannel : ℤ := 0

/-- `connect`, with the results of `socket` and `connect`. -/
def connect (s : Connector) (sockfd : ℤ) (savedErrno : ConnectErrno) :
    Connector :=
  let s :=
    if sockfd < 0 then s else { s with created := sockfd ::ₘ s.created }
  match savedErrno with
  | .zero | .EINPROGRESS | .EINTR | .EISCONN => s.connecting sockfd
  | .EAGAIN | .EADDRINUSE | .EADDRNOTAVAIL | .ECONNREFUSED | .ENETUNREACH =>
      s.retry sockfd
  | .EACCES | .EPERM | .EAFNOSUPPORT | .EALREADY | .EBADF | .EFAULT
  | .ENOTSOCK => s.close sockfd
  | .other _ => s.close sockfd

def startInLoop (s : Connector) (sockfd : ℤ) (savedErrno : ConnectErrno) :
    Connector :=
  if s.state_ = .kDisconnected then
    if s.connect_ then s.connect sockfd savedErrno else s
  else { s with fault := some .assertion }

def restart (s : Connector) (sockfd : ℤ) (savedErrno : ConnectErrno) :
    Connector :=
  { s with
    state_ := .kDisconnected
    retryDelayMs_ := kInitRetryDelayMs
    connect_ := true }.startInLoop sockfd savedErrno

def stopInLoop (s : Connector) : Connector :=
  if s.state_ = .kConnecting then
    { s with state_ := .kDisconnected }.retry removeAndResetChannel
  else s

def handleWrite (s : Connector) (answer : SocketQuery) : Connector :=
  if s.state_ = .kConnecting then
    let sockfd := removeAndResetChannel
    let s := s.query sockfd
    if answer.err ≠ 0 then s.retry sockfd
    else
      let s := s.query sockfd
      if answer.isSelfConnect then s.retry sockfd
      else
        let s := { s with state_ := .kConnected }
        if s.connect_ then s.newConnectionCallback sockfd else s.close sockfd
  else if s.state_ = .kDisconnected then s
  else { s with fault := some .assertion }

def handleError (s : Connector) : Connector :=
  if s.state_ = .kConnecting then
    (s.query removeAndResetChannel).retry removeAndResetChannel
  else s

inductive Action where
  | start
  | restart (sockfd : ℤ) (savedErrno : ConnectErrno)
  | stop
  | stopInLoop
  | handleWrite (answer : SocketQuery)
  | handleError
  deriving DecidableEq, Repr

/-- What the kernel may answer: `socket` returns no number that is in use, and
`connect` rejects a number that is no descriptor. -/
def Admits (s : Connector) (sockfd : ℤ) (savedErrno : ConnectErrno) : Prop :=
  if sockfd < 0 then savedErrno = .EBADF else ¬ s.IsOpen sockfd

instance (s : Connector) (sockfd : ℤ) (savedErrno : ConnectErrno) :
    Decidable (s.Admits sockfd savedErrno) :=
  inferInstanceAs
    (Decidable (if sockfd < 0 then savedErrno = .EBADF else ¬ s.IsOpen sockfd))

/-- The step function.  A failed assertion ends the program. -/
def step (s : Connector) (action : Action) : Option Connector :=
  if s.fault = none then
    match action with
    | .start => some s.start
    | .restart sockfd savedErrno =>
        if s.Admits sockfd savedErrno then some (s.restart sockfd savedErrno)
        else none
    | .stop => some s.stop
    | .stopInLoop => some s.stopInLoop
    | .handleWrite answer => some (s.handleWrite answer)
    | .handleError => some s.handleError
  else none

/-! ## Ownership -/

/-- The descriptor that the connector takes for the pending attempt. -/
def pending (s : Connector) : Option ℤ :=
  if s.state_ = .kConnecting then some removeAndResetChannel else none

/-- Each descriptor that was created is recorded as the pending attempt, has
been passed on once or has been closed once, and no other one was touched. -/
structure Owned (s : Connector) : Prop where
  accounted : s.created = s.pending.toList + s.handed + s.closed
  strays_eq : s.strays = []

instance (s : Connector) : Decidable s.Owned :=
  decidable_of_iff
    (s.created = s.pending.toList + s.handed + s.closed ∧ s.strays = [])
    ⟨fun h => ⟨h.1, h.2⟩, fun h => ⟨h.accounted, h.strays_eq⟩⟩

theorem owned_iff {s : Connector} {p : Option ℤ} (hpending : s.pending = p) :
    s.Owned ↔ s.created = p.toList + s.handed + s.closed ∧ s.strays = [] := by
  constructor
  · intro h
    have haccounted := h.accounted
    rw [hpending] at haccounted
    exact ⟨haccounted, h.strays_eq⟩
  · rintro ⟨haccounted, hstrays⟩
    refine ⟨?_, hstrays⟩
    rw [hpending]
    exact haccounted

theorem owned_iff_of_idle {s : Connector} (hidle : s.state_ ≠ .kConnecting) :
    s.Owned ↔ s.created = s.handed + s.closed ∧ s.strays = [] := by
  rw [owned_iff (if_neg hidle)]
  simp

theorem owned_iff_of_connecting {s : Connector}
    (hconnecting : s.state_ = .kConnecting) :
    s.Owned ↔ s.created = removeAndResetChannel ::ₘ (s.handed + s.closed) ∧
      s.strays = [] := by
  rw [owned_iff (if_pos hconnecting)]
  simp

/-! ## What the functions do to the descriptors -/

theorem retry_frame {s : Connector} {sockfd : ℤ} (hfd : ¬ sockfd < 0) :
    (s.retry sockfd).state_ = .kDisconnected ∧
      (s.retry sockfd).created = s.created ∧
      (s.retry sockfd).handed = s.handed ∧
      (s.retry sockfd).closed = sockfd ::ₘ s.closed ∧
      (s.retry sockfd).strays = s.strays ∧
      (s.retry sockfd).fault = s.fault := by
  have hclose : s.close sockfd = { s with closed := sockfd ::ₘ s.closed } :=
    if_neg hfd
  by_cases hconnect : s.connect_ = true
  · simp [retry, hclose, hconnect]
  · simp [retry, hclose, hconnect]

/-- The pending descriptor is open. -/
theorem Owned.query_pending {s : Connector} (h : s.Owned)
    (hconnecting : s.state_ = .kConnecting) :
    s.query removeAndResetChannel = s := by
  have haccounted := ((owned_iff_of_connecting hconnecting).mp h).1
  refine if_pos ?_
  unfold IsOpen
  rw [haccounted, Multiset.count_cons_self, Multiset.count_add]
  exact Nat.lt_succ_self _

/-- Giving the attempt up closes its descriptor. -/
theorem Owned.retry_pending {s : Connector} (h : s.Owned)
    (hconnecting : s.state_ = .kConnecting) :
    (s.retry removeAndResetChannel).Owned := by
  obtain ⟨haccounted, hstrays⟩ := (owned_iff_of_connecting hconnecting).mp h
  obtain ⟨hstate, hcreated, hhanded, hclosed, hstrays', -⟩ :=
    retry_frame (s := s) (show ¬ removeAndResetChannel < 0 by decide)
  have hidle : (s.retry removeAndResetChannel).state_ ≠ .kConnecting := by
    rw [hstate]
    exact nofun
  refine (owned_iff_of_idle hidle).mpr ⟨?_, hstrays'.trans hstrays⟩
  rw [hcreated, hhanded, hclosed, haccounted, Multiset.add_cons]

theorem Owned.stopInLoop {s : Connector} (h : s.Owned) :
    s.stopInLoop.Owned := by
  unfold Connector.stopInLoop
  by_cases hconnecting : s.state_ = .kConnecting
  · rw [if_pos hconnecting]
    exact h.retry_pending hconnecting
  · rw [if_neg hconnecting]
    exact h

theorem Owned.handleError {s : Connector} (h : s.Owned) :
    s.handleError.Owned := by
  unfold Connector.handleError
  by_cases hconnecting : s.state_ = .kConnecting
  · rw [if_pos hconnecting, h.query_pending hconnecting]
    exact h.retry_pending hconnecting
  · rw [if_neg hconnecting]
    exact h

theorem Owned.handleWrite {s : Connector} (h : s.Owned)
    (answer : SocketQuery) : (s.handleWrite answer).Owned := by
  unfold Connector.handleWrite
  by_cases hconnecting : s.state_ = .kConnecting
  · obtain ⟨haccounted, hstrays⟩ := (owned_iff_of_connecting hconnecting).mp h
    have hidle : ConnectorState.kConnected ≠ .kConnecting := nofun
    simp only [if_pos hconnecting, h.query_pending hconnecting]
    split
    · exact h.retry_pending hconnecting
    split
    · exact h.retry_pending hconnecting
    split
    · refine (owned_iff_of_idle hidle).mpr ⟨?_, hstrays⟩
      exact haccounted.trans (Multiset.cons_add _ _ _).symm
    · refine (owned_iff_of_idle hidle).mpr ⟨?_, hstrays⟩
      exact haccounted.trans (Multiset.add_cons _ _ _).symm
  · rw [if_neg hconnecting]
    split
    · exact h
    · exact ⟨h.accounted, h.strays_eq⟩

/-! ## Restarting -/

/-- The descriptor that `socket` has returned, if any. -/
def fresh (sockfd : ℤ) : Multiset ℤ := if sockfd < 0 then 0 else {sockfd}

/-- What `restart` does to the new descriptor: it is kept, and the state says
so, or it is closed, and the state does not. -/
theorem restart_frame (s : Connector) (sockfd : ℤ)
    (savedErrno : ConnectErrno) :
    (s.restart sockfd savedErrno).created = fresh sockfd + s.created ∧
      (s.restart sockfd savedErrno).handed = s.handed ∧
      (s.restart sockfd savedErrno).strays = s.strays ∧
      if savedErrno.isKept
        then (s.restart sockfd savedErrno).state_ = .kConnecting ∧
          (s.restart sockfd savedErrno).closed = s.closed
        else (s.restart sockfd savedErrno).state_ = .kDisconnected ∧
          (s.restart sockfd savedErrno).closed = fresh sockfd + s.closed := by
  by_cases hfd : sockfd < 0
  · cases savedErrno <;>
      simp [restart, startInLoop, connect, retry, close, connecting, fresh, hfd,
        ConnectErrno.isKept]
  · cases savedErrno <;>
      simp [restart, startInLoop, connect, retry, close, connecting, fresh, hfd,
        ConnectErrno.isKept]

/-- The step does not displace a pending attempt, and a new one is kept only
if its descriptor is the number that the connector will take for it. -/
def RestartGuard (s : Connector) : Action → Prop
  | .restart sockfd savedErrno =>
      s.state_ ≠ .kConnecting ∧
        (savedErrno.isKept = true → sockfd = removeAndResetChannel)
  | _ => True

instance (s : Connector) : DecidablePred (RestartGuard s)
  | .restart sockfd savedErrno =>
      inferInstanceAs (Decidable (s.state_ ≠ .kConnecting ∧
        (savedErrno.isKept = true → sockfd = removeAndResetChannel)))
  | .start | .stop | .stopInLoop | .handleWrite _ | .handleError =>
      isTrue trivial

/-- All descriptors are passed on or closed exactly when no attempt is
pending. -/
theorem Owned.created_eq_iff {s : Connector} (h : s.Owned) :
    s.created = s.handed + s.closed ↔ s.state_ ≠ .kConnecting := by
  by_cases hconnecting : s.state_ = .kConnecting
  · have haccounted := ((owned_iff_of_connecting hconnecting).mp h).1
    constructor
    · intro heq
      have hcard := congrArg Multiset.card (heq.symm.trans haccounted)
      rw [Multiset.card_cons] at hcard
      omega
    · intro hidle
      exact absurd hconnecting hidle
  · have haccounted := ((owned_iff_of_idle hconnecting).mp h).1
    exact ⟨fun _ => hconnecting, fun _ => haccounted⟩

theorem Owned.restart_iff {s : Connector} (h : s.Owned) {sockfd : ℤ}
    {savedErrno : ConnectErrno} (hadmits : s.Admits sockfd savedErrno) :
    (s.restart sockfd savedErrno).Owned ↔
      RestartGuard s (.restart sockfd savedErrno) := by
  obtain ⟨hcreated, hhanded, hstrays, hcases⟩ :=
    restart_frame s sockfd savedErrno
  by_cases hkept : savedErrno.isKept = true
  · rw [if_pos hkept] at hcases
    obtain ⟨hstate, hclosed⟩ := hcases
    rw [owned_iff_of_connecting hstate, hcreated, hhanded, hclosed, hstrays]
    have hfd : fresh sockfd = {sockfd} := by
      refine if_neg ?_
      intro hneg
      rw [Admits, if_pos hneg] at hadmits
      rw [hadmits] at hkept
      cases hkept
    rw [hfd, Multiset.singleton_add]
    constructor
    · rintro ⟨haccounted, -⟩
      have hidle : s.state_ ≠ .kConnecting := by
        intro hconnecting
        -- the displaced descriptor and the new one are one too many
        rw [((owned_iff_of_connecting hconnecting).mp h).1] at haccounted
        have hcard := congrArg Multiset.card haccounted
        rw [Multiset.card_cons, Multiset.card_cons] at hcard
        omega
      rw [h.created_eq_iff.mpr hidle] at haccounted
      exact ⟨hidle, fun _ => (Multiset.cons_inj_left _).mp haccounted⟩
    · rintro ⟨hidle, hsame⟩
      rw [hsame hkept, h.created_eq_iff.mpr hidle]
      exact ⟨rfl, h.strays_eq⟩
  · rw [if_neg hkept] at hcases
    obtain ⟨hstate, hclosed⟩ := hcases
    have hidle : (s.restart sockfd savedErrno).state_ ≠ .kConnecting := by
      rw [hstate]
      exact nofun
    rw [owned_iff_of_idle hidle, hcreated, hhanded, hclosed, hstrays,
      add_left_comm, add_right_inj, h.created_eq_iff]
    constructor
    · rintro ⟨hidle, -⟩
      exact ⟨hidle, fun hkept' => absurd hkept' hkept⟩
    · rintro ⟨hidle, -⟩
      exact ⟨hidle, h.strays_eq⟩

/-! ## Runs -/

theorem create_owned : create.Owned := ⟨rfl, rfl⟩

/-- A step keeps the accounts exactly when it meets the guard. -/
theorem step_owned_iff {s t : Connector} {action : Action} (h : s.Owned)
    (hstep : step s action = some t) : t.Owned ↔ RestartGuard s action := by
  unfold step at hstep
  split at hstep
  swap
  · cases hstep
  cases action with
  | start =>
      cases hstep
      exact iff_of_true ⟨h.accounted, h.strays_eq⟩ trivial
  | restart sockfd savedErrno =>
      by_cases hadmits : s.Admits sockfd savedErrno
      · have heq := Option.some.inj ((if_pos hadmits).symm.trans hstep)
        rw [← heq]
        exact h.restart_iff hadmits
      · have hnone := (if_neg hadmits).symm.trans hstep
        cases hnone
  | stop =>
      cases hstep
      exact iff_of_true ⟨h.accounted, h.strays_eq⟩ trivial
  | stopInLoop =>
      cases hstep
      exact iff_of_true h.stopInLoop trivial
  | handleWrite answer =>
      cases hstep
      exact iff_of_true (h.handleWrite answer) trivial
  | handleError =>
      cases hstep
      exact iff_of_true h.handleError trivial

/-- The descriptors are accounted for all along a run exactly when `restart`
never displaces a pending attempt, and never keeps an attempt on another
descriptor than the one with the number 0. -/
theorem always_owned_iff {actions : List Action} {s : Connector}
    (hrun : run step create actions = some s) :
    Always step Owned create actions ↔
      Guarded step RestartGuard create actions :=
  always_iff_guarded_of_exact (fun _ _ _ h hstep => step_owned_iff h hstep)
    create_owned hrun

/-- An attempt that is kept on the descriptor 0 is passed on. -/
theorem pending_descriptor_zero :
    Always step Owned create
      [.start, .restart 5 .ECONNREFUSED, .restart 0 .EINPROGRESS,
        .handleWrite ⟨0, false⟩] := by
  obtain ⟨s, hrun, -⟩ : ∃ s, run step create
      [.start, .restart 5 .ECONNREFUSED, .restart 0 .EINPROGRESS,
        .handleWrite ⟨0, false⟩] = some s ∧ s.handed = {0} :=
    exists_run_of_eval (by decide +kernel)
  exact (always_owned_iff hrun).mpr (by decide +kernel)

/-- An attempt that is kept on the descriptor 5 is lost, and the descriptor 0
is queried twice and passed on in its place. -/
theorem pending_descriptor_five :
    ∃ s, run step create
        [.start, .restart 5 .EINPROGRESS, .handleWrite ⟨0, false⟩] = some s ∧
      s.created = {5} ∧ s.handed = {0} ∧ s.closed = 0 ∧
      s.strays = [0, 0] ∧ ¬ s.Owned :=
  exists_run_of_eval (by decide +kernel)

end Connector

end EventServer.Network
