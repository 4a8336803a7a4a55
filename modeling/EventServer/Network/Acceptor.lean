import EventServer.Support.Descriptors
import EventServer.Support.Run
import EventServer.Network.SocketsOps

/-!
# The descriptors of an acceptor

The constructor, `handleRead` and the destructor of `Acceptor`, one system call
at a time, so that other threads can open and close descriptors in between.
`sockets::accept` and `Socket::accept` return what the system call returned and
leave `errno` as it was set; `listen` and the socket options concern no
descriptor.
-/

namespace EventServer.Network

open EventServer.Support

namespace Acceptor

/-- Where the thread of the acceptor is. -/
inductive Position where
  /-- The constructor: `createNonblockingOrDie`. -/
  | createSocket
  /-- `idleFd_(::open("/dev/null", ...))` -/
  | openIdle
  /-- `assert(idleFd_ >= 0)` -/
  | assertIdle
  /-- `bindOrDie` -/
  | bindAddress
  /-- In the event loop. -/
  | ready
  /-- `handleRead`: the first accept. -/
  | acceptConnection
  | connectionAccepted (connfd : ℤ)
  | checkErrno (errno : Errno)
  /-- The first `::close(idleFd_)`. -/
  | closeIdle
  /-- `idleFd_ = ::accept(...)` -/
  | acceptAgain
  /-- The second `::close(idleFd_)`. -/
  | closeAccepted
  /-- `idleFd_ = ::open("/dev/null", ...)` -/
  | reopenIdle
  /-- The destructor: `::close(idleFd_)`. -/
  | destroyIdle
  /-- The destructor of `acceptSocket_`. -/
  | destroySocket
  | destroyed
  /-- A failed assertion, or a fatal log message. -/
  | aborted
  deriving DecidableEq, Repr

/-- The descriptors of the process and the members of the acceptor. -/
structure State where
  descriptors : Descriptors
  sockfd_ : ℤ
  idleFd_ : ℤ
  newConnectionCallback_ : Bool
  position : Position

/-- The program starts with an acceptor to be constructed. -/
def start : State where
  descriptors := .initial
  sockfd_ := -1
  idleFd_ := -1
  newConnectionCallback_ := false
  position := .createSocket

inductive Action where
  /-- The acceptor takes its next step.  Where that is a call that returns a
  descriptor, `answer` is what the kernel answers, and `errno` what it sets. -/
  | advance (answer : Answer) (errno : Errno)
  | bindAddress (success : Bool)
  | setNewConnectionCallback (callable : Bool)
  /-- The listening socket is readable. -/
  | handleRead
  | destroy
  /-- Another thread opens a descriptor and gets the number `n`. -/
  | otherOpen (thread n : ℕ)
  /-- Another thread, or the owner of a connection, closes the number `n`. -/
  | otherClose (n : ℕ)
  deriving DecidableEq, Repr

/-- The next step of the constructor, of `handleRead` or of the destructor. -/
def State.advance (s : State) (answer : Answer) (errno : Errno) :
    Option State :=
  match s.position with
  | .createSocket =>
      (s.descriptors.obtain answer).map fun (d, fd) =>
        { s with descriptors := d, sockfd_ := fd, position := .openIdle }
  | .openIdle =>
      (s.descriptors.obtain answer).map fun (d, fd) =>
        { s with descriptors := d, idleFd_ := fd, position := .assertIdle }
  | .assertIdle =>
      some { s with
        position := if 0 ≤ s.idleFd_ then .bindAddress else .aborted }
  | .acceptConnection =>
      (s.descriptors.accept answer).map fun (d, connfd) =>
        { s with
          descriptors := d
          position := if 0 ≤ connfd then .connectionAccepted connfd
            else .checkErrno errno }
  | .connectionAccepted connfd =>
      if s.newConnectionCallback_
      then some { s with
        descriptors := s.descriptors.pass connfd, position := .ready }
      else some { s with
        descriptors := s.descriptors.close connfd, position := .ready }
  | .checkErrno errno =>
      some { s with
        position := if errno = .EMFILE then .closeIdle else .ready }
  | .closeIdle =>
      some { s with
        descriptors := s.descriptors.close s.idleFd_, position := .acceptAgain }
  | .acceptAgain =>
      (s.descriptors.accept answer).map fun (d, fd) =>
        { s with descriptors := d, idleFd_ := fd, position := .closeAccepted }
  | .closeAccepted =>
      some { s with
        descriptors := s.descriptors.close s.idleFd_, position := .reopenIdle }
  | .reopenIdle =>
      (s.descriptors.obtain answer).map fun (d, fd) =>
        { s with descriptors := d, idleFd_ := fd, position := .ready }
  | .destroyIdle =>
      some { s with
        descriptors := s.descriptors.close s.idleFd_
        position := .destroySocket }
  | .destroySocket =>
      some { s with
        descriptors := s.descriptors.close s.sockfd_, position := .destroyed }
  | .bindAddress | .ready | .destroyed | .aborted => none

def step (s : State) : Action → Option State
  | .advance answer errno => s.advance answer errno
  | .bindAddress success =>
      if s.position = .bindAddress
      then some { s with position := if success then .ready else .aborted }
      else none
  | .setNewConnectionCallback callable =>
      if s.position = .ready
      then some { s with newConnectionCallback_ := callable }
      else none
  | .handleRead =>
      if s.position = .ready
      then some { s with position := .acceptConnection }
      else none
  | .destroy =>
      if s.position = .ready
      then some { s with position := .destroyIdle }
      else none
  | .otherOpen thread n =>
      (s.descriptors.otherOpen thread n).map fun d =>
        { s with descriptors := d }
  | .otherClose n =>
      (s.descriptors.otherClose n).map fun d => { s with descriptors := d }

/-! ## What the acceptor holds -/

/-- The numbers that the acceptor has to close, apart from `-1`. -/
def State.held (s : State) : List ℤ :=
  match s.position with
  | .createSocket | .destroyed => []
  | .openIdle | .acceptAgain | .reopenIdle | .destroySocket => [s.sockfd_]
  | .connectionAccepted connfd => [s.sockfd_, s.idleFd_, connfd]
  | .assertIdle | .bindAddress | .ready | .acceptConnection | .checkErrno _
  | .closeIdle | .closeAccepted | .destroyIdle | .aborted =>
      [s.sockfd_, s.idleFd_]

/-- The connection that has been accepted and not yet passed on or closed. -/
def State.inHand (s : State) : List ℤ :=
  match s.position with
  | .connectionAccepted connfd => [connfd]
  | .closeAccepted => [s.idleFd_]
  | _ => []

/-- The descriptors are those that the position says, and a connection that is
about to be passed on has a number. -/
structure Inv (s : State) : Prop where
  holds : s.descriptors.Holds s.held s.inHand
  connfd_nonneg : ∀ connfd, s.position = .connectionAccepted connfd →
    0 ≤ connfd

theorem inv_start : Inv start where
  holds := Descriptors.initial_holds
  connfd_nonneg := by
    intro connfd h
    cases h

/-- The invariant at a position where no connection has just been accepted. -/
theorem inv_of_holds {s : State} (h : s.descriptors.Holds s.held s.inHand)
    (hposition : ∀ connfd, s.position ≠ .connectionAccepted connfd) :
    Inv s :=
  ⟨h, fun connfd heq => absurd heq (hposition connfd)⟩

theorem inv_advance {s t : State} {answer : Answer} {errno : Errno}
    (hs : Inv s) (hstep : s.advance answer errno = some t) : Inv t := by
  obtain ⟨hholds, hconnfd⟩ := hs
  unfold State.held State.inHand at hholds
  unfold State.advance at hstep
  cases hposition : s.position with
  | createSocket | openIdle | reopenIdle =>
      rw [hposition] at hstep hholds
      obtain ⟨⟨d, fd⟩, hobtain, rfl⟩ := Option.map_eq_some_iff.mp hstep
      exact inv_of_holds (hholds.obtain hobtain) (by simp)
  | assertIdle =>
      rw [hposition] at hstep hholds
      obtain rfl := Option.some_inj.mp hstep
      by_cases hidle : 0 ≤ s.idleFd_
      · simp only [if_pos hidle]
        exact inv_of_holds hholds (by simp)
      · simp only [if_neg hidle]
        exact inv_of_holds hholds (by simp)
  | acceptConnection =>
      rw [hposition] at hstep hholds
      obtain ⟨⟨d, connfd⟩, haccept, rfl⟩ := Option.map_eq_some_iff.mp hstep
      by_cases hnonneg : 0 ≤ connfd
      · simp only [if_pos hnonneg]
        refine ⟨hholds.accept haccept, fun fd heq => ?_⟩
        cases heq
        exact hnonneg
      · obtain rfl := Descriptors.accept_of_neg haccept (not_le.mp hnonneg)
        simp only [if_neg hnonneg]
        exact inv_of_holds hholds (by simp)
  | connectionAccepted connfd =>
      rw [hposition] at hstep hholds
      have hnonneg := hconnfd connfd hposition
      have hlast : ∀ fd ∈ [connfd], fd = connfd := fun fd hfd =>
        List.mem_singleton.mp hfd
      dsimp only at hstep
      split at hstep
      · cases hstep
        exact inv_of_holds
          (Descriptors.Holds.pass hholds hlast hnonneg) (by simp)
      · cases hstep
        exact inv_of_holds (Descriptors.Holds.close hholds hlast) (by simp)
  | checkErrno errno' =>
      rw [hposition] at hstep hholds
      obtain rfl := Option.some_inj.mp hstep
      by_cases hfull : errno' = .EMFILE
      · simp only [if_pos hfull]
        exact inv_of_holds hholds (by simp)
      · simp only [if_neg hfull]
        exact inv_of_holds hholds (by simp)
  | acceptAgain =>
      rw [hposition] at hstep hholds
      obtain ⟨⟨d, fd⟩, haccept, rfl⟩ := Option.map_eq_some_iff.mp hstep
      exact inv_of_holds (hholds.accept haccept) (by simp)
  | closeIdle | destroyIdle | closeAccepted =>
      rw [hposition] at hstep hholds
      obtain rfl := Option.some_inj.mp hstep
      have hspare : s.descriptors.Holds ([s.sockfd_] ++ [s.idleFd_]) _ :=
        hholds
      exact inv_of_holds (hspare.close (by simp)) (by simp)
  | destroySocket =>
      rw [hposition] at hstep hholds
      obtain rfl := Option.some_inj.mp hstep
      have hlast : s.descriptors.Holds ([] ++ [s.sockfd_]) [] := hholds
      exact inv_of_holds (hlast.close (by simp)) (by simp)
  | bindAddress | ready | destroyed | aborted =>
      rw [hposition] at hstep
      cases hstep

/-- Between two positions with the same descriptors nothing has to be shown. -/
theorem inv_step (s : State) (action : Action) (t : State) (hs : Inv s)
    (hstep : step s action = some t) : Inv t := by
  have hholds := hs.holds
  unfold State.held State.inHand at hholds
  cases action with
  | advance answer errno => exact inv_advance hs hstep
  | bindAddress success =>
      obtain ⟨hposition, ⟨⟩⟩ := Option.ite_none_right_eq_some.mp hstep
      rw [hposition] at hholds
      cases success with
      | true => exact inv_of_holds hholds (by simp)
      | false => exact inv_of_holds hholds (by simp)
  | setNewConnectionCallback callable =>
      obtain ⟨-, ⟨⟩⟩ := Option.ite_none_right_eq_some.mp hstep
      exact ⟨hs.holds, hs.connfd_nonneg⟩
  | handleRead | destroy =>
      obtain ⟨hposition, ⟨⟩⟩ := Option.ite_none_right_eq_some.mp hstep
      rw [hposition] at hholds
      exact inv_of_holds hholds (by simp)
  | otherOpen thread n =>
      simp only [step, Option.map_eq_some_iff] at hstep
      obtain ⟨d, hopen, rfl⟩ := hstep
      exact ⟨hs.holds.otherOpen hopen, hs.connfd_nonneg⟩
  | otherClose n =>
      simp only [step, Option.map_eq_some_iff] at hstep
      obtain ⟨d, hclose, rfl⟩ := hstep
      exact ⟨hs.holds.otherClose hclose, hs.connfd_nonneg⟩

theorem inv_of_run {s : State} {actions : List Action}
    (hrun : run step start actions = some s) : Inv s :=
  run_invariant inv_step inv_start hrun

/-! ## Ownership -/

/-- The next step of the acceptor passes on or closes what it has in hand. -/
theorem advance_of_inHand {s : State} (h : s.inHand ≠ []) (answer : Answer)
    (errno : Errno) :
    ∃ t, s.advance answer errno = some t ∧ t.inHand = [] := by
  have hcases : (∃ connfd, s.position = .connectionAccepted connfd) ∨
      s.position = .closeAccepted := by
    unfold State.inHand at h
    split at h
    · exact Or.inl ⟨_, ‹_›⟩
    · exact Or.inr ‹_›
    · exact absurd rfl h
  rcases hcases with ⟨connfd, hposition⟩ | hposition
  · cases hcallback : s.newConnectionCallback_ with
    | true => simp [State.advance, hposition, hcallback, State.inHand]
    | false => simp [State.advance, hposition, hcallback, State.inHand]
  · simp [State.advance, hposition, State.inHand]

theorem mem_held {s : State} {fd : ℤ} (h : fd ∈ s.held) :
    fd = s.sockfd_ ∨ fd = s.idleFd_ ∨ fd ∈ s.inHand := by
  unfold State.held at h
  unfold State.inHand
  cases hposition : s.position <;> simp_all

/-- An accepted connection is passed on once, or closed once, or in hand. -/
theorem Inv.accepted_cases {s : State} (hs : Inv s) {serial : ℕ}
    (hserial : serial ∈ s.descriptors.accepted) :
    (s.descriptors.passed.count serial = 1 ∧
        s.descriptors.closed.count serial = 0) ∨
      (s.descriptors.passed.count serial = 0 ∧
        s.descriptors.closed.count serial = 1) ∨
      (s.descriptors.passed.count serial = 0 ∧
        s.descriptors.closed.count serial = 0 ∧
        ∃ n x, s.descriptors.entry n = some x ∧ x.serial = serial ∧
          (n : ℤ) ∈ s.inHand) := by
  rcases hs.holds.settled serial hserial with ⟨hone, -⟩ | ⟨hzero, hlive⟩
  · omega
  · obtain ⟨n, x, hx, howner, rfl⟩ := hlive
    refine Or.inr (Or.inr ⟨by omega, by omega, n, x, hx, rfl, ?_⟩)
    exact hs.holds.mem_inHand n x hx howner hserial

theorem Inv.spare_unique {s : State} (hs : Inv s) {n m : ℕ}
    (hn : s.descriptors.Owns n) (hm : s.descriptors.Owns m)
    (hsocket : (n : ℤ) ≠ s.sockfd_ ∧ (m : ℤ) ≠ s.sockfd_)
    (hinHand : (n : ℤ) ∉ s.inHand ∧ (m : ℤ) ∉ s.inHand) : n = m := by
  have hidle : ∀ k : ℕ, s.descriptors.Owns k → (k : ℤ) ≠ s.sockfd_ →
      (k : ℤ) ∉ s.inHand → (k : ℤ) = s.idleFd_ := by
    intro k hk hne hnot
    have hmem := mem_held ((hs.holds.owns_iff k).mp hk)
    tauto
  have hboth : (n : ℤ) = m :=
    (hidle n hn hsocket.1 hinHand.1).trans
      (hidle m hm hsocket.2 hinHand.2).symm
  exact_mod_cast hboth

/-- Whatever `accept` and `open` return and other threads open and close, every
accepted connection is passed on exactly once or closed exactly once, and until
then it is in hand, where it stays for one step.  Apart from the listening
socket and the connection in hand the acceptor owns at most one descriptor, and
it closes only descriptors that it owns, and `-1`. -/
theorem descriptor_ownership {actions : List Action} {s : State}
    (hrun : run step start actions = some s) :
    (∀ serial ∈ s.descriptors.accepted,
      (s.descriptors.passed.count serial = 1 ∧
          s.descriptors.closed.count serial = 0) ∨
        (s.descriptors.passed.count serial = 0 ∧
          s.descriptors.closed.count serial = 1) ∨
        (s.descriptors.passed.count serial = 0 ∧
          s.descriptors.closed.count serial = 0 ∧
          ∃ n x, s.descriptors.entry n = some x ∧ x.serial = serial ∧
            (n : ℤ) ∈ s.inHand)) ∧
      (s.inHand ≠ [] → ∀ answer errno, ∃ t,
        step s (.advance answer errno) = some t ∧ t.inHand = []) ∧
      (∀ n m : ℕ, s.descriptors.Owns n → s.descriptors.Owns m →
        (n : ℤ) ≠ s.sockfd_ ∧ (m : ℤ) ≠ s.sockfd_ →
        (n : ℤ) ∉ s.inHand ∧ (m : ℤ) ∉ s.inHand → n = m) ∧
      ∀ call ∈ s.descriptors.closes, call.1 = -1 ∨ call.2 = some .self := by
  have hs := inv_of_run hrun
  exact ⟨fun serial => hs.accepted_cases, advance_of_inHand,
    fun n m => hs.spare_unique, hs.holds.closes_owned⟩

/-- The table is full: the spare descriptor is closed, another thread takes its
number, the second accept gets another one, and the spare is opened again. -/
def exhaustion : List Action :=
  [.advance (.descriptor 3) (.other 0), .advance (.descriptor 4) (.other 0),
    .advance .failed (.other 0), .bindAddress true, .handleRead,
    .advance .failed .EMFILE, .advance .failed .EMFILE,
    .advance .failed .EMFILE, .otherOpen 1 4,
    .advance (.descriptor 5) (.other 0), .advance .failed (.other 0),
    .advance (.descriptor 5) (.other 0)]

theorem descriptor_ownership_exhaustion :
    ∃ s, run step start exhaustion = some s ∧
      s.descriptors.accepted = [3] ∧ s.descriptors.closed = [1, 3] ∧
      ∀ call ∈ s.descriptors.closes, call.1 = -1 ∨ call.2 = some .self := by
  obtain ⟨s, hrun, haccepted, hclosed⟩ : ∃ s,
      run step start exhaustion = some s ∧ s.descriptors.accepted = [3] ∧
        s.descriptors.closed = [1, 3] :=
    exists_run_of_eval (by decide +kernel)
  exact ⟨s, hrun, haccepted, hclosed, (descriptor_ownership hrun).2.2.2⟩

end Acceptor

end EventServer.Network
