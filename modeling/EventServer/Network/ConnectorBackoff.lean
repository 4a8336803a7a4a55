import EventServer.Support.Simulation
import EventServer.Network.Connector

/-!
# The retry delay of a connector

`retry` doubles the delay up to a bound, and only while the connector is to
connect; `restart` sets it back.  Over a whole run the delay is therefore a
function of the failed attempts since the last restart.

The two assertions of `Connector.cc` are about the state in which a function is
entered.  The one of `startInLoop` cannot fail, as `restart` sets the state
first; the one of `handleWrite` fails on a connected connector.
-/

namespace EventServer.Network

open EventServer.Support

namespace Connector

/-- What a step means for the delay. -/
inductive Attempt where
  | restarted
  | failed
  deriving DecidableEq, Repr

/-- The values of `savedErrno` after which `connect` tries again. -/
def isRetried : ConnectErrno → Bool
  | .EAGAIN | .EADDRINUSE | .EADDRNOTAVAIL | .ECONNREFUSED | .ENETUNREACH =>
      true
  | _ => false

/-- The attempt that is pending fails, and is to be repeated. -/
def losesPending (s : Connector) : Action → Bool
  | .stopInLoop | .handleError => s.state_ = .kConnecting ∧ s.connect_
  | .handleWrite answer =>
      s.state_ = .kConnecting ∧ s.connect_ ∧
        (answer.err ≠ 0 ∨ answer.isSelfConnect)
  | .start | .stop | .restart .. => false

def attempts (s : Connector) : Action → List Attempt
  | .restart _ savedErrno =>
      if isRetried savedErrno then [.restarted, .failed] else [.restarted]
  | action => if s.losesPending action then [.failed] else []

/-- The failures since the last restart, with `n` of them before. -/
def failuresFrom : ℕ → List Attempt → ℕ
  | n, [] => n
  | _, .restarted :: rest => failuresFrom 0 rest
  | n, .failed :: rest => failuresFrom (n + 1) rest

/-- The delay after so many failures. -/
def delayAfter (failures : ℕ) : ℕ :=
  min (kInitRetryDelayMs * 2 ^ failures) kMaxRetryDelayMs

theorem failuresFrom_append (n : ℕ) (xs ys : List Attempt) :
    failuresFrom n (xs ++ ys) = failuresFrom (failuresFrom n xs) ys := by
  induction xs generalizing n with
  | nil => rfl
  | cons x xs ih =>
      cases x with
      | restarted => exact ih 0
      | failed => exact ih (n + 1)

theorem delayAfter_succ (n : ℕ) :
    delayAfter (n + 1) = min (delayAfter n * 2) kMaxRetryDelayMs := by
  unfold delayAfter
  rw [pow_succ, ← Nat.mul_assoc]
  omega

/-! ## One step -/

theorem close_frame (s : Connector) (sockfd : ℤ) :
    (s.close sockfd).connect_ = s.connect_ ∧
      (s.close sockfd).retryDelayMs_ = s.retryDelayMs_ ∧
      (s.close sockfd).fault = s.fault := by
  unfold close
  split
  · exact ⟨rfl, rfl, rfl⟩
  · exact ⟨rfl, rfl, rfl⟩

theorem retry_delay (s : Connector) (sockfd : ℤ) :
    (s.retry sockfd).retryDelayMs_ =
        (if s.connect_ then min (s.retryDelayMs_ * 2) kMaxRetryDelayMs
        else s.retryDelayMs_) ∧
      (s.retry sockfd).fault = s.fault := by
  obtain ⟨hconnect, hdelay, hfault⟩ := s.close_frame sockfd
  by_cases h : s.connect_ = true
  · simp [retry, hconnect, hdelay, hfault, h]
  · simp [retry, hconnect, hdelay, hfault, h]

theorem query_frame (s : Connector) (sockfd : ℤ) :
    (s.query sockfd).connect_ = s.connect_ ∧
      (s.query sockfd).state_ = s.state_ ∧
      (s.query sockfd).retryDelayMs_ = s.retryDelayMs_ ∧
      (s.query sockfd).fault = s.fault := by
  unfold query
  split
  · exact ⟨rfl, rfl, rfl, rfl⟩
  · exact ⟨rfl, rfl, rfl, rfl⟩

/-- `restart` makes one attempt, with the initial delay. -/
theorem restart_delay (s : Connector) (sockfd : ℤ)
    (savedErrno : ConnectErrno) :
    (s.restart sockfd savedErrno).retryDelayMs_ =
        delayAfter (if isRetried savedErrno then 1 else 0) ∧
      (s.restart sockfd savedErrno).fault = s.fault := by
  by_cases hfd : sockfd < 0
  · cases savedErrno
    all_goals
      simp [restart, startInLoop, connect, retry, close, connecting, hfd,
        isRetried, delayAfter, kInitRetryDelayMs, kMaxRetryDelayMs]
  · cases savedErrno
    all_goals
      simp [restart, startInLoop, connect, retry, close, connecting, hfd,
        isRetried, delayAfter, kInitRetryDelayMs, kMaxRetryDelayMs]

/-- Losing the pending attempt. -/
theorem retry_query_delay {s : Connector} {n : ℕ} (sockfd : ℤ)
    (h : s.retryDelayMs_ = delayAfter n) :
    ((s.query sockfd).retry sockfd).retryDelayMs_ =
        delayAfter (if s.connect_ then n + 1 else n) ∧
      ((s.query sockfd).retry sockfd).fault = s.fault := by
  obtain ⟨hdelay, hfault⟩ := (s.query sockfd).retry_delay sockfd
  obtain ⟨hconnect, -, hsame, hfault'⟩ := s.query_frame sockfd
  rw [hconnect, hsame, h] at hdelay
  refine ⟨?_, hfault.trans hfault'⟩
  rw [hdelay, ← delayAfter_succ]
  split
  · rfl
  · rfl

/-- The write event does not come to a connected connector. -/
def WriteGuard (s : Connector) : Action → Prop
  | .handleWrite _ => s.state_ ≠ .kConnected
  | _ => True

instance (s : Connector) : DecidablePred s.WriteGuard
  | .handleWrite _ => inferInstanceAs (Decidable (s.state_ ≠ .kConnected))
  | .start | .stop | .stopInLoop | .handleError | .restart .. =>
      isTrue trivial

theorem attempts_lost {s : Connector} {n : ℕ} {action : Action}
    (hattempts : s.attempts action =
      if s.losesPending action then [.failed] else [])
    (hlost : s.losesPending action = s.connect_) :
    failuresFrom n (s.attempts action) = if s.connect_ then n + 1 else n := by
  rw [hattempts, hlost]
  split
  · rfl
  · rfl

theorem attempts_kept {s : Connector} {n : ℕ} {action : Action}
    (hattempts : s.attempts action =
      if s.losesPending action then [.failed] else [])
    (hkept : s.losesPending action = false) :
    failuresFrom n (s.attempts action) = n := by
  rw [hattempts, hkept]
  rfl

/-- `handleWrite` on a pending attempt. -/
theorem handleWrite_delay {s : Connector} {n : ℕ} (answer : SocketQuery)
    (h : s.retryDelayMs_ = delayAfter n) (hstate : s.state_ = .kConnecting) :
    (s.handleWrite answer).retryDelayMs_ = delayAfter
        (failuresFrom n (s.attempts (.handleWrite answer))) ∧
      (s.handleWrite answer).fault = s.fault := by
  let t := s.query removeAndResetChannel
  obtain ⟨hconnect, -, hdelay, hfault⟩ := s.query_frame removeAndResetChannel
  obtain ⟨hconnect', -, hdelay', hfault'⟩ :=
    t.query_frame removeAndResetChannel
  by_cases herr : answer.err = 0
  · by_cases hself : answer.isSelfConnect = true
    · have heq : s.handleWrite answer =
          (t.query removeAndResetChannel).retry removeAndResetChannel := by
        simp [handleWrite, hstate, herr, hself, t]
      have hlost : s.losesPending (.handleWrite answer) = s.connect_ := by
        simp [losesPending, hstate, hself]
      obtain ⟨hretry, hretryFault⟩ :=
        retry_query_delay removeAndResetChannel (hdelay.trans h)
      rw [heq, attempts_lost rfl hlost, ← hconnect]
      exact ⟨hretry, hretryFault.trans hfault⟩
    · have hkept : s.losesPending (.handleWrite answer) = false := by
        simp [losesPending, herr, hself]
      rw [attempts_kept rfl hkept, ← h, ← hdelay, ← hdelay', ← hfault,
        ← hfault']
      simp only [handleWrite, hstate, if_true, herr, ne_eq, not_true,
        if_false, hself, newConnectionCallback, Bool.false_eq_true]
      split
      · exact ⟨rfl, rfl⟩
      · exact (close_frame _ _).2
  · have heq : s.handleWrite answer = t.retry removeAndResetChannel := by
      simp [handleWrite, hstate, herr, t]
    have hlost : s.losesPending (.handleWrite answer) = s.connect_ := by
      simp [losesPending, hstate, herr]
    rw [heq, attempts_lost rfl hlost]
    exact retry_query_delay removeAndResetChannel h

/-- What a step does to the delay, and when it fails an assertion. -/
theorem step_delay {s t : Connector} {action : Action} {n : ℕ}
    (h : s.retryDelayMs_ = delayAfter n) (hstep : step s action = some t) :
    t.retryDelayMs_ = delayAfter (failuresFrom n (s.attempts action)) ∧
      (t.fault = none ↔ s.WriteGuard action) := by
  unfold step at hstep
  split at hstep
  swap
  · cases hstep
  rename_i hfault
  cases action with
  | start =>
      cases hstep
      exact ⟨h, iff_of_true hfault trivial⟩
  | stop =>
      cases hstep
      exact ⟨h, iff_of_true hfault trivial⟩
  | restart sockfd savedErrno =>
      obtain ⟨-, heq⟩ := Option.ite_none_right_eq_some.mp hstep
      obtain rfl := Option.some.inj heq
      obtain ⟨hdelay, hsame⟩ := s.restart_delay sockfd savedErrno
      refine ⟨?_, iff_of_true (hsame.trans hfault) trivial⟩
      rw [hdelay, attempts]
      split
      · rfl
      · rfl
  | stopInLoop =>
      cases hstep
      by_cases hstate : s.state_ = .kConnecting
      · have hlost : s.losesPending .stopInLoop = s.connect_ := by
          simp [losesPending, hstate]
        have heq : s.stopInLoop = { s with state_ := .kDisconnected }.retry
            removeAndResetChannel := if_pos hstate
        obtain ⟨hdelay, hsame⟩ := retry_delay
          { s with state_ := .kDisconnected } removeAndResetChannel
        rw [heq, attempts_lost rfl hlost]
        refine ⟨?_, iff_of_true (hsame.trans hfault) trivial⟩
        rw [hdelay, h, ← delayAfter_succ]
        split
        · rfl
        · rfl
      · have hkept : s.losesPending .stopInLoop = false := by
          simp [losesPending, hstate]
        have heq : s.stopInLoop = s := if_neg hstate
        rw [heq, attempts_kept rfl hkept]
        exact ⟨h, iff_of_true hfault trivial⟩
  | handleError =>
      cases hstep
      by_cases hstate : s.state_ = .kConnecting
      · have hlost : s.losesPending .handleError = s.connect_ := by
          simp [losesPending, hstate]
        have heq : s.handleError = (s.query removeAndResetChannel).retry
            removeAndResetChannel := if_pos hstate
        obtain ⟨hdelay, hsame⟩ := retry_query_delay removeAndResetChannel h
        rw [heq, attempts_lost rfl hlost]
        exact ⟨hdelay, iff_of_true (hsame.trans hfault) trivial⟩
      · have hkept : s.losesPending .handleError = false := by
          simp [losesPending, hstate]
        have heq : s.handleError = s := if_neg hstate
        rw [heq, attempts_kept rfl hkept]
        exact ⟨h, iff_of_true hfault trivial⟩
  | handleWrite answer =>
      cases hstep
      cases hstate : s.state_ with
      | kConnecting =>
          obtain ⟨hdelay, hsame⟩ := handleWrite_delay answer h hstate
          refine ⟨hdelay, iff_of_true (hsame.trans hfault) ?_⟩
          simp [WriteGuard, hstate]
      | kDisconnected =>
          have hkept : s.losesPending (.handleWrite answer) = false := by
            simp [losesPending, hstate]
          have heq : s.handleWrite answer = s := by
            simp [Connector.handleWrite, hstate]
          rw [heq, attempts_kept rfl hkept]
          refine ⟨h, iff_of_true hfault ?_⟩
          simp [WriteGuard, hstate]
      | kConnected =>
          have hkept : s.losesPending (.handleWrite answer) = false := by
            simp [losesPending, hstate]
          rw [attempts_kept rfl hkept]
          refine ⟨?_, iff_of_false ?_ ?_⟩
          · simpa [Connector.handleWrite, hstate] using h
          · simp [Connector.handleWrite, hstate]
          · simp [WriteGuard, hstate]

/-! ## Runs -/

theorem run_delay {s t : Connector} {actions : List Action} {n : ℕ}
    (h : s.retryDelayMs_ = delayAfter n)
    (hrun : run step s actions = some t) :
    t.retryDelayMs_ =
      delayAfter (failuresFrom n (trace step attempts s actions)) := by
  induction actions generalizing s n with
  | nil =>
      obtain rfl : s = t := by simpa using hrun
      exact h
  | cons action actions ih =>
      obtain ⟨next, hstep, hrest⟩ := run_cons_eq_some_iff.mp hrun
      rw [trace_cons hstep, failuresFrom_append]
      exact ih (step_delay h hstep).1 hrest

/-- The delay at the end of a run is the initial one, doubled for each failed
attempt since the last restart and cut off at the bound; and no assertion fails
exactly when no write event comes to a connected connector. -/
theorem backoff_contract {actions : List Action} {s : Connector}
    (hrun : run step create actions = some s) :
    s.retryDelayMs_ =
        delayAfter (failuresFrom 0 (trace step attempts create actions)) ∧
      (Always step (fun t => t.fault = none) create actions ↔
        Guarded step WriteGuard create actions) := by
  constructor
  · exact run_delay rfl hrun
  · exact always_iff_guarded (I := fun t => ∃ n, t.retryDelayMs_ = delayAfter n)
      (fun _ _ _ ⟨_, h⟩ hstep => ⟨_, (step_delay h hstep).1⟩)
      (fun _ _ _ ⟨_, h⟩ _ hstep => (step_delay h hstep).2)
      ⟨0, rfl⟩ rfl hrun

/-- Attempts that fail, and restarts in between. -/
def refusedRun : List Action :=
  [.start, .restart 0 .EINPROGRESS, .handleWrite ⟨111, false⟩,
    .restart 0 .ECONNREFUSED, .restart 0 .EINPROGRESS, .handleError]

theorem backoff_contract_refusedRun :
    ∃ s, run step create refusedRun = some s ∧ s.retryDelayMs_ = 1000 ∧
      s.retryDelayMs_ = delayAfter
        (failuresFrom 0 (trace step attempts create refusedRun)) ∧
      (Always step (fun t => t.fault = none) create refusedRun ↔
        Guarded step WriteGuard create refusedRun) ∧
      Guarded step WriteGuard create refusedRun := by
  obtain ⟨s, hrun, hdelay⟩ : ∃ s, run step create refusedRun = some s ∧
      s.retryDelayMs_ = 1000 := exists_run_of_eval (by decide +kernel)
  obtain ⟨hcontract, hassertions⟩ := backoff_contract hrun
  exact ⟨s, hrun, hdelay, hcontract, hassertions, by decide +kernel⟩

end Connector

end EventServer.Network
