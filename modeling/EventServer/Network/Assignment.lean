import Mathlib.Data.Int.CardIntervalMod
import EventServer.Support.Run
import EventServer.Network.TcpServerSteps

/-!
# The loop of a connection

`setThreadNum` documents how connections are given to loops: without threads
all of them are handled by the dispatcher of the server, and the loops of a
pool take turns.  The pool keeps its half of this promise, also when its
counter grows large.  Without loops it hands out a null pointer.
-/

namespace EventServer.Network

open EventServer.Support
open EventServer.Thread

namespace TcpServer

/-- The dispatcher that the documentation promises to connection number
`k`. -/
def documentedLoop (threadNum k : ℕ) : ServerThread :=
  if threadNum = 0 then .acceptor else .io (k % threadNum)

/-- The dispatcher that `newConnection` takes next, or a null pointer. -/
def nextLoop (s : TcpServer) : Option ServerThread :=
  s.threadPool_.getNextLoop.1.map .io

/-- The loops of the connections, in the order of their acceptance. -/
def loops (s : TcpServer) : List ℕ := s.conns.map TcpConnection.dispatcher_

/-- How many connections have been given to a loop. -/
def load (s : TcpServer) (l : ℕ) : ℕ := s.loops.count l

/-- Connections are given to dispatchers as documented. -/
structure RoundRobin (s : TcpServer) (threadNum : ℕ) : Prop where
  next_eq : s.nextLoop = some (documentedLoop threadNum s.conns.length)
  given : ∀ k l, s.loops[k]? = some l → documentedLoop threadNum k = .io l
  balanced : ∀ l < threadNum, ∀ m < threadNum, s.load l ≤ s.load m + 1

/-! ## One step -/

theorem loops_set {s : TcpServer} {c : ConnId} {conn next : TcpConnection}
    (hconn : s.conns[c]? = some conn)
    (hsame : next.dispatcher_ = conn.dispatcher_) :
    (s.conns.set c next).map TcpConnection.dispatcher_ = s.loops := by
  apply List.ext_getElem?
  intro i
  rw [loops, List.getElem?_map, List.getElem?_map]
  by_cases hi : i = c
  · subst hi
    have hlt := (List.getElem?_eq_some_iff.mp hconn).1
    rw [List.getElem?_set_self hlt, hconn]
    simp [hsame]
  · rw [List.getElem?_set_ne (Ne.symm hi)]

/-- Only `newConnection` takes a loop from the pool. -/
theorem step_loops {s t : TcpServer} {a : Action}
    (hstep : step s a = some t) :
    (t.threadPool_ = s.threadPool_ ∧ t.loops = s.loops) ∨
      ∃ ioLoop, s.threadPool_.getNextLoop = (some ioLoop, t.threadPool_) ∧
        t.loops = s.loops ++ [ioLoop] := by
  cases a with
  | newConnection =>
      rw [step] at hstep
      obtain ⟨-, ioLoop, pool, hpool, rfl⟩ := newConnection_cases hstep
      refine Or.inr ⟨ioLoop, hpool, ?_⟩
      simp [loops, TcpConnection.fresh]
  | obtainSlot =>
      obtain ⟨c, conn, -, -, rfl⟩ := obtainSlot_cases hstep
      exact Or.inl ⟨rfl, rfl⟩
  | assignSlot =>
      obtain ⟨c, conn, -, -, rfl⟩ := assignSlot_cases hstep
      exact Or.inl ⟨rfl, rfl⟩
  | runTask l =>
      obtain ⟨c, rest, conn, -, -, hconn, rfl⟩ := runTask_cases hstep
      exact Or.inl ⟨rfl, loops_set hconn rfl⟩
  | readable l c result write =>
      obtain ⟨conn, next, -, hconn, -, hsame, hcases⟩ := readable_cases hstep
      rcases hcases with ⟨-, -, rfl⟩ | ⟨-, -, -, rfl⟩
      · exact Or.inl ⟨rfl, loops_set hconn hsame.dispatcher_eq⟩
      · exact Or.inl ⟨rfl, loops_set hconn hsame.dispatcher_eq⟩
  | finishRemove l =>
      obtain ⟨c, temp, conn, -, -, -, rfl⟩ := finishRemove_cases hstep
      exact Or.inl ⟨rfl, rfl⟩

/-! ## Runs -/

/-- The invariant of a run: the pool counts the connections, and the loops
have taken turns. -/
structure Turns (s : TcpServer) (threadNum : ℕ) : Prop where
  threadNum_eq : s.threadPool_.threadNum = threadNum
  counter : s.loops.length < 2 ^ 64 → s.threadPool_.loopIndex_ = s.loops.length
  loops_eq : s.loops.length ≤ 2 ^ 64 →
    s.loops = (List.range s.loops.length).map (· % threadNum)

theorem turns_preserved {threadNum : ℕ} {s t : TcpServer} {a : Action}
    (h : s.Turns threadNum) (hstep : step s a = some t) :
    t.Turns threadNum := by
  rcases step_loops hstep with ⟨hpool, hloops⟩ | ⟨ioLoop, hnext, hloops⟩
  · constructor
    · rw [hpool, h.threadNum_eq]
    · rw [hpool, hloops]
      exact h.counter
    · rw [hloops]
      exact h.loops_eq
  · have hlength : t.loops.length = s.loops.length + 1 := by simp [hloops]
    have hthreads := h.threadNum_eq
    unfold EventLoopThreadPool.getNextLoop at hnext
    split at hnext
    swap
    · cases hnext
    obtain ⟨hioLoop, hpool⟩ := Prod.mk.inj hnext
    have hioLoop' := Option.some.inj hioLoop
    constructor
    · rw [← hpool]
      exact hthreads
    · intro hlt
      have hcounter := h.counter (by omega)
      rw [← hpool]
      change sizeAdd s.threadPool_.loopIndex_ 1 = _
      rw [hcounter, sizeAdd_eq (by omega), hlength]
    · intro hle
      have hcounter := h.counter (by omega)
      rw [hlength, List.range_succ, List.map_append,
        ← h.loops_eq (by omega), hloops, ← hioLoop', hthreads, hcounter]
      rfl

theorem Turns.load_eq {threadNum : ℕ} {s : TcpServer} (h : s.Turns threadNum)
    (hlength : s.loops.length ≤ 2 ^ 64) {l : ℕ} (hl : l < threadNum) :
    s.load l = s.loops.length / threadNum +
      if l < s.loops.length % threadNum then 1 else 0 := by
  have hcount := Nat.count_modEq_card s.loops.length
    (Nat.zero_lt_of_lt hl) l
  rw [Nat.mod_eq_of_lt hl] at hcount
  rw [← hcount, load, h.loops_eq hlength, List.count, List.countP_map,
    Nat.count, List.length_map, List.length_range]
  apply List.countP_congr
  intro k _
  simp [Nat.ModEq, Nat.mod_eq_of_lt hl]

theorem Turns.balanced {threadNum : ℕ} {s : TcpServer}
    (h : s.Turns threadNum) (hlength : s.loops.length ≤ 2 ^ 64) {l m : ℕ}
    (hl : l < threadNum) (hm : m < threadNum) : s.load l ≤ s.load m + 1 := by
  rw [h.load_eq hlength hl, h.load_eq hlength hm]
  split
  · split
    · omega
    · omega
  · omega

theorem create_turns (listenAddr : InetAddress) (nameArg : List Char)
    (threadNum : ℕ) : (create listenAddr nameArg threadNum).Turns threadNum :=
  ⟨rfl, fun _ => rfl, fun _ => rfl⟩

theorem Turns.roundRobin {threadNum : ℕ} {s : TcpServer}
    (h : s.Turns threadNum) (hpos : 1 ≤ threadNum)
    (hlength : s.conns.length < 2 ^ 64) : s.RoundRobin threadNum := by
  have hsame : s.loops.length = s.conns.length := List.length_map _
  rw [← hsame] at hlength
  have hdocumented : ∀ k, documentedLoop threadNum k = .io (k % threadNum) :=
    fun k => if_neg (by omega)
  refine ⟨?_, ?_, ?_⟩
  · have hthreads := h.threadNum_eq
    have hsome : 0 < s.threadPool_.threadNum := by omega
    rw [hdocumented, ← hsame, ← h.counter hlength, ← hthreads, nextLoop,
      EventLoopThreadPool.getNextLoop, if_pos hsome]
    rfl
  · intro k l hk
    have hlt := (List.getElem?_eq_some_iff.mp hk).1
    rw [h.loops_eq hlength.le, List.getElem?_map, List.getElem?_range hlt] at hk
    rw [hdocumented]
    exact congrArg ServerThread.io (Option.some.inj hk)
  · intro l hl m hm
    exact h.balanced hlength.le hl hm

/-- In all runs with fewer than `2 ^ 64` accepted connections these are given
to dispatchers as documented exactly when the pool has a thread. -/
theorem roundRobin_iff_thread (listenAddr : InetAddress)
    (nameArg : List Char) (threadNum : ℕ) :
    (∀ actions s,
        run step (create listenAddr nameArg threadNum) actions = some s →
        s.conns.length < 2 ^ 64 → s.RoundRobin threadNum) ↔
      1 ≤ threadNum := by
  constructor
  · intro hall
    by_contra hzero
    have hthreads : threadNum = 0 := by omega
    subst hthreads
    have hnext := (hall [] _ rfl (Nat.two_pow_pos 64)).next_eq
    cases hnext
  · intro hpos actions s hrun hlength
    have hturns : s.Turns threadNum :=
      run_invariant (fun _ _ _ h hstep => turns_preserved h hstep)
        (create_turns listenAddr nameArg threadNum) hrun
    exact hturns.roundRobin hpos hlength

/-- A server without threads meets a null pointer at the first connection. -/
theorem first_connection_without_threads :
    (create .any [] 0).nextLoop = none ∧
      documentedLoop 0 0 = .acceptor ∧
      step (create .any [] 0) .newConnection = none ∧
      ¬ (create .any [] 0).RoundRobin 0 := by
  refine ⟨rfl, rfl, rfl, ?_⟩
  intro h
  cases h.next_eq

end TcpServer

end EventServer.Network
