import EventServer.Support.Run
import EventServer.Network.TcpServerSteps

/-!
# The registry of connections

What it means that the registrations and removals of connections are in order,
and the invariant that keeps them so: the names are numbered, the acceptor, the
loops and the history agree on the states of the connections, and the map has
one entry for each stored connection that is not yet gone.
-/

namespace EventServer.Network

open EventServer.Support

namespace TcpServer

/-- `newConnection` has not yet finished storing the connection. -/
def Held (s : TcpServer) (c : ConnId) : Prop :=
  s.acceptorPc = .posted c ∨ s.acceptorPc = .assigning c

instance (s : TcpServer) (c : ConnId) : Decidable (s.Held c) :=
  inferInstanceAs (Decidable (_ ∨ _))

/-- The connections that have been erased from the map. -/
def erased (s : TcpServer) : List ConnId := s.erasures.map Erasure.conn

/-- All removals have found and erased their own connection, those in progress
can go on, every closed connection is erased once or about to be, and nothing
is or will be stored for a connection that is gone. -/
structure Registered (s : TcpServer) : Prop where
  lookups_found : ∀ k ∈ s.lookups, k.found = some (some k.conn)
  erasures_removed : ∀ e ∈ s.erasures, e.removed = some (some e.conn)
  erased_nodup : s.erased.Nodup
  removal_finishes : ∀ l c temp, s.loopPc l = .removing c temp →
    (s.finishRemove l).isSome
  closed_removed : ∀ c conn, s.conns[c]? = some conn →
    conn.state_ = .kDisconnected →
      (∃ temp, s.loopPc conn.dispatcher_ = .removing c temp) ∨ c ∈ s.erased
  erased_absent : ∀ c conn, s.conns[c]? = some conn → c ∈ s.erased →
    s.connections_.lookup conn.name_ = none
  closed_unheld : ∀ c conn, s.conns[c]? = some conn →
    conn.state_ = .kDisconnected → ¬ s.Held c

/-- An end of file of a connection arrives after the connection is stored. -/
def StoredFirst (s : TcpServer) : Action → Prop
  | .readable _ c result _ => result = .stored [] → ¬ s.Held c
  | _ => True

instance (s : TcpServer) : DecidablePred s.StoredFirst
  | .readable _ c result _ =>
      inferInstanceAs (Decidable (result = .stored [] → ¬ s.Held c))
  | .newConnection | .obtainSlot | .assignSlot | .runTask _
  | .finishRemove _ => isTrue trivial

/-- A connection is only accepted while `nextConnId_` has not overflowed.  This
includes the accept that takes the last number: the overflow of its increment
is seen by the next one only. -/
def CounterInRange (s : TcpServer) : Action → Prop
  | .newConnection => 0 < s.nextConnId_
  | _ => True

instance (s : TcpServer) : DecidablePred s.CounterInRange
  | .newConnection => inferInstanceAs (Decidable (0 < s.nextConnId_))
  | .readable .. | .obtainSlot | .assignSlot | .runTask _
  | .finishRemove _ => isTrue trivial

/-! ## Names -/

/-- The text of a connection's name always fits into its buffer, so that the
counter can be read off the name. -/
theorem connName_eq {s : TcpServer} (hipPort : s.ipPort_.length ≤ 47) {n : ℕ}
    (hn : n ≤ 2 ^ 31) :
    s.connName n = s.name_ ++ '-' :: (s.ipPort_ ++ '#' :: decimal n) := by
  have hdigits : (decimal n).length ≤ 10 := by
    apply decimal_length_le (by decide)
    omega
  rw [connName, decimalInt_natCast, snprintf_of_length_lt]
  simp only [List.length_cons, List.length_append]
  omega

theorem connName_inj {s : TcpServer} (hipPort : s.ipPort_.length ≤ 47)
    {m n : ℕ} (hm : m ≤ 2 ^ 31) (hn : n ≤ 2 ^ 31)
    (h : s.connName m = s.connName n) : m = n := by
  rw [connName_eq hipPort hm, connName_eq hipPort hn] at h
  have hdigits : decimal m = decimal n := by simpa using h
  exact decimal_injective hdigits

/-! ## Properties of a connection in a list of connections -/

/-- The connection exists and has the property. -/
def ConnAt (conns : List TcpConnection) (c : ConnId)
    (P : TcpConnection → Prop) : Prop :=
  ∃ conn, conns[c]? = some conn ∧ P conn

namespace ConnAt

variable {conns : List TcpConnection} {c d : ConnId}
  {P Q : TcpConnection → Prop} {next : TcpConnection}

theorem lt (h : ConnAt conns c P) : c < conns.length := by
  obtain ⟨conn, hconn, -⟩ := h
  exact (List.getElem?_eq_some_iff.mp hconn).1

theorem and_of_getElem? {conn : TcpConnection} (h : ConnAt conns c P)
    (hconn : conns[c]? = some conn) : P conn := by
  obtain ⟨other, hother, hP⟩ := h
  have heq : other = conn := by simpa [hother] using hconn
  exact heq ▸ hP

theorem append (h : ConnAt conns c P) : ConnAt (conns ++ [next]) c P := by
  have hlt := h.lt
  obtain ⟨conn, hconn, hP⟩ := h
  exact ⟨conn, by rw [List.getElem?_append_left hlt, hconn], hP⟩

theorem append_self (h : P next) :
    ConnAt (conns ++ [next]) conns.length P :=
  ⟨next, List.getElem?_concat_length, h⟩

theorem set_self (hlt : c < conns.length) (h : P next) :
    ConnAt (conns.set c next) c P :=
  ⟨next, by simp [hlt], h⟩

theorem set_of_ne (h : ConnAt conns d P) (hne : d ≠ c) :
    ConnAt (conns.set c next) d P := by
  obtain ⟨conn, hconn, hP⟩ := h
  exact ⟨conn, by rw [List.getElem?_set_ne hne.symm, hconn], hP⟩

/-- Replacing a connection by one that has the same property. -/
theorem set (h : ConnAt conns d P) (hnext : d = c → P next) :
    ConnAt (conns.set c next) d P := by
  by_cases hd : d = c
  · have hlt := h.lt
    subst hd
    exact set_self hlt (hnext rfl)
  · exact h.set_of_ne hd

/-- Two properties that exclude each other belong to different connections. -/
theorem ne (hP : ConnAt conns c P) (hQ : ConnAt conns d Q)
    (hexclude : ∀ conn, P conn → ¬ Q conn) : c ≠ d := by
  rintro rfl
  obtain ⟨conn, hconn, hQconn⟩ := hQ
  exact hexclude conn (hP.and_of_getElem? hconn) hQconn

end ConnAt

theorem getElem?_append_cases {conns : List TcpConnection} {c : ConnId}
    {next conn : TcpConnection} (h : (conns ++ [next])[c]? = some conn) :
    conns[c]? = some conn ∨ c = conns.length ∧ conn = next := by
  have hlt := (List.getElem?_eq_some_iff.mp h).1
  rw [List.length_append, List.length_singleton] at hlt
  by_cases hc : c = conns.length
  · subst hc
    rw [List.getElem?_concat_length] at h
    exact Or.inr ⟨rfl, (Option.some.inj h).symm⟩
  · have hlt' := Nat.lt_of_le_of_ne (Nat.lt_succ_iff.mp hlt) hc
    rw [List.getElem?_append_left hlt'] at h
    exact Or.inl h

theorem getElem?_set_cases {conns : List TcpConnection} {c d : ConnId}
    {next conn : TcpConnection} (h : (conns.set c next)[d]? = some conn) :
    (d = c ∧ conn = next) ∨ conns[d]? = some conn := by
  by_cases hd : c = d
  · subst hd
    rw [List.getElem?_set_self'] at h
    obtain ⟨_, -, heq⟩ := Option.map_eq_some_iff.mp h
    exact Or.inl ⟨rfl, heq.symm⟩
  · rw [List.getElem?_set_ne hd] at h
    exact Or.inr h

/-! ## The invariant -/

/-- What the map holds under the name of a connection that exists. -/
def entryOf (s : TcpServer) (c : ConnId) : Option TcpConnectionPtr :=
  if s.acceptorPc = .posted c then none
  else if s.acceptorPc = .assigning c then some none
  else if c ∈ s.erased then none
  else some (some c)

/-- The names of the connections are numbered in the order of their
creation. -/
structure Numbered (s : TcpServer) : Prop where
  ipPort_le : s.ipPort_.length ≤ 47
  length_lt : s.conns.length < 2 ^ 31
  nextConnId_eq : s.nextConnId_ = wrapInt (s.conns.length + 1)
  name_eq : ∀ c conn, s.conns[c]? = some conn →
    conn.name_ = s.connName ((c + 1 : ℕ) : ℤ)

/-- What the acceptor, the loops and the history say about the states of the
connections. -/
structure Staged (s : TcpServer) : Prop where
  held : ∀ c, s.Held c →
    ConnAt s.conns c fun conn => conn.state_ ≠ .kDisconnected
  task : ∀ l, ∀ c ∈ s.tasks l, ConnAt s.conns c fun conn =>
    conn.dispatcher_ = l ∧ conn.state_ = .kConnecting
  task_nodup : ∀ l, (s.tasks l).Nodup
  removing : ∀ l c temp, s.loopPc l = .removing c temp →
    temp = some c ∧ c ∉ s.erased ∧ ConnAt s.conns c fun conn =>
      conn.dispatcher_ = l ∧ conn.state_ = .kDisconnected
  erased : ∀ c ∈ s.erased,
    ConnAt s.conns c fun conn => conn.state_ = .kDisconnected
  erased_nodup : s.erased.Nodup

/-- The contents of the map, and what the removals have found in it. -/
structure Mapped (s : TcpServer) : Prop where
  lookup_eq : ∀ c < s.conns.length,
    s.connections_.lookup (s.connName ((c + 1 : ℕ) : ℤ)) = s.entryOf c
  lookup_other : ∀ key,
    (∀ c < s.conns.length, key ≠ s.connName ((c + 1 : ℕ) : ℤ)) →
      s.connections_.lookup key = none
  lookups_found : ∀ k ∈ s.lookups, k.found = some (some k.conn)
  erasures_removed : ∀ e ∈ s.erasures, e.removed = some (some e.conn)

/-- The invariant of the runs in which every connection is stored before its
end of file. -/
structure Registry (s : TcpServer) : Prop where
  numbered : s.Numbered
  staged : s.Staged
  mapped : s.Mapped

/-! ## The invariant gives the property -/

theorem entryOf_of_erased {s : TcpServer} (hstaged : s.Staged) {c : ConnId}
    (hc : c ∈ s.erased) : s.entryOf c = none := by
  have hunheld : ¬ s.Held c := by
    intro hheld
    exact (hstaged.held c hheld).ne (hstaged.erased c hc)
      (fun _ hopen => hopen) rfl
  have hassigning : s.acceptorPc ≠ .assigning c := fun h => hunheld (.inr h)
  simp [entryOf, hassigning, hc]

theorem entryOf_of_not_held {s : TcpServer} {c : ConnId} (hheld : ¬ s.Held c)
    (hc : c ∉ s.erased) : s.entryOf c = some (some c) := by
  obtain ⟨hposted, hassigning⟩ := not_or.mp hheld
  simp [entryOf, hposted, hassigning, hc]

/-- The entry under the name of an existing connection. -/
theorem lookup_name {s : TcpServer} (hnumbered : s.Numbered)
    (hmapped : s.Mapped) {c : ConnId} {conn : TcpConnection}
    (hconn : s.conns[c]? = some conn) :
    s.connections_.lookup conn.name_ = s.entryOf c := by
  have hlt := (List.getElem?_eq_some_iff.mp hconn).1
  rw [hnumbered.name_eq c conn hconn]
  exact hmapped.lookup_eq c hlt

/-- A connection in removal still has its entry. -/
theorem Registry.lookup_removing {s : TcpServer} (h : s.Registry) {l : ℕ}
    {c : ConnId} {temp : TcpConnectionPtr} {conn : TcpConnection}
    (hremoving : s.loopPc l = .removing c temp)
    (hconn : s.conns[c]? = some conn) :
    s.connections_.lookup conn.name_ = some (some c) := by
  obtain ⟨-, hc, hclosed⟩ := h.staged.removing l c temp hremoving
  rw [lookup_name h.numbered h.mapped hconn]
  apply entryOf_of_not_held _ hc
  intro hheld
  exact (h.staged.held c hheld).ne hclosed
    (fun _ hopen hshut => hopen hshut.2) rfl

/-- A removal in progress can go on. -/
theorem Registry.removal_finishes {s : TcpServer} (h : s.Registry) {l : ℕ}
    {c : ConnId} {temp : TcpConnectionPtr}
    (hremoving : s.loopPc l = .removing c temp) :
    (s.finishRemove l).isSome := by
  obtain ⟨htemp, -, conn, hconn, -⟩ := h.staged.removing l c temp hremoving
  have hentry := h.lookup_removing hremoving hconn
  subst htemp
  simp [finishRemove, hremoving, hconn, hentry]

end TcpServer

end EventServer.Network
