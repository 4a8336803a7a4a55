import EventServer.Network.Registration

/-!
# The names of connections

Here `newConnection` and `removeConnection` are executed as wholes, one at a
time and in any order.  The counter in the name of a connection is never cut
off by the buffer, so that no two names are equal and the map holds each
connection under its own name.
-/

namespace EventServer.Network

open EventServer.Support

namespace TcpServer

/-- The whole of `newConnection`. -/
def acceptConnection (s : TcpServer) : Option TcpServer :=
  s.newConnection.bind fun posted => posted.obtainSlot.bind assignSlot

/-- The whole of `removeConnection`, on the loop of the connection. -/
def removeConnection (s : TcpServer) (c : ConnId) : Option TcpServer :=
  (s.conns[c]?).bind fun conn =>
    (s.beginRemove conn.dispatcher_ c conn).finishRemove conn.dispatcher_

inductive SerialAction where
  | newConnection
  | removeConnection (c : ConnId)
  deriving DecidableEq, Repr

/-- The step function when nothing interrupts the two functions. -/
def serialStep (s : TcpServer) : SerialAction → Option TcpServer
  | .newConnection => s.acceptConnection
  | .removeConnection c => s.removeConnection c

/-- After the actions the names differ, also from the next one, and the map
holds exactly the connections that were accepted and not removed by then, each
under its name. -/
structure NamedApart (s : TcpServer) (actions : List SerialAction) : Prop where
  accepted : s.conns.length = actions.count .newConnection
  names_nodup : (s.conns.map TcpConnection.name_).Nodup
  next_absent : s.conns.length + 1 < 2 ^ 31 →
    s.connections_.lookup (s.connName s.nextConnId_) = none
  lookup_iff : ∀ key p, s.connections_.lookup key = some p ↔
    ∃ c conn, s.conns[c]? = some conn ∧ .removeConnection c ∉ actions ∧
      conn.name_ = key ∧ p = some c

/-! ## The invariant -/

/-- Between two calls the acceptor holds no connection, and the map has an
entry for each connection that is not removed. -/
structure Stored (s : TcpServer) : Prop where
  numbered : s.Numbered
  mapped : s.Mapped
  idle : s.acceptorPc = .idle
  erased_lt : ∀ c ∈ s.erased, c < s.conns.length

theorem Stored.entryOf_eq {s : TcpServer} (h : s.Stored) (c : ConnId) :
    s.entryOf c = if c ∈ s.erased then none else some (some c) := by
  simp [entryOf, h.idle]

theorem create_stored (listenAddr : InetAddress) (nameArg : List Char)
    (threadNum : ℕ) : (create listenAddr nameArg threadNum).Stored := by
  have h := create_registry listenAddr nameArg threadNum
  exact ⟨h.numbered, h.mapped, rfl, nofun⟩

/-- An accept that comes to its end goes through all three steps. -/
theorem acceptConnection_cases {s t : TcpServer}
    (hstep : s.acceptConnection = some t) :
    ∃ posted assigning, s.newConnection = some posted ∧
      posted.obtainSlot = some assigning ∧ assigning.assignSlot = some t ∧
      assigning.acceptorPc = .assigning s.conns.length ∧
      t.acceptorPc = .idle ∧ t.conns.length = s.conns.length + 1 ∧
      assigning.erased = s.erased ∧ t.erased = s.erased := by
  obtain ⟨posted, hnew, hrest⟩ := Option.bind_eq_some_iff.mp hstep
  obtain ⟨assigning, hobtain, hassign⟩ := Option.bind_eq_some_iff.mp hrest
  refine ⟨posted, assigning, hnew, hobtain, hassign, ?_⟩
  obtain ⟨-, ioLoop, pool, -, rfl⟩ := newConnection_cases hnew
  obtain ⟨c, conn, hposted, -, rfl⟩ := obtainSlot_cases hobtain
  obtain ⟨d, other, -, -, rfl⟩ := assignSlot_cases hassign
  have hc : c = s.conns.length := (AcceptorPc.posted.inj hposted).symm
  exact ⟨congrArg AcceptorPc.assigning hc, rfl, List.length_append, rfl, rfl⟩

/-- A removal that comes to its end is finished for the connection for which
it was begun. -/
theorem removeConnection_cases {s t : TcpServer} {c : ConnId}
    (hstep : s.removeConnection c = some t) :
    ∃ conn temp, s.conns[c]? = some conn ∧
      (s.connections_.subscript conn.name_).1 = some temp ∧
      let begun := s.beginRemove conn.dispatcher_ c conn
      begun.finishRemove conn.dispatcher_ = some t ∧ t = {
        begun.access (.io conn.dispatcher_) .connections_ with
        connections_ := begun.connections_.erase conn.name_
        loopPc := Function.update begun.loopPc conn.dispatcher_ .idle
        erasures := begun.erasures ++
          [⟨c, begun.connections_.lookup conn.name_⟩] } := by
  obtain ⟨conn, hconn, hremove⟩ := Option.bind_eq_some_iff.mp hstep
  obtain ⟨d, temp, other, hremoving, hother, -, ht⟩ :=
    finishRemove_cases hremove
  have hself : (s.beginRemove conn.dispatcher_ c conn).loopPc conn.dispatcher_ =
      .removing c (s.connections_.subscript conn.name_).1 :=
    Function.update_self _ _ _
  rw [hself] at hremoving
  obtain ⟨rfl, htemp⟩ := LoopPc.removing.inj hremoving
  have hsame : s.conns[c]? = some other := hother
  obtain rfl := Option.some.inj (hsame.symm.trans hconn)
  exact ⟨other, temp, hconn, htemp, hremove, ht⟩

theorem removeConnection_erased {s t : TcpServer} {c : ConnId}
    (hstep : s.removeConnection c = some t) :
    t.conns.length = s.conns.length ∧ t.erased = s.erased ++ [c] := by
  obtain ⟨conn, temp, -, -, -, rfl⟩ := removeConnection_cases hstep
  exact ⟨rfl, List.map_append⟩

/-- What the state says about the actions: how many connections were accepted,
and which of them were removed. -/
structure Recorded (actions : List SerialAction) (s : TcpServer) : Prop where
  accepted : s.conns.length = actions.count .newConnection
  erased_iff : ∀ c, c ∈ s.erased ↔ .removeConnection c ∈ actions

theorem create_recorded (listenAddr : InetAddress) (nameArg : List Char)
    (threadNum : ℕ) : Recorded [] (create listenAddr nameArg threadNum) where
  accepted := rfl
  erased_iff := fun _ => ⟨nofun, nofun⟩

theorem serialStep_recorded {actions : List SerialAction} {s t : TcpServer}
    {a : SerialAction} (h : Recorded actions s)
    (hstep : s.serialStep a = some t) : Recorded (actions ++ [a]) t := by
  cases a with
  | newConnection =>
      obtain ⟨_, _, -, -, -, -, -, hlength, -, herased⟩ :=
        acceptConnection_cases hstep
      constructor
      · rw [hlength, h.accepted, List.count_append]
        rfl
      · intro c
        rw [herased, h.erased_iff]
        simp
  | removeConnection d =>
      obtain ⟨hlength, herased⟩ := removeConnection_erased hstep
      constructor
      · rw [hlength, h.accepted, List.count_append]
        rfl
      · intro c
        rw [herased]
        simp [h.erased_iff]

/-- While the counter is in range, an accepted connection is stored under a
new name. -/
theorem acceptConnection_stored {s t : TcpServer} (h : s.Stored)
    (hlength : s.conns.length + 1 < 2 ^ 31)
    (hstep : s.acceptConnection = some t) : t.Stored := by
  obtain ⟨posted, assigning, hnew, hobtain, hassign, hassigning, hidle, hgrown,
    hkept, herased⟩ := acceptConnection_cases hstep
  have hcounter : 0 < s.nextConnId_ := by
    rw [h.numbered.nextConnId_eq, wrapInt_eq]
    · omega
    · omega
    · exact_mod_cast hlength
  have hnumbered := (newConnection_numbered h.numbered hcounter hnew).1
  have hmapped := newConnection_mapped h.numbered h.mapped hnew
  have hnumbered' := obtainSlot_numbered hnumbered hobtain
  have hmapped' := obtainSlot_mapped hnumbered hmapped hobtain
  have hstored : ∀ d, assigning.acceptorPc = .assigning d →
      d ∉ assigning.erased := by
    intro d hd hmem
    have heq := AcceptorPc.assigning.inj (hassigning.symm.trans hd)
    rw [hkept] at hmem
    exact (h.erased_lt d hmem).ne heq.symm
  refine ⟨assignSlot_numbered hnumbered' hassign,
    assignSlot_mapped hnumbered' hmapped' hstored hassign, hidle, ?_⟩
  intro e he
  rw [herased] at he
  rw [hgrown]
  exact Nat.lt_succ_of_lt (h.erased_lt e he)

/-- A removal that finds its connection begins without changing the map. -/
theorem beginRemove_stored {s : TcpServer} {l : ℕ} {c : ConnId}
    {conn : TcpConnection} (h : s.Stored)
    (hfound : s.connections_.lookup conn.name_ = some (some c)) :
    (s.beginRemove l c conn).Stored ∧
      (s.beginRemove l c conn).connections_ = s.connections_ := by
  have hmap : (s.beginRemove l c conn).connections_ = s.connections_ := by
    simp [beginRemove, ConnectionMap.subscript_of_some hfound]
  refine ⟨⟨?_, ?_, h.idle, h.erased_lt⟩, hmap⟩
  · exact h.numbered.of_eq rfl rfl rfl rfl
  · refine h.mapped.of_eq (t := s.beginRemove l c conn) rfl rfl hmap rfl rfl ?_
    intro k hk
    rcases List.mem_append.mp hk with hold | hnew
    · exact h.mapped.lookups_found k hold
    · rw [List.mem_singleton.mp hnew]
      exact hfound

/-- Only a stored connection can be removed, and then its own entry is
erased. -/
theorem removeConnection_stored {s t : TcpServer} {c : ConnId} (h : s.Stored)
    (hstep : s.removeConnection c = some t) : t.Stored := by
  obtain ⟨other, temp, hconn, htemp, hremove, ht⟩ := removeConnection_cases hstep
  have hlt := (List.getElem?_eq_some_iff.mp hconn).1
  have hlookup := lookup_name h.numbered h.mapped hconn
  rw [h.entryOf_eq] at hlookup
  by_cases hc : c ∈ s.erased
  · -- the second removal of a connection reads a null pointer
    rw [if_pos hc] at hlookup
    rw [ConnectionMap.subscript_of_none hlookup] at htemp
    cases htemp
  · rw [if_neg hc] at hlookup
    obtain ⟨hbegun, hmap⟩ :=
      beginRemove_stored (l := other.dispatcher_) h hlookup
    have hfound := hlookup
    rw [← hmap] at hfound
    have hheld : ¬ (s.beginRemove other.dispatcher_ c other).Held c := by
      rintro (hposted | hassigning)
      · cases hbegun.idle.symm.trans hposted
      · cases hbegun.idle.symm.trans hassigning
    have hmapped := finishRemove_mapped hbegun.numbered hbegun.mapped hconn
      hfound hheld ht
    have hnumbered := finishRemove_numbered hbegun.numbered hremove
    subst ht
    refine ⟨hnumbered, hmapped, h.idle, ?_⟩
    intro e he
    have herased : e ∈ s.erased ++ [c] := by
      rw [TcpServer.erased, List.map_append] at he
      exact he
    rcases List.mem_append.mp herased with hold | hnew
    · exact h.erased_lt e hold
    · rw [List.mem_singleton.mp hnew]
      exact hlt

/-! ## The invariant gives the property -/

theorem Stored.namedApart {s : TcpServer} {actions : List SerialAction}
    (h : s.Stored) (hrecorded : Recorded actions s) : s.NamedApart actions where
  accepted := hrecorded.accepted
  names_nodup := by
    rw [List.nodup_iff_getElem?_ne_getElem?]
    intro c d hcd hd heq
    rw [List.length_map] at hd
    have hc : c < s.conns.length := hcd.trans hd
    have hfirst := List.getElem?_eq_getElem hc
    have hsecond := List.getElem?_eq_getElem hd
    rw [List.getElem?_map, List.getElem?_map, hfirst, hsecond] at heq
    have hname : s.conns[c].name_ = s.conns[d].name_ := Option.some.inj heq
    have hnumber := h.numbered.name_eq d _ hsecond
    exact h.numbered.name_ne hfirst hd (ne_of_gt hcd)
      (hnumber.symm.trans hname.symm)
  next_absent := by
    intro hlength
    apply h.mapped.lookup_other
    intro c hc heq
    have hid : s.nextConnId_ = ((s.conns.length + 1 : ℕ) : ℤ) := by
      rw [h.numbered.nextConnId_eq, wrapInt_eq]
      · push_cast
        rfl
      · omega
      · exact_mod_cast hlength
    rw [hid] at heq
    have := connName_inj h.numbered.ipPort_le (by omega) (by omega) heq
    omega
  lookup_iff := by
    intro key p
    constructor
    · intro hlookup
      by_cases hkey : ∃ c < s.conns.length,
          key = s.connName ((c + 1 : ℕ) : ℤ)
      · obtain ⟨c, hc, rfl⟩ := hkey
        have hconn := List.getElem?_eq_getElem hc
        rw [h.mapped.lookup_eq c hc, h.entryOf_eq] at hlookup
        by_cases herased : c ∈ s.erased
        · rw [if_pos herased] at hlookup
          cases hlookup
        · rw [if_neg herased] at hlookup
          have hkept := mt (hrecorded.erased_iff c).mpr herased
          exact ⟨c, _, hconn, hkept, h.numbered.name_eq c _ hconn,
            (Option.some.inj hlookup).symm⟩
      · have hnone := h.mapped.lookup_other key
          (fun c hc heq => hkey ⟨c, hc, heq⟩)
        rw [hnone] at hlookup
        cases hlookup
    · rintro ⟨c, conn, hconn, hkept, rfl, rfl⟩
      rw [lookup_name h.numbered h.mapped hconn, h.entryOf_eq,
        if_neg (mt (hrecorded.erased_iff c).mp hkept)]

/-! ## Runs -/

/-- The invariant, as long as the counter has not overflowed. -/
theorem serialStep_stored {s t : TcpServer} {a : SerialAction}
    (h : s.conns.length < 2 ^ 31 → s.Stored) (hstep : s.serialStep a = some t)
    (hlength : t.conns.length < 2 ^ 31) : t.Stored := by
  cases a with
  | newConnection =>
      obtain ⟨_, _, -, -, -, -, -, hgrown, -⟩ := acceptConnection_cases hstep
      rw [hgrown] at hlength
      exact acceptConnection_stored (h (Nat.lt_of_succ_lt hlength)) hlength
        hstep
  | removeConnection c =>
      have hsame := (removeConnection_erased hstep).1
      rw [hsame] at hlength
      exact removeConnection_stored (h hlength) hstep

theorem recorded_of_run {listenAddr : InetAddress} {nameArg : List Char}
    {threadNum : ℕ} {actions : List SerialAction} {s : TcpServer}
    (hrun : run serialStep (create listenAddr nameArg threadNum) actions =
      some s) : Recorded actions s :=
  run_history (H := Recorded) (fun _ _ _ _ h hstep => serialStep_recorded h hstep)
    (create_recorded listenAddr nameArg threadNum) hrun

/-- In every run of fewer than `2 ^ 31` accepted connections the names are
pairwise distinct, an insertion never meets an entry, and the map holds exactly
the connections that were accepted and not yet removed. -/
theorem namedApart_of_run {listenAddr : InetAddress} {nameArg : List Char}
    {threadNum : ℕ} {actions : List SerialAction} {s : TcpServer}
    (hrun : run serialStep (create listenAddr nameArg threadNum) actions =
      some s)
    (haccepted : actions.count .newConnection < 2 ^ 31) :
    s.NamedApart actions := by
  have hrecorded := recorded_of_run hrun
  have hstored : s.conns.length < 2 ^ 31 → s.Stored :=
    run_invariant (I := fun s => s.conns.length < 2 ^ 31 → s.Stored)
      (fun _ _ _ h hstep => serialStep_stored h hstep)
      (fun _ => create_stored listenAddr nameArg threadNum) hrun
  exact (hstored (hrecorded.accepted ▸ haccepted)).namedApart hrecorded

/-- Three connections, of which the first is removed in between. -/
def threeAccepted : List SerialAction :=
  [.newConnection, .newConnection, .removeConnection 0, .newConnection]

theorem namedApart_of_three :
    ∃ s, run serialStep (create .any ['s'] 2) threeAccepted = some s ∧
      s.NamedApart threeAccepted ∧ s.connections_.entries =
        [⟨s.connName 3, some 2⟩, ⟨s.connName 2, some 1⟩] := by
  obtain ⟨s, hrun, hentries⟩ :
      ∃ s, run serialStep (create .any ['s'] 2) threeAccepted = some s ∧
        s.connections_.entries =
          [⟨s.connName 3, some 2⟩, ⟨s.connName 2, some 1⟩] :=
    exists_run_of_eval (by decide +kernel)
  exact ⟨s, hrun, namedApart_of_run hrun (by decide), hentries⟩

end TcpServer

end EventServer.Network
