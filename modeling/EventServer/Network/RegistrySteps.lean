import EventServer.Network.Registry

/-!
# The steps of the server keep the registry

One lemma for each step of the acceptor and of the io loops.
-/

namespace EventServer.Network

open EventServer.Support

namespace TcpServer

/-! ## Steps of the acceptor -/

/-- The new connection takes the next number. -/
theorem newConnection_numbered {s t : TcpServer} (h : s.Numbered)
    (hcounter : 0 < s.nextConnId_) (hstep : s.newConnection = some t) :
    t.Numbered ∧ s.nextConnId_ = ((s.conns.length + 1 : ℕ) : ℤ) := by
  obtain ⟨-, ioLoop, pool, -, ht⟩ := newConnection_cases hstep
  have hlength : s.conns.length + 1 < 2 ^ 31 := by
    by_contra hge
    have hlast : s.conns.length + 1 = 2 ^ 31 := by
      have := h.length_lt
      omega
    have hwrap : s.nextConnId_ = wrapInt (2 ^ 31) := by
      rw [h.nextConnId_eq]
      congr 1
      exact_mod_cast hlast
    rw [hwrap] at hcounter
    revert hcounter
    decide
  have hid : s.nextConnId_ = ((s.conns.length + 1 : ℕ) : ℤ) := by
    rw [h.nextConnId_eq, wrapInt_eq]
    · push_cast
      rfl
    · omega
    · exact_mod_cast hlength
  refine ⟨⟨?_, ?_, ?_, ?_⟩, hid⟩
  · rw [ht]
    exact h.ipPort_le
  · rw [ht]
    simpa using hlength
  · rw [ht]
    simp [hid]
  · intro c conn hconn
    rw [ht] at hconn
    have hname : t.connName = s.connName := by rw [ht]; rfl
    rw [hname]
    rcases getElem?_append_cases hconn with hold | ⟨rfl, rfl⟩
    · exact h.name_eq c conn hold
    · rw [← hid]
      rfl

theorem newConnection_staged {s t : TcpServer} (h : s.Staged)
    (hstep : s.newConnection = some t) : t.Staged := by
  obtain ⟨hidle, ioLoop, pool, -, ht⟩ := newConnection_cases hstep
  have hconns : t.conns = s.conns ++
      [TcpConnection.fresh ioLoop (s.connName s.nextConnId_)] := by
    rw [ht]
  have htasks : t.tasks = Function.update s.tasks ioLoop
      (s.tasks ioLoop ++ [s.conns.length]) := by
    rw [ht]
  have hloops : t.loopPc = s.loopPc := by rw [ht]; rfl
  have herased : t.erased = s.erased := by rw [ht]; rfl
  refine ⟨?_, ?_, ?_, ?_, ?_, ?_⟩
  · intro c hheld
    rw [ht] at hheld
    rcases hheld with hposted | hassigning
    · cases hposted
      rw [hconns]
      exact ConnAt.append_self StateE.noConfusion
    · cases hassigning
  · intro l c hc
    rw [hconns]
    rw [htasks] at hc
    by_cases hl : l = ioLoop
    · subst hl
      rw [Function.update_self, List.mem_append, List.mem_singleton] at hc
      rcases hc with hold | rfl
      · exact (h.task l c hold).append
      · exact ConnAt.append_self ⟨rfl, rfl⟩
    · rw [Function.update_of_ne hl] at hc
      exact (h.task l c hc).append
  · intro l
    rw [htasks]
    by_cases hl : l = ioLoop
    · subst hl
      rw [Function.update_self, List.nodup_append]
      refine ⟨h.task_nodup l, List.nodup_singleton _, ?_⟩
      rintro a ha b hb rfl
      rw [List.mem_singleton] at hb
      exact absurd (h.task l a ha).lt (by simp [hb])
    · rw [Function.update_of_ne hl]
      exact h.task_nodup l
  · intro l c temp hremoving
    rw [hloops] at hremoving
    obtain ⟨htemp, hc, hclosed⟩ := h.removing l c temp hremoving
    rw [herased, hconns]
    exact ⟨htemp, hc, hclosed.append⟩
  · intro c hc
    rw [herased] at hc
    rw [hconns]
    exact (h.erased c hc).append
  · rw [herased]
    exact h.erased_nodup

theorem newConnection_mapped {s t : TcpServer} (hnumbered : s.Numbered)
    (h : s.Mapped) (hstep : s.newConnection = some t) : t.Mapped := by
  obtain ⟨hidle, ioLoop, pool, -, ht⟩ := newConnection_cases hstep
  have hlength : t.conns.length = s.conns.length + 1 := by
    rw [ht]
    simp
  have hposted : t.acceptorPc = .posted s.conns.length := by rw [ht]
  have herased : t.erased = s.erased := by rw [ht]; rfl
  have hname : t.connName = s.connName := by rw [ht]; rfl
  have hmap : t.connections_ = s.connections_ := by rw [ht]; rfl
  have hbound := hnumbered.length_lt
  refine ⟨?_, ?_, ?_, ?_⟩
  · intro c hc
    rw [hmap, hname]
    by_cases hlast : c = s.conns.length
    · subst hlast
      rw [entryOf, hposted, if_pos rfl]
      apply h.lookup_other
      intro d hd heq
      have := connName_inj hnumbered.ipPort_le (by omega) (by omega) heq
      omega
    · have hold : c < s.conns.length :=
        Nat.lt_of_le_of_ne (Nat.lt_succ_iff.mp (by rwa [hlength] at hc)) hlast
      have hne : s.conns.length ≠ c := fun heq => hlast heq.symm
      rw [h.lookup_eq c hold]
      simp [entryOf, hposted, hidle, herased, hne]
  · intro key hkey
    rw [hmap]
    apply h.lookup_other
    intro c hc
    rw [← hname]
    exact hkey c (by omega)
  · rw [ht]
    exact h.lookups_found
  · rw [ht]
    exact h.erasures_removed

/-- The names stay as they are when no connection changes its name. -/
theorem Numbered.of_names {s t : TcpServer} (h : s.Numbered)
    (hname : t.name_ = s.name_) (hipPort : t.ipPort_ = s.ipPort_)
    (hid : t.nextConnId_ = s.nextConnId_)
    (hlength : t.conns.length = s.conns.length)
    (hconns : ∀ (c : ConnId) (conn : TcpConnection), t.conns[c]? = some conn →
      ∃ old : TcpConnection, s.conns[c]? = some old ∧
        conn.name_ = old.name_) :
    t.Numbered where
  ipPort_le := hipPort ▸ h.ipPort_le
  length_lt := hlength ▸ h.length_lt
  nextConnId_eq := by rw [hid, hlength, h.nextConnId_eq]
  name_eq := by
    intro c conn hconn
    obtain ⟨old, hold, heq⟩ := hconns c conn hconn
    rw [heq, h.name_eq c old hold, connName, connName, hname, hipPort]

/-- No connection changes. -/
theorem Numbered.of_eq {s t : TcpServer} (h : s.Numbered)
    (hname : t.name_ = s.name_) (hipPort : t.ipPort_ = s.ipPort_)
    (hid : t.nextConnId_ = s.nextConnId_) (hconns : t.conns = s.conns) :
    t.Numbered := by
  apply h.of_names hname hipPort hid (congrArg List.length hconns)
  intro c conn hconn
  rw [hconns] at hconn
  exact ⟨conn, hconn, rfl⟩

/-- The names of two connections differ. -/
theorem Numbered.name_ne {s : TcpServer} (h : s.Numbered) {c d : ℕ}
    {conn : TcpConnection} (hconn : s.conns[c]? = some conn)
    (hd : d < s.conns.length) (hne : d ≠ c) :
    s.connName ((d + 1 : ℕ) : ℤ) ≠ conn.name_ := by
  intro heq
  have hc := (List.getElem?_eq_some_iff.mp hconn).1
  have hlength := h.length_lt
  rw [h.name_eq c conn hconn] at heq
  have := connName_inj h.ipPort_le (by omega) (by omega) heq
  omega

/-- The acceptor moves on without taking hold of another connection. -/
theorem Staged.of_held {s t : TcpServer} (h : s.Staged)
    (hconns : t.conns = s.conns) (htasks : t.tasks = s.tasks)
    (hloops : t.loopPc = s.loopPc) (herased : t.erased = s.erased)
    (hheld : ∀ c, t.Held c → s.Held c) : t.Staged where
  held := by
    intro c hc
    rw [hconns]
    exact h.held c (hheld c hc)
  task := by
    rw [hconns, htasks]
    exact h.task
  task_nodup := htasks ▸ h.task_nodup
  removing := by
    rw [hconns, hloops, herased]
    exact h.removing
  erased := by
    rw [hconns, herased]
    exact h.erased
  erased_nodup := herased ▸ h.erased_nodup

/-- Only the entry of one connection changes. -/
theorem Mapped.of_entry {s t : TcpServer} (hnumbered : s.Numbered)
    (h : s.Mapped) {c : ConnId} {conn : TcpConnection}
    (hconn : s.conns[c]? = some conn) (hname : t.connName = s.connName)
    (hlength : t.conns.length = s.conns.length)
    (hself : t.connections_.lookup conn.name_ = t.entryOf c)
    (hother : ∀ key, key ≠ conn.name_ →
      t.connections_.lookup key = s.connections_.lookup key)
    (hentry : ∀ d, d ≠ c → t.entryOf d = s.entryOf d)
    (hlookups : t.lookups = s.lookups)
    (herasures : ∀ e ∈ t.erasures, e.removed = some (some e.conn)) :
    t.Mapped where
  lookup_eq := by
    intro d hd
    rw [hlength] at hd
    rw [hname]
    by_cases hdc : d = c
    · subst hdc
      rw [← hnumbered.name_eq d conn hconn]
      exact hself
    · rw [hother _ (hnumbered.name_ne hconn hd hdc), hentry d hdc]
      exact h.lookup_eq d hd
  lookup_other := by
    intro key hkey
    rw [hname, hlength] at hkey
    have hlt := (List.getElem?_eq_some_iff.mp hconn).1
    have hne : key ≠ conn.name_ := by
      rw [hnumbered.name_eq c conn hconn]
      exact hkey c hlt
    rw [hother key hne]
    exact h.lookup_other key hkey
  lookups_found := hlookups ▸ h.lookups_found
  erasures_removed := herasures

theorem obtainSlot_numbered {s t : TcpServer} (h : s.Numbered)
    (hstep : s.obtainSlot = some t) : t.Numbered := by
  obtain ⟨c, conn, -, -, ht⟩ := obtainSlot_cases hstep
  apply h.of_eq
  all_goals rw [ht]; rfl

theorem obtainSlot_mapped {s t : TcpServer} (hnumbered : s.Numbered)
    (h : s.Mapped) (hstep : s.obtainSlot = some t) : t.Mapped := by
  obtain ⟨c, conn, hposted, hconn, ht⟩ := obtainSlot_cases hstep
  have habsent : s.connections_.lookup conn.name_ = none := by
    rw [lookup_name hnumbered h hconn, entryOf, if_pos hposted]
  rw [ConnectionMap.subscript_of_none habsent] at ht
  have hassigning : t.acceptorPc = .assigning c := by rw [ht]
  have herased : t.erased = s.erased := by rw [ht]; rfl
  have hmap : t.connections_ = s.connections_.insert conn.name_ none := by
    rw [ht]
  apply h.of_entry hnumbered hconn
  · rw [ht]; rfl
  · rw [ht]; rfl
  · rw [hmap, AList.lookup_insert]
    simp [entryOf, hassigning]
  · intro key hkey
    rw [hmap, AList.lookup_insert_ne hkey]
  · intro d hd
    simp [entryOf, hassigning, hposted, herased, hd.symm]
  · rw [ht]; rfl
  · rw [ht]
    exact h.erasures_removed

theorem obtainSlot_registry {s t : TcpServer} (h : s.Registry)
    (hstep : s.obtainSlot = some t) : t.Registry := by
  obtain ⟨c, conn, hposted, -, ht⟩ := obtainSlot_cases hstep
  have hassigning : t.acceptorPc = .assigning c := by rw [ht]
  have hheld : ∀ d, t.Held d → s.Held d := by
    rintro d (hd | hd)
    · rw [hassigning] at hd
      cases hd
    · rw [hassigning] at hd
      cases hd
      exact .inl hposted
  refine ⟨obtainSlot_numbered h.numbered hstep, ?_,
    obtainSlot_mapped h.numbered h.mapped hstep⟩
  apply h.staged.of_held _ _ _ _ hheld
  all_goals rw [ht]; rfl

theorem assignSlot_numbered {s t : TcpServer} (h : s.Numbered)
    (hstep : s.assignSlot = some t) : t.Numbered := by
  obtain ⟨c, conn, -, -, ht⟩ := assignSlot_cases hstep
  apply h.of_eq
  all_goals rw [ht]; rfl

theorem assignSlot_mapped {s t : TcpServer} (hnumbered : s.Numbered)
    (h : s.Mapped)
    (hstored : ∀ c, s.acceptorPc = .assigning c → c ∉ s.erased)
    (hstep : s.assignSlot = some t) : t.Mapped := by
  obtain ⟨c, conn, hassigning, hconn, ht⟩ := assignSlot_cases hstep
  have hidle : t.acceptorPc = .idle := by rw [ht]
  have herased : t.erased = s.erased := by rw [ht]; rfl
  have hmap : t.connections_ = s.connections_.insert conn.name_ (some c) := by
    rw [ht]
  have hc : c ∉ t.erased := by
    rw [herased]
    exact hstored c hassigning
  apply h.of_entry hnumbered hconn
  · rw [ht]; rfl
  · rw [ht]; rfl
  · rw [hmap, AList.lookup_insert]
    simp [entryOf, hidle, hc]
  · intro key hkey
    rw [hmap, AList.lookup_insert_ne hkey]
  · intro d hd
    simp [entryOf, hassigning, hidle, herased, hd.symm]
  · rw [ht]; rfl
  · rw [ht]
    exact h.erasures_removed

theorem assignSlot_registry {s t : TcpServer} (h : s.Registry)
    (hstep : s.assignSlot = some t) : t.Registry := by
  obtain ⟨c, conn, hassigning, -, ht⟩ := assignSlot_cases hstep
  have hidle : t.acceptorPc = .idle := by rw [ht]
  have hheld : ∀ d, t.Held d → s.Held d := by
    rintro d (hd | hd)
    · rw [hidle] at hd
      cases hd
    · rw [hidle] at hd
      cases hd
  have hstored : ∀ d, s.acceptorPc = .assigning d → d ∉ s.erased := by
    intro d hd hmem
    exact (h.staged.held d (.inr hd)).ne (h.staged.erased d hmem)
      (fun _ hopen => hopen) rfl
  refine ⟨assignSlot_numbered h.numbered hstep, ?_,
    assignSlot_mapped h.numbered h.mapped hstored hstep⟩
  apply h.staged.of_held _ _ _ _ hheld
  all_goals rw [ht]; rfl

/-! ## Steps of an io loop -/

/-- One connection is replaced by another of the same name. -/
theorem Numbered.set {s t : TcpServer} (h : s.Numbered) {c : ConnId}
    {conn next : TcpConnection} (hconn : s.conns[c]? = some conn)
    (hnext : next.name_ = conn.name_) (hname : t.name_ = s.name_)
    (hipPort : t.ipPort_ = s.ipPort_) (hid : t.nextConnId_ = s.nextConnId_)
    (hconns : t.conns = s.conns.set c next) : t.Numbered := by
  apply h.of_names hname hipPort hid
  · rw [hconns, List.length_set]
  · intro d other hother
    rw [hconns] at hother
    rcases getElem?_set_cases hother with ⟨rfl, rfl⟩ | hold
    · exact ⟨conn, hconn, hnext⟩
    · exact ⟨other, hold, rfl⟩

/-- The map stays as it is. -/
theorem Mapped.of_eq {s t : TcpServer} (h : s.Mapped)
    (hname : t.connName = s.connName)
    (hlength : t.conns.length = s.conns.length)
    (hmap : t.connections_ = s.connections_)
    (hpc : t.acceptorPc = s.acceptorPc) (herasures : t.erasures = s.erasures)
    (hlookups : ∀ k ∈ t.lookups, k.found = some (some k.conn)) :
    t.Mapped where
  lookup_eq := by
    have hentry : t.entryOf = s.entryOf := by
      funext c
      unfold entryOf erased
      rw [hpc, herasures]
    rw [hname, hlength, hmap, hentry]
    exact h.lookup_eq
  lookup_other := by
    rw [hname, hlength, hmap]
    exact h.lookup_other
  lookups_found := hlookups
  erasures_removed := herasures ▸ h.erasures_removed

theorem runTask_staged {s t : TcpServer} {l : ℕ} (h : s.Staged)
    (hstep : s.runTask l = some t) : t.Staged := by
  obtain ⟨c, rest, conn, hidle, htasks, hconn, ht⟩ := runTask_cases hstep
  have htask : ConnAt s.conns c fun conn =>
      conn.dispatcher_ = l ∧ conn.state_ = .kConnecting := by
    apply h.task l
    rw [htasks]
    exact List.mem_cons_self
  have hclosed : ∀ d P, ConnAt s.conns d P →
      (∀ conn, P conn → conn.state_ = .kDisconnected) → d ≠ c := by
    intro d P hd hP
    apply hd.ne htask
    rintro conn hdisconnected ⟨-, hconnecting⟩
    rw [hP conn hdisconnected] at hconnecting
    cases hconnecting
  have hnodup := h.task_nodup l
  rw [htasks, List.nodup_cons] at hnodup
  have hconns : t.conns = s.conns.set c conn.connectEstablished := by rw [ht]
  have htasks' : t.tasks = Function.update s.tasks l rest := by rw [ht]
  have hloops : t.loopPc = s.loopPc := by rw [ht]
  have herased : t.erased = s.erased := by rw [ht]; rfl
  refine ⟨?_, ?_, ?_, ?_, ?_, ?_⟩
  · intro d hd
    rw [ht] at hd
    rw [hconns]
    exact (h.held d hd).set (fun _ => StateE.noConfusion)
  · intro k d hd
    rw [htasks'] at hd
    rw [hconns]
    by_cases hk : k = l
    · subst hk
      rw [Function.update_self] at hd
      have hold := h.task k d (htasks ▸ List.mem_cons_of_mem c hd)
      apply hold.set_of_ne
      rintro rfl
      exact hnodup.1 hd
    · rw [Function.update_of_ne hk] at hd
      have hold := h.task k d hd
      apply hold.set_of_ne
      apply hold.ne htask
      rintro conn ⟨hk', -⟩ ⟨hl, -⟩
      exact hk (hk'.symm.trans hl)
  · intro k
    rw [htasks']
    by_cases hk : k = l
    · subst hk
      rw [Function.update_self]
      exact hnodup.2
    · rw [Function.update_of_ne hk]
      exact h.task_nodup k
  · intro k d temp hremoving
    rw [hloops] at hremoving
    obtain ⟨htemp, hd, hdisconnected⟩ := h.removing k d temp hremoving
    rw [herased, hconns]
    exact ⟨htemp, hd, hdisconnected.set_of_ne
      (hclosed d _ hdisconnected fun _ hP => hP.2)⟩
  · intro d hd
    rw [herased] at hd
    rw [hconns]
    have hold := h.erased d hd
    exact hold.set_of_ne (hclosed d _ hold fun _ hP => hP)
  · rw [herased]
    exact h.erased_nodup

theorem runTask_registry {s t : TcpServer} {l : ℕ} (h : s.Registry)
    (hstep : s.runTask l = some t) : t.Registry := by
  obtain ⟨c, rest, conn, -, -, hconn, ht⟩ := runTask_cases hstep
  have hconns : t.conns = s.conns.set c conn.connectEstablished := by rw [ht]
  refine ⟨?_, runTask_staged h.staged hstep, ?_⟩
  · have hname : conn.connectEstablished.name_ = conn.name_ := rfl
    apply h.numbered.set hconn hname _ _ _ hconns
    all_goals rw [ht]
  · apply h.mapped.of_eq
    · rw [ht]; rfl
    · rw [hconns, List.length_set]
    · rw [ht]
    · rw [ht]
    · rw [ht]
    · rw [ht]
      exact h.mapped.lookups_found

/-- A message leaves the state of the connection alone. -/
theorem message_registry {s : TcpServer} {c : ConnId}
    {conn next : TcpConnection} (h : s.Registry)
    (hconn : s.conns[c]? = some conn) (hsame : SameIdentity conn next)
    (hstate : next.state_ = conn.state_) :
    Registry { s with conns := s.conns.set c next } := by
  have hset : ∀ d (P : TcpConnection → Prop), ConnAt s.conns d P →
      (P conn → P next) → ConnAt (s.conns.set c next) d P := by
    intro d P hd hP
    apply hd.set
    rintro rfl
    exact hP (hd.and_of_getElem? hconn)
  refine ⟨?_, ⟨?_, ?_, h.staged.task_nodup, ?_, ?_, h.staged.erased_nodup⟩,
    ?_⟩
  · exact h.numbered.set hconn hsame.name_eq rfl rfl rfl rfl
  · intro d hd
    apply hset d _ (h.staged.held d hd)
    rw [hstate]
    exact id
  · intro l d hd
    apply hset d _ (h.staged.task l d hd)
    rw [hstate, hsame.dispatcher_eq]
    exact id
  · intro l d temp hremoving
    obtain ⟨htemp, hd, hclosed⟩ := h.staged.removing l d temp hremoving
    refine ⟨htemp, hd, hset d _ hclosed ?_⟩
    rw [hstate, hsame.dispatcher_eq]
    exact id
  · intro d hd
    apply hset d _ (h.staged.erased d hd)
    rw [hstate]
    exact id
  · exact h.mapped.of_eq rfl (List.length_set ..) rfl rfl rfl
      h.mapped.lookups_found

/-- A connection that is closed or not yet established is not one that meets
an end of file. -/
theorem ConnAt.ne_of_open {conns : List TcpConnection} {c d : ConnId}
    {P : TcpConnection → Prop} (hd : ConnAt conns d P)
    (hopen : ConnAt conns c fun conn =>
      conn.state_ = .kConnected ∨ conn.state_ = .kDisconnecting)
    (hP : ∀ conn, P conn → conn.state_ = .kDisconnected ∨
      conn.state_ = .kConnecting) : d ≠ c := by
  apply hd.ne hopen
  intro conn hconn hstate
  rcases hP conn hconn with heq | heq
  · simp [heq] at hstate
  · simp [heq] at hstate

/-- An end of file closes the connection `c` and begins its removal. -/
theorem Staged.eof {s t : TcpServer} {l : ℕ} {c : ConnId}
    {next : TcpConnection} (h : s.Staged) (hunheld : ¬ s.Held c)
    (hopen : ConnAt s.conns c fun conn =>
      conn.state_ = .kConnected ∨ conn.state_ = .kDisconnecting)
    (hclosed : next.dispatcher_ = l ∧ next.state_ = .kDisconnected)
    (hconns : t.conns = s.conns.set c next)
    (hloops : t.loopPc = Function.update s.loopPc l (.removing c (some c)))
    (hheld : ∀ d, t.Held d → s.Held d) (htasks : t.tasks = s.tasks)
    (herased : t.erased = s.erased) : t.Staged := by
  have hc : c ∉ s.erased := fun hmem =>
    (h.erased c hmem).ne_of_open hopen (fun _ hP => .inl hP) rfl
  refine ⟨?_, ?_, ?_, ?_, ?_, ?_⟩
  · intro d hd
    rw [hconns]
    apply (h.held d (hheld d hd)).set_of_ne
    rintro rfl
    exact hunheld (hheld d hd)
  · intro k d hd
    rw [htasks] at hd
    rw [hconns]
    have hold := h.task k d hd
    exact hold.set_of_ne (hold.ne_of_open hopen fun _ hP => .inr hP.2)
  · rw [htasks]
    exact h.task_nodup
  · intro k d temp hremoving
    rw [hloops] at hremoving
    rw [herased, hconns]
    by_cases hk : k = l
    · subst hk
      rw [Function.update_self] at hremoving
      cases hremoving
      exact ⟨rfl, hc, ConnAt.set_self hopen.lt hclosed⟩
    · rw [Function.update_of_ne hk] at hremoving
      obtain ⟨htemp, hd, hold⟩ := h.removing k d temp hremoving
      exact ⟨htemp, hd,
        hold.set_of_ne (hold.ne_of_open hopen fun _ hP => .inl hP.2)⟩
  · intro d hd
    rw [herased] at hd
    rw [hconns]
    have hold := h.erased d hd
    exact hold.set_of_ne (hold.ne_of_open hopen fun _ hP => .inl hP)
  · rw [herased]
    exact h.erased_nodup

/-- An end of file of a stored connection finds the connection in the map. -/
theorem eof_registry {s : TcpServer} {l : ℕ} {c : ConnId}
    {conn next : TcpConnection} (h : s.Registry)
    (hconn : s.conns[c]? = some conn) (hunheld : ¬ s.Held c)
    (hdispatcher : conn.dispatcher_ = l)
    (hstate : conn.state_ = .kConnected ∨ conn.state_ = .kDisconnecting)
    (hsame : SameIdentity conn next)
    (hclosed : next.state_ = .kDisconnected) :
    Registry (beginRemove { s with conns := s.conns.set c next } l c next) := by
  have hopen : ConnAt s.conns c fun conn =>
      conn.state_ = .kConnected ∨ conn.state_ = .kDisconnecting :=
    ⟨conn, hconn, hstate⟩
  have hc : c ∉ s.erased := fun hmem =>
    (h.staged.erased c hmem).ne_of_open hopen (fun _ hP => .inl hP) rfl
  have hentry : s.connections_.lookup next.name_ = some (some c) := by
    rw [hsame.name_eq, lookup_name h.numbered h.mapped hconn,
      entryOf_of_not_held hunheld hc]
  generalize ht : beginRemove { s with conns := s.conns.set c next } l c next = t
  simp only [beginRemove, ConnectionMap.subscript_of_some hentry, hentry] at ht
  have hconns : t.conns = s.conns.set c next := by rw [← ht]; rfl
  refine ⟨?_, ?_, ?_⟩
  · apply h.numbered.set hconn hsame.name_eq
    all_goals rw [← ht]; rfl
  · refine h.staged.eof hunheld hopen
      ⟨hsame.dispatcher_eq.trans hdispatcher, hclosed⟩ hconns ?_ ?_ ?_ ?_
    · rw [← ht]
    · rw [← ht]
      exact fun d hd => hd
    · rw [← ht]; rfl
    · rw [← ht]; rfl
  · apply h.mapped.of_eq
    · rw [← ht]; rfl
    · rw [hconns, List.length_set]
    · rw [← ht]
    · rw [← ht]; rfl
    · rw [← ht]; rfl
    · have hlookups : t.lookups = s.lookups ++ [⟨c, some (some c)⟩] := by
        rw [← ht]
      intro k hk
      rw [hlookups, List.mem_append, List.mem_singleton] at hk
      rcases hk with hold | rfl
      · exact h.mapped.lookups_found k hold
      · rfl

theorem finishRemove_numbered {s t : TcpServer} {l : ℕ} (h : s.Numbered)
    (hstep : s.finishRemove l = some t) : t.Numbered := by
  obtain ⟨c, temp, conn, -, -, -, ht⟩ := finishRemove_cases hstep
  apply h.of_eq
  all_goals rw [ht]; rfl

/-- The entry of a stored connection is erased. -/
theorem finishRemove_mapped {s t : TcpServer} {l : ℕ} {c : ConnId}
    {conn : TcpConnection} (hnumbered : s.Numbered) (h : s.Mapped)
    (hconn : s.conns[c]? = some conn)
    (hentry : s.connections_.lookup conn.name_ = some (some c))
    (hheld : ¬ s.Held c) (ht : t = {
      s.access (.io l) .connections_ with
      connections_ := s.connections_.erase conn.name_
      loopPc := Function.update s.loopPc l .idle
      erasures := s.erasures ++
        [⟨c, s.connections_.lookup conn.name_⟩] }) : t.Mapped := by
  rw [hentry] at ht
  have herasures : t.erasures = s.erasures ++ [⟨c, some (some c)⟩] := by
    rw [ht]
  have herased : t.erased = s.erased ++ [c] := by
    rw [TcpServer.erased, herasures, List.map_append]
    rfl
  have hmap : t.connections_ = s.connections_.erase conn.name_ := by rw [ht]
  have hpc : t.acceptorPc = s.acceptorPc := by rw [ht]; rfl
  apply h.of_entry hnumbered hconn
  · rw [ht]; rfl
  · rw [ht]; rfl
  · have hassigning : s.acceptorPc ≠ .assigning c := fun heq => hheld (.inr heq)
    rw [hmap, AList.lookup_erase]
    simp [entryOf, hpc, herased, hassigning]
  · intro key hkey
    rw [hmap, AList.lookup_erase_ne hkey]
  · intro d hd
    simp [entryOf, hpc, herased, hd]
  · rw [ht]; rfl
  · intro e he
    rw [herasures, List.mem_append, List.mem_singleton] at he
    rcases he with hold | rfl
    · exact h.erasures_removed e hold
    · rfl

theorem finishRemove_staged {s t : TcpServer} {l : ℕ} (h : s.Staged)
    (hstep : s.finishRemove l = some t) : t.Staged := by
  obtain ⟨c, temp, conn, hremoving, hconn, -, ht⟩ := finishRemove_cases hstep
  obtain ⟨-, hc, hclosed⟩ := h.removing l c _ hremoving
  have herased : t.erased = s.erased ++ [c] := by
    rw [ht, TcpServer.erased, List.map_append]
    rfl
  have hconns : t.conns = s.conns := by rw [ht]; rfl
  have hloops : t.loopPc = Function.update s.loopPc l .idle := by rw [ht]
  refine ⟨?_, ?_, ?_, ?_, ?_, ?_⟩
  · intro d hd
    rw [hconns]
    rw [ht] at hd
    exact h.held d hd
  · rw [ht]
    exact h.task
  · rw [ht]
    exact h.task_nodup
  · intro k d temp hremoving'
    rw [hloops] at hremoving'
    rw [hconns, herased]
    by_cases hk : k = l
    · subst hk
      rw [Function.update_self] at hremoving'
      cases hremoving'
    · rw [Function.update_of_ne hk] at hremoving'
      obtain ⟨htemp, hd, hold⟩ := h.removing k d temp hremoving'
      have hdc : d ≠ c := by
        apply hold.ne hclosed
        rintro conn ⟨hk', -⟩ ⟨hl, -⟩
        exact hk (hk'.symm.trans hl)
      refine ⟨htemp, ?_, hold⟩
      rw [List.mem_append, List.mem_singleton]
      rintro (hmem | heq)
      · exact hd hmem
      · exact hdc heq
  · intro d hd
    rw [hconns]
    rw [herased, List.mem_append, List.mem_singleton] at hd
    rcases hd with hold | rfl
    · exact h.erased d hold
    · obtain ⟨conn, hconn, hP⟩ := hclosed
      exact ⟨conn, hconn, hP.2⟩
  · rw [herased, List.nodup_append]
    refine ⟨h.erased_nodup, List.nodup_singleton _, ?_⟩
    rintro a ha b hb rfl
    rw [List.mem_singleton] at hb
    exact hc (hb ▸ ha)

theorem finishRemove_registry {s t : TcpServer} {l : ℕ} (h : s.Registry)
    (hstep : s.finishRemove l = some t) : t.Registry := by
  obtain ⟨c, temp, conn, hremoving, hconn, -, ht⟩ := finishRemove_cases hstep
  obtain ⟨-, -, hclosed⟩ := h.staged.removing l c _ hremoving
  refine ⟨finishRemove_numbered h.numbered hstep,
    finishRemove_staged h.staged hstep, ?_⟩
  refine finishRemove_mapped h.numbered h.mapped hconn
    (h.lookup_removing hremoving hconn) ?_ ht
  intro hheld
  exact (h.staged.held c hheld).ne hclosed
    (fun _ hopen hshut => hopen hshut.2) rfl

end TcpServer

end EventServer.Network
