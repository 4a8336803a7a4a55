import EventServer.Support.Simulation
import EventServer.Network.Echo
import EventServer.Network.Registry

/-!
# The life of one connection inside the server

The server interleaves the events of all its connections on the threads of
several loops.  Seen from one connection this makes no difference: its state is
the result of its own events alone, all of them on the loop to which it was
assigned.  It is established once, and read events follow.

What is known about a connection alone thereby holds inside the server.  The
echo of all connections is faithful exactly when no `write` of any of them
accepts some, but not all, of the bytes that it is given.
-/

namespace EventServer.Network

open EventServer.Support
open EventServer.Thread

/-- What happens to a connection, with the loop on which it happens.  When it
is built this is the loop to which it is assigned. -/
inductive LifeEvent where
  | built (loop : ℕ) (name : List Char)
  | established (loop : ℕ)
  | readable (loop : ℕ) (e : ReadableEvent)

/-- A connection on its own, `none` before it is built: established once, and
touched by its own loop only. -/
def TcpConnection.lifeStep :
    Option TcpConnection → LifeEvent → Option (Option TcpConnection)
  | none, .built loop name => some (some (fresh loop name))
  | some conn, .established loop =>
      if conn.dispatcher_ = loop ∧ conn.state_ = .kConnecting
      then some (some conn.connectEstablished)
      else none
  | some conn, .readable loop e =>
      if conn.dispatcher_ = loop ∧ conn.readEventPtr_ = true then
        match conn.handleRead (TcpServer.doMessageDefault e.write) e.result with
        | .ok (next, _) => some (some next)
        | .error _ => none
      else none
  | _, _ => none

namespace TcpServer

/-- What an action does to the connection `c`. -/
def lifeEvent (c : ConnId) (s : TcpServer) : Action → List LifeEvent
  | .newConnection =>
      match s.threadPool_.getNextLoop with
      | (some ioLoop, _) =>
          if c = s.conns.length
          then [.built ioLoop (s.connName s.nextConnId_)]
          else []
      | (none, _) => []
  | .runTask l =>
      match s.tasks l with
      | d :: _ => if c = d then [.established l] else []
      | [] => []
  | .readable l d result write =>
      if c = d then [.readable l ⟨result, write⟩] else []
  | .obtainSlot | .assignSlot | .finishRemove _ => []

/-! ## What a step does to the connections -/

/-- What becomes of the connections and of the posted tasks. -/
inductive ConnsStep (s t : TcpServer) : Action → Prop where
  | built (ioLoop : ℕ) (pool : EventLoopThreadPool)
      (hpool : s.threadPool_.getNextLoop = (some ioLoop, pool))
      (hconns : t.conns = s.conns ++
        [TcpConnection.fresh ioLoop (s.connName s.nextConnId_)])
      (htasks : t.tasks = Function.update s.tasks ioLoop
        (s.tasks ioLoop ++ [s.conns.length])) :
      ConnsStep s t .newConnection
  | established (l : ℕ) (c : ConnId) (rest : List ConnId)
      (conn : TcpConnection) (hhead : s.tasks l = c :: rest)
      (hconn : s.conns[c]? = some conn)
      (hconns : t.conns = s.conns.set c conn.connectEstablished)
      (htasks : t.tasks = Function.update s.tasks l rest) :
      ConnsStep s t (.runTask l)
  | read (l : ℕ) (c : ConnId) (result : ReadvResult) (write : WriteResult)
      (conn next : TcpConnection) (closed : Bool)
      (hconn : s.conns[c]? = some conn) (hdispatcher : conn.dispatcher_ = l)
      (hregistered : conn.readEventPtr_ = true)
      (hread : conn.handleRead (doMessageDefault write) result =
        .ok (next, closed))
      (hconns : t.conns = s.conns.set c next) (htasks : t.tasks = s.tasks) :
      ConnsStep s t (.readable l c result write)
  | kept (a : Action) (hevent : ∀ c, lifeEvent c s a = [])
      (hconns : t.conns = s.conns) (htasks : t.tasks = s.tasks) :
      ConnsStep s t a

theorem readable_conns {s t : TcpServer} {l : ℕ} {c : ConnId}
    {result : ReadvResult} {write : WriteResult}
    (h : s.readable l c result write = some t) :
    ConnsStep s t (.readable l c result write) := by
  unfold readable at h
  split at h
  · rename_i conn hidle hconn
    obtain ⟨hready, hread⟩ := Option.ite_none_right_eq_some.mp h
    split at hread
    · rename_i next hnext
      obtain rfl := Option.some.inj hread
      exact .read l c result write conn next false hconn hready.1 hready.2.1
        hnext rfl rfl
    · rename_i next hnext
      obtain rfl := Option.some.inj hread
      exact .read l c result write conn next true hconn hready.1 hready.2.1
        hnext rfl rfl
    · cases hread
  · cases h

theorem step_conns {s t : TcpServer} {a : Action} (h : step s a = some t) :
    ConnsStep s t a := by
  cases a with
  | newConnection =>
      have hnew : s.newConnection = some t := by rwa [step] at h
      obtain ⟨-, ioLoop, pool, hpool, ht⟩ := newConnection_cases hnew
      exact .built ioLoop pool hpool (by rw [ht]) (by rw [ht])
  | obtainSlot =>
      obtain ⟨c, conn, -, -, rfl⟩ := obtainSlot_cases h
      exact .kept _ (fun _ => rfl) rfl rfl
  | assignSlot =>
      obtain ⟨c, conn, -, -, rfl⟩ := assignSlot_cases h
      exact .kept _ (fun _ => rfl) rfl rfl
  | runTask l =>
      obtain ⟨c, rest, conn, -, htasks, hconn, rfl⟩ := runTask_cases h
      exact .established l c rest conn htasks hconn rfl rfl
  | readable l c result write => exact readable_conns h
  | finishRemove l =>
      obtain ⟨c, temp, conn, -, -, -, rfl⟩ := finishRemove_cases h
      exact .kept _ (fun _ => rfl) rfl rfl

/-! ## The posted connections -/

/-- A posted `connectEstablished` waits in the queue of the loop of its
connection, once, and the connection has not been touched before. -/
structure Posted (s : TcpServer) : Prop where
  task : ∀ l, ∀ c ∈ s.tasks l, ConnAt s.conns c fun conn =>
    conn.dispatcher_ = l ∧ conn.state_ = .kConnecting ∧
      conn.readEventPtr_ = false
  task_nodup : ∀ l, (s.tasks l).Nodup

theorem Posted.built {s t : TcpServer} (h : s.Posted) {ioLoop : ℕ}
    {name : List Char}
    (hconns : t.conns = s.conns ++ [TcpConnection.fresh ioLoop name])
    (htasks : t.tasks = Function.update s.tasks ioLoop
      (s.tasks ioLoop ++ [s.conns.length])) : t.Posted := by
  constructor
  · intro l c hc
    rw [hconns]
    rw [htasks] at hc
    by_cases hl : l = ioLoop
    · subst hl
      rw [Function.update_self] at hc
      rcases List.mem_append.mp hc with hold | hnew
      · exact (h.task l c hold).append
      · obtain rfl := List.mem_singleton.mp hnew
        exact ConnAt.append_self ⟨rfl, rfl, rfl⟩
    · rw [Function.update_of_ne hl] at hc
      exact (h.task l c hc).append
  · intro l
    rw [htasks]
    by_cases hl : l = ioLoop
    · subst hl
      rw [Function.update_self]
      apply (h.task_nodup l).append (List.nodup_singleton _)
      intro c hold hnew
      obtain rfl := List.mem_singleton.mp hnew
      exact (h.task l _ hold).lt.ne rfl
    · rw [Function.update_of_ne hl]
      exact h.task_nodup l

theorem Posted.established {s t : TcpServer} (h : s.Posted) {l : ℕ}
    {c : ConnId} {rest : List ConnId} {next : TcpConnection}
    (hhead : s.tasks l = c :: rest) (hconns : t.conns = s.conns.set c next)
    (htasks : t.tasks = Function.update s.tasks l rest) : t.Posted := by
  have hc : ConnAt s.conns c fun conn => conn.dispatcher_ = l := by
    obtain ⟨conn, hconn, hl, -⟩ := h.task l c (hhead ▸ List.mem_cons_self)
    exact ⟨conn, hconn, hl⟩
  have hnodup := h.task_nodup l
  rw [hhead, List.nodup_cons] at hnodup
  constructor
  · intro k d hd
    rw [hconns]
    rw [htasks] at hd
    by_cases hk : k = l
    · subst hk
      rw [Function.update_self] at hd
      apply (h.task k d (hhead ▸ List.mem_cons_of_mem c hd)).set_of_ne
      rintro rfl
      exact hnodup.1 hd
    · rw [Function.update_of_ne hk] at hd
      have hold := h.task k d hd
      apply hold.set_of_ne
      apply hold.ne hc
      rintro conn ⟨hk', -⟩ hl
      exact hk (hk'.symm.trans hl)
  · intro k
    rw [htasks]
    by_cases hk : k = l
    · subst hk
      rw [Function.update_self]
      exact hnodup.2
    · rw [Function.update_of_ne hk]
      exact h.task_nodup k

theorem posted_preserved {s t : TcpServer} {a : Action} (h : s.Posted)
    (hstep : step s a = some t) : t.Posted := by
  cases step_conns hstep with
  | built ioLoop pool hpool hconns htasks => exact h.built hconns htasks
  | established l c rest conn hhead hconn hconns htasks =>
      exact h.established hhead hconns htasks
  | read l c result write conn next closed hconn hdispatcher hregistered hread
      hconns htasks =>
      have hc : ConnAt s.conns c fun conn => conn.readEventPtr_ = true :=
        ⟨conn, hconn, hregistered⟩
      constructor
      · intro k d hd
        rw [htasks] at hd
        rw [hconns]
        have hold := h.task k d hd
        apply hold.set_of_ne
        apply hold.ne hc
        rintro conn ⟨-, -, hfalse⟩ htrue
        exact Bool.false_ne_true (hfalse.symm.trans htrue)
      · rw [htasks]
        exact h.task_nodup
  | kept a hevent hconns htasks =>
      constructor
      · rw [hconns, htasks]
        exact h.task
      · rw [htasks]
        exact h.task_nodup

theorem create_posted (listenAddr : InetAddress) (nameArg : List Char)
    (threadNum : ℕ) : (create listenAddr nameArg threadNum).Posted where
  task := by
    intro l c hc
    cases hc
  task_nodup := fun _ => List.nodup_nil

/-! ## The server simulates each connection -/

/-- The connection `c` of the server is the connection on its own. -/
def Follows (c : ConnId) (s : TcpServer) (u : Option TcpConnection) : Prop :=
  s.Posted ∧ s.conns[c]? = u

/-- An event of its own moves the connection as it would alone, and an event
of another connection leaves it alone. -/
theorem simulates_connection (c : ConnId) :
    Simulates step (lifeEvent c) TcpConnection.lifeStep (fun _ e => [e])
      (Follows c) := by
  rintro s u a t ⟨hposted, rfl⟩ hstep
  have hnext : t.Posted := posted_preserved hposted hstep
  cases step_conns hstep with
  | built ioLoop pool hpool hconns htasks =>
      by_cases hc : c = s.conns.length
      · subst hc
        have hnone : s.conns[s.conns.length]? = none := by simp
        rw [hnone]
        have hbuilt : t.conns[s.conns.length]? =
            some (.fresh ioLoop (s.connName s.nextConnId_)) := by
          rw [hconns, List.getElem?_concat_length]
        apply Answers.of_step (b := .built ioLoop (s.connName s.nextConnId_))
          rfl _ ⟨hnext, hbuilt⟩
        simp [lifeEvent, hpool]
      · have hsame : t.conns[c]? = s.conns[c]? := by
          rw [hconns]
          rcases Nat.lt_or_gt_of_ne hc with hlt | hgt
          · exact List.getElem?_append_left hlt
          · have hlength : (s.conns ++ [TcpConnection.fresh ioLoop
                (s.connName s.nextConnId_)]).length ≤ c := by
              simpa using hgt
            rw [List.getElem?_eq_none hlength, List.getElem?_eq_none hgt.le]
        have hevent : lifeEvent c s .newConnection = [] := by
          simp [lifeEvent, hpool, hc]
        rw [hevent]
        exact .of_related ⟨hnext, hsame⟩
  | established l d rest conn hhead hconn hconns htasks =>
      by_cases hc : c = d
      · subst hc
        obtain ⟨hl, hconnecting, -⟩ := (hposted.task l c
          (hhead ▸ List.mem_cons_self)).and_of_getElem? hconn
        have hlt := (List.getElem?_eq_some_iff.mp hconn).1
        have hset : t.conns[c]? = some conn.connectEstablished := by
          rw [hconns, List.getElem?_set_self hlt]
        rw [hconn]
        apply Answers.of_step (b := .established l) _ _ ⟨hnext, hset⟩
        · simp [TcpConnection.lifeStep, hl, hconnecting]
        · simp [lifeEvent, hhead]
      · have hsame : t.conns[c]? = s.conns[c]? := by
          rw [hconns, List.getElem?_set_ne (Ne.symm hc)]
        have hevent : lifeEvent c s (.runTask l) = [] := by
          simp [lifeEvent, hhead, hc]
        rw [hevent]
        exact .of_related ⟨hnext, hsame⟩
  | read l d result write conn next closed hconn hdispatcher hregistered hread
      hconns htasks =>
      by_cases hc : c = d
      · subst hc
        have hlt := (List.getElem?_eq_some_iff.mp hconn).1
        have hset : t.conns[c]? = some next := by
          rw [hconns, List.getElem?_set_self hlt]
        rw [hconn]
        apply Answers.of_step (b := .readable l ⟨result, write⟩) _ _
          ⟨hnext, hset⟩
        · simp [TcpConnection.lifeStep, hdispatcher, hregistered, hread]
        · simp [lifeEvent]
      · have hsame : t.conns[c]? = s.conns[c]? := by
          rw [hconns, List.getElem?_set_ne (Ne.symm hc)]
        have hevent : lifeEvent c s (.readable l d result write) = [] := by
          simp [lifeEvent, hc]
        rw [hevent]
        exact .of_related ⟨hnext, hsame⟩
  | kept a hevent hconns htasks =>
      rw [hevent c]
      exact .of_related ⟨hnext, by rw [hconns]⟩

/-! ## The theorems -/

/-- In every run of a server, each connection is what its own events make of
it on its own: all of them happen on the loop to which it was assigned, it is
established once, and it is read only after that. -/
theorem connection_alone (listenAddr : InetAddress) (nameArg : List Char)
    (threadNum : ℕ) (actions : List Action) (last : TcpServer)
    (hrun : run step (create listenAddr nameArg threadNum) actions =
      some last) (c : ConnId) :
    run TcpConnection.lifeStep none
        (trace step (lifeEvent c) (create listenAddr nameArg threadNum)
          actions) =
      some last.conns[c]? := by
  have hfirst : Follows c (create listenAddr nameArg threadNum) none :=
    ⟨create_posted listenAddr nameArg threadNum, rfl⟩
  obtain ⟨events, u, hevents, ⟨-, rfl⟩, htrace⟩ :=
    (simulates_connection c).run hfirst hrun
  rw [← htrace, trace_self hevents]
  exact hevents

/-- Two connections on two loops, with alternating events. -/
def alternating : List Action :=
  [.newConnection, .obtainSlot, .assignSlot, .newConnection, .runTask 1,
    .readable 1 1 (.stored [1]) (.wrote 1), .obtainSlot, .runTask 0,
    .readable 0 0 (.stored [2, 3]) (.wrote 2), .assignSlot,
    .readable 1 1 (.stored []) (.wrote 0), .finishRemove 1]

theorem connection_alone_alternating :
    ∃ last, run step (create .any [] 2) alternating = some last ∧
      run TcpConnection.lifeStep none
          (trace step (lifeEvent 0) (create .any [] 2) alternating) =
        some last.conns[0]? := by
  have hsome : (run step (create .any [] 2) alternating).isSome = true := by
    decide +kernel
  obtain ⟨last, hrun⟩ := Option.isSome_iff_exists.mp hsome
  exact ⟨last, hrun, connection_alone .any [] 2 alternating last hrun 0⟩

/-- `readv` stores no more than it has room for, and `write` accepts no more
than it is given. -/
def LegalRead (s : TcpServer) : Action → Prop
  | .readable _ c result write =>
      ∀ conn ∈ s.conns[c]?,
        result.bytes.length ≤ conn.inputBuffer_.iovCapacity ∧
          write.acceptedLength ≤
            (conn.inputBuffer_.content ++ result.bytes).length
  | _ => True

instance (s : TcpServer) : DecidablePred s.LegalRead
  | .readable .. =>
      inferInstanceAs (Decidable (∀ conn ∈ s.conns[_]?, _ ∧ _))
  | .newConnection | .obtainSlot | .assignSlot | .runTask _
  | .finishRemove _ => isTrue trivial

/-- If the event leads to a `write`, then this does not accept some of its
bytes without accepting all of them. -/
def NoPartialWrite (s : TcpServer) : Action → Prop
  | .readable _ c result write =>
      ∀ conn ∈ s.conns[c]?, conn.NoPartialWrite ⟨result, write⟩
  | _ => True

instance (s : TcpServer) : DecidablePred s.NoPartialWrite
  | .readable _ c result write =>
      inferInstanceAs
        (Decidable (∀ conn ∈ s.conns[c]?, conn.NoPartialWrite ⟨result, write⟩))
  | .newConnection | .obtainSlot | .assignSlot | .runTask _
  | .finishRemove _ => isTrue trivial

/-- Every connection has been sent back what it has received, up to what is
still in its buffers. -/
def Echoes (s : TcpServer) : Prop := ∀ conn ∈ s.conns, conn.Echoes

/-- The buffers of all connections are in order. -/
def EchoReady (s : TcpServer) : Prop := ∀ conn ∈ s.conns, conn.EchoReady

theorem fresh_echoReady (dispatcher : ℕ) (name : List Char) :
    (TcpConnection.fresh dispatcher name).EchoReady :=
  have hregions := @Buffer.fresh_regions Buffer.kInitialSize (by decide)
  ⟨⟨rfl, rfl⟩, hregions.valid⟩

theorem fresh_echoes (dispatcher : ℕ) (name : List Char) :
    (TcpConnection.fresh dispatcher name).Echoes := by
  have hregions := @Buffer.fresh_regions Buffer.kInitialSize (by decide)
  rw [TcpConnection.Echoes, (fresh_echoReady dispatcher name).held_eq]
  exact hregions.content_eq

/-- A property of all connections, after one of them is replaced. -/
theorem forall_mem_set {conns : List TcpConnection} {c : ConnId}
    {next : TcpConnection} {P : TcpConnection → Prop}
    (h : ∀ conn ∈ conns, P conn) (hnext : P next) :
    ∀ conn ∈ conns.set c next, P conn := by
  intro conn hconn
  rcases List.mem_or_eq_of_mem_set hconn with hold | rfl
  · exact h conn hold
  · exact hnext

/-- The message callback does not look at the `errno` of a failed `write`. -/
theorem doMessageDefault_failed (errno : Errno) :
    doMessageDefault (.failed errno) =
      doMessageDefault (.failed .EWOULDBLOCK) := by
  funext conn
  simp only [doMessageDefault, TcpConnection.sendBuffer]

/-- A readable event is an event of the connection on its own. -/
theorem exists_echoStep {conn next : TcpConnection} {result : ReadvResult}
    {write : WriteResult} {closed : Bool}
    (hcap : result.bytes.length ≤ conn.inputBuffer_.iovCapacity)
    (hwrite : write.acceptedLength ≤
      (conn.inputBuffer_.content ++ result.bytes).length)
    (hread : conn.handleRead (doMessageDefault write) result =
      .ok (next, closed)) :
    ∃ e : ReadableEvent, conn.echoStep e = some next ∧
      (conn.NoPartialWrite e ↔ conn.NoPartialWrite ⟨result, write⟩) := by
  cases write with
  | wrote n =>
      have hlegal : conn.Legal ⟨result, .wrote n⟩ := ⟨hcap, hwrite⟩
      refine ⟨⟨result, .wrote n⟩, ?_, Iff.rfl⟩
      simp [TcpConnection.echoStep, hlegal, hread]
  | failed errno =>
      have hlegal : conn.Legal ⟨result, .failed .EWOULDBLOCK⟩ := ⟨hcap, rfl⟩
      rw [doMessageDefault_failed] at hread
      refine ⟨⟨result, .failed .EWOULDBLOCK⟩, ?_, ?_⟩
      · simp [TcpConnection.echoStep, hlegal, hread]
      · cases result with
        | stored bytes => exact Iff.rfl
        | failed _ => exact Iff.rfl

theorem echoReady_preserved {s t : TcpServer} {a : Action} (h : s.EchoReady)
    (hlegal : s.LegalRead a) (hstep : step s a = some t) : t.EchoReady := by
  rw [EchoReady]
  cases step_conns hstep with
  | built ioLoop pool hpool hconns htasks =>
      rw [hconns, List.forall_mem_append, List.forall_mem_singleton]
      exact ⟨h, fresh_echoReady ..⟩
  | established l c rest conn hhead hconn hconns htasks =>
      have hready := h conn (List.mem_of_getElem? hconn)
      rw [hconns]
      exact forall_mem_set h
        ⟨⟨hready.unqueued.output_eq, hready.unqueued.writeEvent_eq⟩,
          hready.input_valid⟩
  | read l c result write conn next closed hconn hdispatcher hregistered hread
      hconns htasks =>
      have hready := h conn (List.mem_of_getElem? hconn)
      obtain ⟨hcap, hwrite⟩ := hlegal conn hconn
      obtain ⟨e, hecho, -⟩ := exists_echoStep hcap hwrite hread
      rw [hconns]
      exact forall_mem_set h (TcpConnection.echoStep_ready hready hecho)
  | kept a hevent hconns htasks =>
      rw [hconns]
      exact h

/-- A step that touches no connection does not write. -/
theorem noPartialWrite_of_untouched {s : TcpServer} {a : Action}
    (h : ∀ c, lifeEvent c s a = []) : s.NoPartialWrite a := by
  cases a with
  | readable l c result write =>
      have hown := h c
      simp [lifeEvent] at hown
  | newConnection => trivial
  | obtainSlot => trivial
  | assignSlot => trivial
  | runTask l => trivial
  | finishRemove l => trivial

/-- After faithful echoes, a step keeps the echo of every connection faithful
exactly when it involves no partial write. -/
theorem server_echoes_next_iff {s t : TcpServer} {a : Action}
    (h : s.EchoReady) (hechoes : s.Echoes) (hlegal : s.LegalRead a)
    (hstep : step s a = some t) : t.Echoes ↔ s.NoPartialWrite a := by
  rw [Echoes]
  cases step_conns hstep with
  | built ioLoop pool hpool hconns htasks =>
      rw [hconns, List.forall_mem_append, List.forall_mem_singleton]
      exact iff_of_true ⟨hechoes, fresh_echoes ..⟩ trivial
  | established l c rest conn hhead hconn hconns htasks =>
      have hsame : conn.connectEstablished.Echoes :=
        hechoes conn (List.mem_of_getElem? hconn)
      rw [hconns]
      exact iff_of_true (forall_mem_set hechoes hsame) trivial
  | read l c result write conn next closed hconn hdispatcher hregistered hread
      hconns htasks =>
      have hmem := List.mem_of_getElem? hconn
      obtain ⟨hcap, hwrite⟩ := hlegal conn hconn
      obtain ⟨e, hecho, hpartial⟩ := exists_echoStep hcap hwrite hread
      have hexact : next.Echoes ↔ conn.NoPartialWrite ⟨result, write⟩ :=
        (TcpConnection.echoes_next_iff (h conn hmem) (hechoes conn hmem)
          hecho).trans hpartial
      have honly : s.NoPartialWrite (.readable l c result write) ↔
          conn.NoPartialWrite ⟨result, write⟩ := by
        simp [NoPartialWrite, hconn]
      rw [hconns, honly, ← hexact]
      constructor
      · intro hall
        have hlt := (List.getElem?_eq_some_iff.mp hconn).1
        exact hall next (List.mem_set hlt next)
      · exact forall_mem_set hechoes
  | kept a hevent hconns htasks =>
      rw [hconns]
      exact iff_of_true hechoes (noPartialWrite_of_untouched hevent)

/-- On a run of a new server, with any number of connections on any number of
loops, the echo of all connections is faithful at every moment exactly when no
`write` of the run accepts some, but not all, of the bytes that it is
given. -/
theorem server_echoes_always_iff (listenAddr : InetAddress)
    (nameArg : List Char) (threadNum : ℕ) (actions : List Action)
    (last : TcpServer)
    (hlegal : Guarded step LegalRead (create listenAddr nameArg threadNum)
      actions)
    (hrun : run step (create listenAddr nameArg threadNum) actions =
      some last) :
    Always step Echoes (create listenAddr nameArg threadNum) actions ↔
      Guarded step NoPartialWrite (create listenAddr nameArg threadNum)
        actions := by
  have hready : (create listenAddr nameArg threadNum).EchoReady := by
    intro conn hconn
    cases hconn
  have hechoes : (create listenAddr nameArg threadNum).Echoes := by
    intro conn hconn
    cases hconn
  exact always_iff_guarded_of_guarded
    (fun _ _ _ h hlegal _ hstep => echoReady_preserved h hlegal hstep)
    (fun _ _ _ h hechoes hlegal hstep =>
      server_echoes_next_iff h hechoes hlegal hstep)
    hready hechoes hlegal hrun

theorem server_echoes_always_alternating :
    (Always step Echoes (create .any [] 2) alternating ↔
      Guarded step NoPartialWrite (create .any [] 2) alternating) ∧
    Guarded step NoPartialWrite (create .any [] 2) alternating := by
  have hsome : (run step (create .any [] 2) alternating).isSome = true := by
    decide +kernel
  obtain ⟨last, hrun⟩ := Option.isSome_iff_exists.mp hsome
  constructor
  · exact server_echoes_always_iff .any [] 2 alternating last
      (by decide +kernel) hrun
  · decide +kernel

end TcpServer

end EventServer.Network
