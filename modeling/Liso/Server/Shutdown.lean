import Liso.Server.Lasting

/-! `server_shutdown_properly`, and what becomes of each connection that `accept` returns: it is
refused, or closed once in a pass of the loop or by the shutdown. -/

namespace Liso

def shutDownClients : List Peer → Except Fault (List Peer)
  | [] => .ok []
  | client :: rest =>
      match client.socket with
      | none => (shutDownClients rest).map (client :: ·)
      | some _ => do
          let slot ← closeClientConnection client
          let rest ← shutDownClients rest
          return slot :: rest

structure Stopped where
  events : List Event
  connectionList : List Peer

def serverShutdownProperly (server : Server) : Except Fault Stopped := do
  let connectionList ← shutDownClients server.connectionList
  return ⟨[.closed server.httpSockFd], connectionList⟩

/-- The server for which a pass calls `server_shutdown_properly`: after an exception of the
listening socket a connection may have been accepted before. -/
def shutsDown (server : Server) (round : Round) : Option Server :=
  match buildFdSets server.httpSockFd server.connectionList,
      highSock server.httpSockFd server.connectionList with
  | .ok sets, .ok high =>
      let fds := select round high sets
      let accepting :=
        if server.httpSockFd ∈ fds.read then handleNewConnection round.accept server else server
      if round.selects = false then some server
      else if 0 ∈ fds.except ∨ accepting.httpSockFd ∈ fds.except then some accepting
      else none
  | _, _ => none

theorem shutsDown_exits (cfg : Config) {server last : Server} {round : Round}
    (shuts : shutsDown server round = some last) : serverStep cfg server round = .error .exit := by
  unfold shutsDown at shuts
  unfold serverStep
  split at shuts
  · next sets high built found =>
      simp only [built, found, ok_bind]
      dsimp only at shuts
      split
      · rfl
      · next selects =>
          rw [if_neg selects] at shuts
          generalize (if server.httpSockFd ∈ (select round high sets).read then
            handleNewConnection round.accept server else server) = accepting at shuts ⊢
          split at shuts
          · next exceptional => rw [if_pos exceptional]
          · cases shuts
  · cases shuts

inductive ShutDown : Peer → Peer → Prop
  | unused {slot : Peer} (free : slot.socket = none) : ShutDown slot slot
  | closed {client slot : Peer} {socket : Nat} (used : client.socket = some socket)
      (free : slot.socket = none) (task : slot.httpTask = .freed)
      (noChild : Idle slot.cgiExecutor) (trace : slot.trace = client.trace ++ [.closed socket]) :
      ShutDown client slot

theorem closeClientConnection_shuts {client : Peer} {socket : Nat} (sound : Sound client)
    (used : client.socket = some socket) :
    ∃ slot, closeClientConnection client = .ok slot ∧ ShutDown client slot := by
  obtain ⟨task, inv⟩ := sound.inv
  have taskHeld : client.httpTask ≠ .freed := by simp [inv.live]
  have childHeld : client.cgiExecutor ≠ .freed := by
    rcases sound.executor with child | ⟨executor, child⟩ <;> simp [child]
  have closes := closeClientConnection_ok.mpr ⟨taskHeld, childHeld, rfl⟩
  obtain ⟨free, idle, taskFreed⟩ := closeClientConnection_leaves closes
  have trace : (closedSlot client).trace = client.trace ++ [.closed socket] := by
    rw [closedSlot, Peer.record, used]
    rfl
  exact ⟨closedSlot client, closes, .closed used free (taskFreed task inv.live) idle trace⟩

theorem shutDownClients_shuts {connectionList : List Peer}
    (lasting : ∀ slot ∈ connectionList, Lasting slot) :
    ∃ slots, shutDownClients connectionList = .ok slots ∧
      List.Forall₂ ShutDown connectionList slots := by
  induction connectionList with
  | nil => exact ⟨[], rfl, .nil⟩
  | cons client rest ih =>
      obtain ⟨mine, others⟩ := List.forall_mem_cons.mp lasting
      obtain ⟨slots, ran, shut⟩ := ih others
      cases socket : client.socket with
      | none =>
          refine ⟨client :: slots, ?_, .cons (.unused socket) shut⟩
          simp only [shutDownClients, socket, ran]
          rfl
      | some fd =>
          obtain ⟨slot, closed, mine⟩ := closeClientConnection_shuts (mine.used (by simp [socket]))
            socket
          refine ⟨slot :: slots, ?_, .cons mine shut⟩
          simp only [shutDownClients, socket, closed, ran, ok_bind, pure_ok]

def refusedIn (server : Server) (round : Round) : List Nat :=
  match buildFdSets server.httpSockFd server.connectionList,
      highSock server.httpSockFd server.connectionList with
  | .ok sets, .ok high =>
      if server.httpSockFd ∈ (select round high sets).read ∧ round.accept.isSome ∧
          (openConnections server.connectionList).length = maxClients then [server.accepted]
      else []
  | _, _ => []

def refusedConnections (cfg : Config) : List Round → Server → List Nat
  | [], _ => []
  | round :: rest, server =>
      refusedIn server round ++
        match serverStep cfg server round with
        | .error _ => []
        | .ok next => refusedConnections cfg rest next

/-- Every connection that `accept` has returned was closed, was refused, or is open. -/
structure Register (closed refused : List Nat) (server : Server) : Prop where
  lasting : ∀ slot ∈ server.connectionList, Lasting slot
  slots : server.connectionList.length = maxClients
  conserved : (closed ++ refused ++ openConnections server.connectionList).Perm
    (List.range server.accepted)

section Turns

variable {cfg : Config} {round : Round} {fds : FdSets} {i : Nat} {request : Ptr RequestCell}

theorem serveClient_accounts {client : Peer} {result : Served} (lasting : Lasting client)
    (served : serveClient cfg round i fds request client = .ok result) :
    (if result.closed then [client.conn] else []) ++ openConnection result.client =
      openConnection client := by
  cases socket : client.socket with
  | none =>
      obtain ⟨_, still⟩ := serveClient_free lasting socket served
      rw [still]
      rfl
  | some fd =>
      have sound := lasting.used (by simp [socket])
      obtain ⟨inv, _⟩ := sound request
      obtain ⟨t, reached, _, outcome⟩ := serveClient_takes served
      rcases outcome with ⟨isOpen, _, same⟩ | ⟨closed, closing⟩
      · have kept := sessionRun_socket inv reached
        have conn := sessionRun_conn inv reached
        simp [openConnection, isOpen, same, kept, conn]
      · simp [openConnection, closed, (closeClientConnection_leaves closing).1, socket]

theorem serveClients_accounts {connectionList served : List Peer} {after : Ptr RequestCell}
    {closes : Nat} (lasting : ∀ slot ∈ connectionList, Lasting slot)
    (ran : serveClients cfg round fds i request connectionList = .ok (after, served, closes)) :
    served.length = connectionList.length ∧
      (closedIn cfg round (turns cfg round fds i request connectionList) ++
        openConnections served).Perm (openConnections connectionList) := by
  induction connectionList generalizing i request served closes with
  | nil =>
      cases ran
      exact ⟨rfl, .refl _⟩
  | cons client rest ih =>
      obtain ⟨mine, others⟩ := List.forall_mem_cons.mp lasting
      rw [serveClients] at ran
      cases first : serveClient cfg round i fds request client with
      | error fault =>
          simp only [first] at ran
          cases ran
      | ok result =>
          simp only [first] at ran
          cases later : serveClients cfg round fds (i + 1) result.request rest with
          | error fault =>
              simp only [later] at ran
              cases ran
          | ok answer =>
              obtain ⟨last, slots, count⟩ := answer
              simp only [later] at ran
              cases ran
              obtain ⟨length, conserved⟩ := ih others later
              refine ⟨by simp [length], ?_⟩
              have turn := serveClient_accounts mine first
              have closes : Turn.closes cfg round ⟨fds, i, request, client⟩ = result.closed := by
                simp only [Turn.closes, Turn.served, first]
              have split : closedIn cfg round (turns cfg round fds i request (client :: rest)) =
                  (if result.closed then [client.conn] else []) ++
                    closedIn cfg round (turns cfg round fds (i + 1) result.request rest) := by
                simp only [turns, first, closedIn, List.filter_cons, closes]
                split <;> rfl
              rw [split]
              have parts : openConnections (result.client :: slots) =
                  openConnection result.client ++ openConnections slots := rfl
              have whole : openConnections (client :: rest) =
                  openConnection client ++ openConnections rest := rfl
              rw [parts, whole, ← turn, List.append_assoc, List.append_assoc]
              refine List.Perm.append_left _ ?_
              exact (List.perm_append_comm_assoc ..).trans (conserved.append_left _)

end Turns

section Passes

variable {cfg : Config} {round : Round} {server next : Server} {closed refused : List Nat}

theorem openConnections_le (connectionList : List Peer) :
    (openConnections connectionList).length ≤ connectionList.length := by
  induction connectionList with
  | nil => exact Nat.le_refl 0
  | cons client rest ih =>
      have one : (openConnection client).length ≤ 1 := by
        unfold openConnection
        split <;> simp
      rw [openConnections, List.flatMap_cons, List.length_append, List.length_cons]
      exact (Nat.add_le_add one ih).trans_eq (Nat.add_comm ..)

theorem storeConnection_conserves {connectionList : List Peer} (newClientSock : Nat)
    (clientAddr : Address) (conn : Nat) (lasting : ∀ slot ∈ connectionList, Lasting slot)
    (known : ∀ slot ∈ connectionList, slot.cgiExecutor ≠ .freed) :
    let stored := storeConnection (acceptInto · newClientSock clientAddr conn) connectionList
    (∀ slot ∈ stored, Lasting slot) ∧ stored.length = connectionList.length ∧
      ((openConnections connectionList).length = connectionList.length ∧ stored = connectionList ∨
        (openConnections connectionList).length < connectionList.length ∧
          (openConnections stored).Perm (conn :: openConnections connectionList)) := by
  induction connectionList with
  | nil => exact ⟨lasting, rfl, .inl ⟨rfl, rfl⟩⟩
  | cons client rest ih =>
      obtain ⟨mine, others⟩ := List.forall_mem_cons.mp lasting
      obtain ⟨mineKnown, othersKnown⟩ := List.forall_mem_cons.mp known
      rw [storeConnection]
      cases socket : client.socket with
      | none =>
          have vacant := mine.free socket
          have noChild : client.cgiExecutor = .null := by
            cases executor : client.cgiExecutor with
            | null => rfl
            | live running => exact absurd executor (vacant.idle running)
            | freed => exact absurd executor mineKnown
          have entered := acceptInto_tidy vacant noChild newClientSock clientAddr conn
          have below := openConnections_le rest
          simp only [Option.isNone_none, if_true]
          have mine : Lasting (acceptInto client newClientSock clientAddr conn) :=
            ⟨fun free => absurd free (Option.some_ne_none _), entered.used⟩
          refine ⟨List.forall_mem_cons.mpr ⟨mine, others⟩, rfl, .inr ⟨?_, ?_⟩⟩
          · simp only [openConnections, List.flatMap_cons, openConnection, socket,
              Option.isSome_none, Bool.false_eq_true, if_false, List.nil_append, List.length_cons]
            exact Nat.lt_succ_of_le below
          · simp [openConnections, openConnection, acceptInto, socket]
      | some fd =>
          obtain ⟨stored, length, outcome⟩ := ih others othersKnown
          simp only [Option.isNone_some, Bool.false_eq_true, if_false]
          have one (slots : List Peer) :
              openConnections (client :: slots) = client.conn :: openConnections slots := by
            simp [openConnections, openConnection, socket]
          refine ⟨List.forall_mem_cons.mpr ⟨mine, stored⟩, by simp [length], ?_⟩
          rw [one, one, List.length_cons, List.length_cons]
          rcases outcome with ⟨full, same⟩ | ⟨room, taken⟩
          · exact .inl ⟨congrArg Nat.succ full, by rw [same]⟩
          · refine .inr ⟨Nat.succ_lt_succ room, ?_⟩
            exact (taken.cons client.conn).trans (.swap ..)

theorem handleNewConnection_register (register : Register closed refused server)
    (known : ∀ slot ∈ server.connectionList, slot.cgiExecutor ≠ .freed)
    (answer : Option (Nat × Address)) :
    Register closed
      (refused ++ if answer.isSome ∧ (openConnections server.connectionList).length = maxClients then
        [server.accepted] else [])
      (handleNewConnection answer server) := by
  cases answer with
  | none =>
      rw [if_neg (by simp), List.append_nil]
      exact register
  | some connection =>
      obtain ⟨lasting, length, outcome⟩ := storeConnection_conserves connection.1 connection.2
        server.accepted register.lasting known
      refine ⟨lasting, length.trans register.slots, ?_⟩
      simp only [handleNewConnection, Option.isSome_some, true_and, List.range_succ]
      rw [register.slots] at outcome
      have grown : (closed ++ refused ++ ([server.accepted] ++
          openConnections server.connectionList)).Perm
          (List.range server.accepted ++ [server.accepted]) :=
        (List.perm_append_comm_assoc ..).trans
          ((register.conserved.append_left _).trans List.perm_append_comm)
      rcases outcome with ⟨full, same⟩ | ⟨room, taken⟩
      · rw [if_pos full, same]
        simpa only [List.append_assoc] using grown
      · rw [if_neg (Nat.ne_of_lt room), List.append_nil]
        exact (taken.append_left _).trans grown

theorem accepting_register (round : Round) {sets : FdSets} {high : Nat}
    (register : Register closed refused server)
    (built : buildFdSets server.httpSockFd server.connectionList = .ok sets)
    (found : highSock server.httpSockFd server.connectionList = .ok high) :
    Register closed (refused ++ refusedIn server round)
      (if server.httpSockFd ∈ (select round high sets).read then
        handleNewConnection round.accept server else server) := by
  have known := fun slot member => ((highSock_ok found).2 slot member).1
  simp only [refusedIn, built, found]
  by_cases ready : server.httpSockFd ∈ (select round high sets).read
  · simpa only [ready, true_and, if_true] using
      handleNewConnection_register register known round.accept
  · simpa [ready] using register

theorem serverStep_register (register : Register closed refused server)
    (stepped : serverStep cfg server round = .ok next) :
    Register (closed ++ closedIn cfg round (passTurns cfg server round))
      (refused ++ refusedIn server round) next := by
  have whole := stepped
  unfold serverStep at stepped
  obtain ⟨sets, built, stepped⟩ := bind_ok.mp stepped
  obtain ⟨high, found, _⟩ := bind_ok.mp stepped
  obtain ⟨accepting, closes, _, entering, passed, accepted, ran⟩ :=
    serverStep_turns cfg built found whole
  have entered := accepting_register round register built found
  rw [← entering] at entered
  obtain ⟨length, conserved⟩ := serveClients_accounts entered.lasting ran
  refine ⟨serverStep_lasting register.lasting whole, length.trans entered.slots, ?_⟩
  rw [passed, accepted]
  generalize refused ++ refusedIn server round = gone at entered ⊢
  refine List.Perm.trans ?_ entered.conserved
  simp only [List.append_assoc]
  refine List.Perm.append_left _ ((List.perm_append_comm_assoc ..).trans (List.Perm.append_left _ ?_))
  exact conserved

end Passes

private theorem run_register {cfg : Config} {rounds : List Round} {server last : Server}
    {closed refused : List Nat} (register : Register closed refused server)
    (ran : serverRun cfg rounds server = .ok last) :
    Register (closed ++ closedConnections cfg rounds server)
      (refused ++ refusedConnections cfg rounds server) last := by
  induction rounds generalizing server closed refused with
  | nil =>
      cases ran
      simpa [closedConnections, refusedConnections] using register
  | cons round rest ih =>
      obtain ⟨next, stepped, later⟩ := Run.run_cons_ok.mp ran
      have all := ih (serverStep_register register stepped) later
      simp only [closedConnections, refusedConnections, stepped]
      rw [List.append_assoc, List.append_assoc] at all
      exact all

theorem initServer_register (httpSockFd : Nat) : Register [] [] (initServer httpSockFd) where
  lasting := by
    intro slot member
    rw [List.eq_of_mem_replicate member]
    exact ⟨fun _ => createPeer_vacant, createPeer_tidy.used⟩
  slots := List.length_replicate
  conserved := by
    have none : openConnections (initServer httpSockFd).connectionList = [] := by
      refine List.flatMap_eq_nil_iff.mpr fun slot member => ?_
      rw [List.eq_of_mem_replicate member]
      rfl
    rw [none]
    exact .refl _

/-- When the server shuts down: at a signal while it waits in `select`, or in a pass. The list has
the connections that this pass refuses. -/
inductive ShutsDownAt (server : Server) : List Nat → Server → Prop
  | signal : ShutsDownAt server [] server
  | pass {round : Round} {last : Server} (shuts : shutsDown server round = some last) :
      ShutsDownAt server (if round.selects then refusedIn server round else []) last

private theorem ShutsDownAt.register {server last : Server} {closed refused more : List Nat}
    (register : Register closed refused server) (shuts : ShutsDownAt server more last) :
    Register closed (refused ++ more) last ∧ last.httpSockFd = server.httpSockFd := by
  cases shuts with
  | signal => exact ⟨by rwa [List.append_nil], rfl⟩
  | @pass round _ shuts =>
      unfold shutsDown at shuts
      split at shuts
      · next sets high built found =>
          dsimp only at shuts
          split at shuts
          · next failing =>
              cases shuts
              simpa [failing] using register
          · next selects =>
              have entered := accepting_register round register built found
              have listens : (if server.httpSockFd ∈ (select round high sets).read then
                  handleNewConnection round.accept server else server).httpSockFd =
                  server.httpSockFd := by
                split
                · exact handleNewConnection_listens round.accept server
                · rfl
              generalize (if server.httpSockFd ∈ (select round high sets).read then
                handleNewConnection round.accept server else server) = accepting at *
              split at shuts
              · cases shuts
                rw [if_pos (by simpa using selects)]
                exact ⟨entered, listens⟩
              · cases shuts
      · cases shuts

theorem serverRun_listens {cfg : Config} {rounds : List Round} {server last : Server}
    (ran : serverRun cfg rounds server = .ok last) : last.httpSockFd = server.httpSockFd := by
  have keeps (s : Server) (round : Round) (t : Server) (same : s.httpSockFd = server.httpSockFd)
      (_ : True) (stepped : serverStep cfg s round = .ok t) :
      t.httpSockFd = server.httpSockFd := by
    obtain ⟨fds, accepting, served, closes, entering, _, whole⟩ := serverStep_cases stepped
    rw [whole]
    refine Eq.trans ?_ same
    change accepting.httpSockFd = s.httpSockFd
    rw [entering]
    split
    · exact handleNewConnection_listens round.accept s
    · rfl
  exact Run.run_invariant keeps rfl (fun _ _ => trivial) ran

/-- Whenever the server shuts down, the shutdown touches nothing that was freed and closes the
listening socket and the socket of every open connection. So each connection that `accept` has
returned is accounted for: it was closed in a pass, it was refused because every slot was in use, or
the shutdown closes it, and only one of them, and that once. -/
theorem shutdown_conserves (cfg : Config) (httpSockFd : Nat) (rounds : List Round) (server : Server)
    (ran : serverRun cfg rounds (initServer httpSockFd) = .ok server) (refused : List Nat)
    (last : Server) (shuts : ShutsDownAt server refused last) :
    ∃ stopped, serverShutdownProperly last = .ok stopped ∧
      stopped.events = [.closed httpSockFd] ∧
      List.Forall₂ ShutDown last.connectionList stopped.connectionList ∧
      (closedConnections cfg rounds (initServer httpSockFd) ++
        (refusedConnections cfg rounds (initServer httpSockFd) ++ refused) ++
        openConnections last.connectionList).Perm (List.range last.accepted) := by
  have reached := run_register (initServer_register httpSockFd) ran
  obtain ⟨register, listens⟩ := shuts.register reached
  obtain ⟨slots, ran, shut⟩ := shutDownClients_shuts register.lasting
  refine ⟨⟨[.closed last.httpSockFd], slots⟩, ?_, ?_, shut, register.conserved⟩
  · rw [serverShutdownProperly, ran]
    rfl
  · rw [listens, serverRun_listens ‹_›]
    rfl

theorem shutdown_conserves_two : ∃ server stopped,
    serverRun sampleConfig closedForHeader (initServer 3) = .ok server ∧
      serverShutdownProperly server = .ok stopped ∧
      ([0] ++ openConnections server.connectionList).Perm (List.range server.accepted) := by
  have goesOn : (serverRun sampleConfig closedForHeader (initServer 3)).isOk = true := by
    decide +kernel
  have closed : closedConnections sampleConfig closedForHeader (initServer 3) = [0] := by
    decide +kernel
  have refused : refusedConnections sampleConfig closedForHeader (initServer 3) = [] := by
    decide +kernel
  cases ran : serverRun sampleConfig closedForHeader (initServer 3) with
  | error fault =>
      rw [ran] at goesOn
      cases goesOn
  | ok server =>
      obtain ⟨stopped, shut, _, _, conserved⟩ :=
        shutdown_conserves sampleConfig 3 closedForHeader server ran [] server .signal
      rw [closed, refused] at conserved
      exact ⟨server, stopped, rfl, shut, conserved⟩

end Liso
