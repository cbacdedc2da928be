import Liso.Server.Visits

/-! The slots over whole runs of the server: each pass takes a connection through one turn, and what
every turn keeps holds of all connections at all times. -/

namespace Liso

/-- A slot as the loop leaves it, whatever came before: in use and sound, or free with nothing in
its buffers. The pointers of a free slot may dangle. -/
structure Lasting (slot : Peer) : Prop where
  free : slot.socket = none → Vacant slot
  used : slot.socket ≠ none → Sound slot

theorem closeClientConnection_vacant {client slot : Peer}
    (closed : closeClientConnection client = .ok slot) : Vacant slot := by
  have idle := (closeClientConnection_leaves closed).2.1
  obtain ⟨_, _, rfl⟩ := closeClientConnection_ok.mp closed
  exact ⟨Cbuf.reset_inv _, rfl, Cbuf.reset_inv _, rfl, idle⟩

theorem highSock_ok {high highest : Nat} {connectionList : List Peer}
    (found : highSock high connectionList = .ok highest) :
    high ≤ highest ∧ ∀ client ∈ connectionList, client.cgiExecutor ≠ .freed ∧
      ∀ socket, client.socket = some socket → socket ≤ highest := by
  induction connectionList generalizing high with
  | nil =>
      cases found
      exact ⟨Nat.le_refl _, fun _ member => absurd member List.not_mem_nil⟩
  | cons client rest ih =>
      rw [highSock, List.foldlM_cons, bind_ok] at found
      obtain ⟨middle, first, later⟩ := found
      obtain ⟨upward, others⟩ := ih later
      have mine : max high (client.socket.getD 0) ≤ middle ∧ client.cgiExecutor ≠ .freed := by
        cases executor : client.cgiExecutor with
        | null =>
            simp only [executor, Except.ok.injEq] at first
            exact ⟨Nat.le_of_eq first, by simp⟩
        | freed =>
            simp only [executor] at first
            cases first
        | live running =>
            simp only [executor, Except.ok.injEq] at first
            exact ⟨by omega, by simp⟩
      refine ⟨by omega, fun slot member => ?_⟩
      rcases List.mem_cons.mp member with rfl | after
      · refine ⟨mine.2, fun socket used => ?_⟩
        rw [used, Option.getD_some] at mine
        omega
      · exact others slot after

private theorem mapM_mem {α β : Type} {list : List α} {results : List β} {next : α → Except Fault β}
    (ran : list.mapM next = .ok results) {a : α} (member : a ∈ list) :
    ∃ b ∈ results, next a = .ok b := by
  induction list generalizing results with
  | nil => cases member
  | cons first rest ih =>
      rw [List.mapM_cons, bind_ok] at ran
      obtain ⟨b, mine, ran⟩ := ran
      obtain ⟨later, others, shape⟩ := bind_ok.mp ran
      cases shape
      rcases List.mem_cons.mp member with rfl | after
      · exact ⟨b, List.mem_cons_self, mine⟩
      · obtain ⟨c, among, same⟩ := ih others after
        exact ⟨c, List.mem_cons_of_mem _ among, same⟩

private theorem buildFdSets_writes {listenSock socket : Nat} {connectionList : List Peer}
    {sets : FdSets} (built : buildFdSets listenSock connectionList = .ok sets) {client : Peer}
    (member : client ∈ connectionList) (used : client.socket = some socket) :
    socket ∈ sets.write := by
  obtain ⟨fds, found, shape⟩ := bind_ok.mp built
  cases shape
  obtain ⟨pair, among, mine⟩ := mapM_mem found member
  refine List.mem_flatMap.mpr ⟨pair, among, ?_⟩
  unfold clientFds at mine
  simp only [used] at mine
  split at mine <;> cases mine <;> exact List.mem_cons_self

section Passes

variable {cfg : Config} {round : Round} {fds : FdSets} {server next : Server}

private theorem serveClients_turn {i closes : Nat} {request after : Ptr RequestCell}
    {connectionList served : List Peer}
    (ran : serveClients cfg round fds i request connectionList = .ok (after, served, closes)) :
    ∀ (j : Nat) (slot : Peer), served[j]? = some slot → ∃ client request result,
      connectionList[j]? = some client ∧
        serveClient cfg round (i + j) fds request client = .ok result ∧ result.client = slot := by
  induction connectionList generalizing i request served closes with
  | nil =>
      cases ran
      intro j slot found
      cases found
  | cons client rest ih =>
      rw [serveClients] at ran
      cases first : serveClient cfg round i fds request client with
      | error fault =>
          simp only [first] at ran
          cases ran
      | ok result =>
          simp only [first] at ran
          cases later : serveClients cfg round fds (i + 1) result.request rest with
          | error fault =>
              simp only [later] at ran
              cases ran
          | ok answer =>
              obtain ⟨last, others, more⟩ := answer
              simp only [later] at ran
              cases ran
              intro j slot found
              cases j with
              | zero =>
                  cases found
                  exact ⟨client, request, result, rfl, first, rfl⟩
              | succ j =>
                  obtain ⟨other, start, answer, same, turn, left⟩ := ih later j slot found
                  rw [Nat.add_assoc, Nat.add_comm 1 j] at turn
                  exact ⟨other, start, answer, same, turn, left⟩

private theorem storeConnection_slot {accept : Peer → Peer} {connectionList : List Peer} {j : Nat}
    {entered : Peer} (found : (storeConnection accept connectionList)[j]? = some entered) :
    ∃ slot, connectionList[j]? = some slot ∧
      (entered = slot ∨ slot.socket = none ∧ entered = accept slot) := by
  induction connectionList generalizing j with
  | nil => cases found
  | cons client rest ih =>
      rw [storeConnection] at found
      split at found
      · next free =>
          cases j with
          | zero =>
              cases found
              exact ⟨client, rfl, .inr ⟨Option.isNone_iff_eq_none.mp free, rfl⟩⟩
          | succ j => exact ⟨entered, found, .inl rfl⟩
      · cases j with
        | zero => exact ⟨client, rfl, .inl (Option.some.inj found).symm⟩
        | succ j => exact ih found

structure SlotTurn (cfg : Config) (round : Round) (i : Nat) (slot left : Peer) : Prop where
  turn : ∃ entered fds request result,
    (entered = slot ∨ slot.socket = none ∧ slot.cgiExecutor = .null ∧
      ∃ newClientSock clientAddr conn, entered = acceptInto slot newClientSock clientAddr conn) ∧
    serveClient cfg round i fds request entered = .ok result ∧ result.client = left ∧
    ∀ socket, slot.socket = some socket → round.writable socket = true → socket ∈ fds.write

theorem serverStep_slot (lasting : ∀ slot ∈ server.connectionList, Lasting slot)
    (stepped : serverStep cfg server round = .ok next) {i : Nat} {left : Peer}
    (found : next.connectionList[i]? = some left) :
    ∃ slot, server.connectionList[i]? = some slot ∧ SlotTurn cfg round i slot left := by
  have whole := stepped
  unfold serverStep at stepped
  obtain ⟨sets, built, stepped⟩ := bind_ok.mp stepped
  obtain ⟨high, highest, _⟩ := bind_ok.mp stepped
  obtain ⟨accepting, closes, _, entering, _, _, ran⟩ := serverStep_turns cfg built highest whole
  obtain ⟨entered, request, result, here, turn, same⟩ := serveClients_turn ran i left found
  rw [Nat.zero_add] at turn
  have among : ∃ slot, server.connectionList[i]? = some slot ∧
      (entered = slot ∨ slot.socket = none ∧
        ∃ newClientSock clientAddr conn, entered = acceptInto slot newClientSock clientAddr conn) := by
    rw [entering] at here
    split at here
    · unfold handleNewConnection at here
      split at here
      · exact ⟨entered, here, .inl rfl⟩
      · obtain ⟨slot, isSlot, kept | ⟨free, taken⟩⟩ := storeConnection_slot here
        · exact ⟨slot, isSlot, .inl kept⟩
        · exact ⟨slot, isSlot, .inr ⟨free, _, _, _, taken⟩⟩
    · exact ⟨entered, here, .inl rfl⟩
  obtain ⟨slot, isSlot, taken⟩ := among
  have member := List.mem_of_getElem? isSlot
  have known := (highSock_ok highest).2 slot member
  refine ⟨slot, isSlot, entered, _, request, result, ?_, turn, same, fun socket used ready => ?_⟩
  · rcases taken with kept | ⟨free, accepted⟩
    · exact .inl kept
    · refine .inr ⟨free, ?_, accepted⟩
      have idle := ((lasting slot member).free free).idle
      cases executor : slot.cgiExecutor with
      | null => rfl
      | live running => exact absurd executor (idle running)
      | freed => exact absurd executor known.1
  · refine List.mem_filter.mpr ⟨buildFdSets_writes built member used, ?_⟩
    simpa [ready] using known.2 socket used

def Round.takes (round : Round) (i socket : Nat) : Prop :=
  round.writable socket = true ∧ ∃ count, round.send i = .accepted (count + 1)

/-- What becomes of a slot: it stays free, its connection is closed, or a connection that was there
or was just accepted is visited and stays open. -/
inductive SlotOutcome (cfg : Config) (round : Round) (i : Nat) (slot : Peer) : Peer → Prop
  | empty (free : slot.socket = none) : SlotOutcome cfg round i slot slot
  | closed {left : Peer} (vacant : Vacant left) (free : left.socket = none) :
      SlotOutcome cfg round i slot left
  | fresh {newClientSock conn : Nat} {clientAddr : Address} {left : Peer}
      {request after : Ptr RequestCell} (free : slot.socket = none) (vacant : Vacant slot)
      (noChild : slot.cgiExecutor = .null) (sound : Sound left) (used : left.socket ≠ none)
      (visit : Visit cfg False
        ⟨request, acceptInto slot newClientSock clientAddr conn, false⟩ ⟨after, left, false⟩) :
      SlotOutcome cfg round i slot left
  | stays {left : Peer} {request after : Ptr RequestCell} {socket : Nat}
      (used : slot.socket = some socket) (same : left.socket = some socket) (sound : Sound left)
      (visit : Visit cfg (round.takes i socket) ⟨request, slot, false⟩ ⟨after, left, false⟩) :
      SlotOutcome cfg round i slot left

theorem SlotOutcome.lasting {i : Nat} {slot left : Peer} (lasting : Lasting slot)
    (outcome : SlotOutcome cfg round i slot left) : Lasting left := by
  cases outcome with
  | empty => exact lasting
  | closed vacant free => exact ⟨fun _ => vacant, fun used => absurd free used⟩
  | fresh free vacant noChild sound used => exact ⟨fun free => absurd free used, fun _ => sound⟩
  | stays used same sound =>
      refine ⟨fun free => ?_, fun _ => sound⟩
      rw [same] at free
      cases free

theorem serveClient_free {i : Nat} {request : Ptr RequestCell} {client : Peer} {result : Served}
    (lasting : Lasting client) (free : client.socket = none)
    (served : serveClient cfg round i fds request client = .ok result) :
    client.cgiExecutor = .null ∧ result = ⟨request, client, false⟩ := by
  have idle := (lasting.free free).idle
  unfold serveClient servePipes at served
  cases executor : client.cgiExecutor with
  | null =>
      simp only [executor, free] at served
      exact ⟨rfl, (Except.ok.inj served).symm⟩
  | live running => exact absurd executor (idle running)
  | freed =>
      simp only [executor] at served
      cases served

theorem SlotTurn.outcome {i : Nat} {slot left : Peer} (lasting : Lasting slot)
    (turn : SlotTurn cfg round i slot left) : SlotOutcome cfg round i slot left := by
  obtain ⟨entered, fds, request, result, entering, served, rfl, writes⟩ := turn
  -- a connection is closed, or visited
  have serves (takes : Prop) {socket : Nat} (sound : Sound entered)
      (used : entered.socket = some socket) (taking : takes → Taking round i fds socket) :
      Vacant result.client ∧ result.client.socket = none ∨
        Sound result.client ∧ result.client.socket = some socket ∧
          Visit cfg takes ⟨request, entered, false⟩ ⟨result.request, result.client, false⟩ := by
    have follows := (serveClient_takes served).follows
    rcases follows.sound sound with ⟨isOpen, still, same⟩ | ⟨closed, abandoned⟩
    · exact .inr ⟨still, same.trans used, (serveClient_visits sound used served isOpen).mono taking⟩
    · obtain ⟨_, t, _, _, ⟨isOpen, _⟩ | ⟨_, closing⟩⟩ := follows
      · cases isOpen.symm.trans closed
      · exact .inl ⟨closeClientConnection_vacant closing, abandoned.socket⟩
  rcases entering with rfl | ⟨free, noChild, newClientSock, clientAddr, conn, rfl⟩
  · cases socket : entered.socket with
    | none =>
        obtain ⟨_, still⟩ := serveClient_free lasting socket served
        rw [still]
        exact .empty socket
    | some fd =>
        have sound := lasting.used (by simp [socket])
        rcases serves (round.takes i fd) sound socket
          (fun takes => ⟨writes fd socket takes.1, takes.2⟩) with
          ⟨vacant, free⟩ | ⟨sound, same, visit⟩
        · exact .closed vacant free
        · exact .stays socket same sound visit
  · have vacant := lasting.free free
    have sound := (acceptInto_tidy vacant noChild newClientSock clientAddr conn).used
      (Option.some_ne_none newClientSock)
    rcases serves False sound rfl False.elim with ⟨empty, none⟩ | ⟨still, same, visit⟩
    · exact .closed empty none
    · exact .fresh free vacant noChild still (by simp [same]) visit

theorem serverStep_outcome (lasting : ∀ slot ∈ server.connectionList, Lasting slot)
    (stepped : serverStep cfg server round = .ok next) {i : Nat} {left : Peer}
    (found : next.connectionList[i]? = some left) :
    ∃ slot, server.connectionList[i]? = some slot ∧ SlotOutcome cfg round i slot left := by
  obtain ⟨slot, isSlot, turn⟩ := serverStep_slot lasting stepped found
  exact ⟨slot, isSlot, turn.outcome (lasting slot (List.mem_of_getElem? isSlot))⟩

end Passes

section Runs

variable {cfg : Config} {server next : Server}

theorem serverStep_lasting {round : Round} (lasting : ∀ slot ∈ server.connectionList, Lasting slot)
    (stepped : serverStep cfg server round = .ok next) :
    ∀ slot ∈ next.connectionList, Lasting slot := by
  intro left member
  obtain ⟨i, found⟩ := List.mem_iff_getElem?.mp member
  obtain ⟨slot, isSlot, outcome⟩ := serverStep_outcome lasting stepped found
  exact outcome.lasting (lasting slot (List.mem_of_getElem? isSlot))

theorem serverRun_lasting {rounds : List Round} {httpSockFd : Nat}
    (ran : serverRun cfg rounds (initServer httpSockFd) = .ok server) :
    ∀ slot ∈ server.connectionList, Lasting slot := by
  have keeps : ∀ (server : Server) (round : Round) (next : Server),
      (∀ slot ∈ server.connectionList, Lasting slot) → True →
        serverStep cfg server round = .ok next → ∀ slot ∈ next.connectionList, Lasting slot :=
    fun _ _ _ lasting _ stepped => serverStep_lasting lasting stepped
  refine Run.run_invariant keeps (fun slot member => ?_) (fun _ _ => trivial) ran
  rw [List.eq_of_mem_replicate member]
  exact ⟨fun _ => createPeer_vacant, createPeer_tidy.used⟩

/-- What holds of a connection when it is accepted, and is kept by every visit, holds of all
connections at all times. -/
theorem serverRun_slots {P : Peer → Prop} {rounds : List Round} {httpSockFd : Nat}
    (fresh : ∀ {slot : Peer} (newClientSock : Nat) (clientAddr : Address) (conn : Nat), Vacant slot →
      slot.cgiExecutor = .null → P (acceptInto slot newClientSock clientAddr conn))
    (visited : ∀ {client left : Peer} {takes : Prop} {request after : Ptr RequestCell},
      Sound client → P client → Visit cfg takes ⟨request, client, false⟩ ⟨after, left, false⟩ →
        P left)
    (ran : serverRun cfg rounds (initServer httpSockFd) = .ok server) :
    ∀ slot ∈ server.connectionList, slot.socket ≠ none → P slot := by
  have keeps : ∀ (server : Server) (round : Round) (next : Server),
      (∀ slot ∈ server.connectionList, Lasting slot ∧ (slot.socket ≠ none → P slot)) → True →
        serverStep cfg server round = .ok next →
          ∀ slot ∈ next.connectionList, Lasting slot ∧ (slot.socket ≠ none → P slot) := by
    intro server round next known _ stepped left member
    obtain ⟨i, found⟩ := List.mem_iff_getElem?.mp member
    obtain ⟨slot, isSlot, outcome⟩ :=
      serverStep_outcome (fun slot member => (known slot member).1) stepped found
    obtain ⟨lasting, holds⟩ := known slot (List.mem_of_getElem? isSlot)
    refine ⟨outcome.lasting lasting, fun used => ?_⟩
    cases outcome with
    | empty free => exact absurd free used
    | closed vacant free => exact absurd free used
    | @fresh newClientSock conn clientAddr _ _ _ _ vacant noChild sound _ visit =>
        have entered := (acceptInto_tidy vacant noChild newClientSock clientAddr conn).used
          (Option.some_ne_none newClientSock)
        exact visited entered (fresh newClientSock clientAddr conn vacant noChild) visit
    | stays isUsed same sound visit =>
        have before : slot.socket ≠ none := by simp [isUsed]
        exact visited (lasting.used before) (holds before) visit
  refine fun slot member => (Run.run_invariant keeps ?_ (fun _ _ => trivial) ran slot member).2
  intro slot member
  rw [List.eq_of_mem_replicate member]
  exact ⟨⟨fun _ => createPeer_vacant, createPeer_tidy.used⟩, fun used => absurd rfl used⟩

end Runs

end Liso
