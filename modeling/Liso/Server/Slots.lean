import Liso.Server.Loop

/-! The slots of the connection list: a pass of the loop takes each connection
through steps of its own, and what is left in a slot once its connection is closed. -/

namespace Liso

theorem closeClientConnection_leaves {client slot : Peer}
    (closed : closeClientConnection client = .ok slot) :
    slot.socket = none ∧ Idle slot.cgiExecutor ∧
      ∀ task, client.httpTask = .live task → slot.httpTask = .freed := by
  obtain ⟨_, _, rfl⟩ := closeClientConnection_ok.mp closed
  refine ⟨rfl, Ptr.afterFree_ne_live client.cgiExecutor, fun task live => ?_⟩
  change client.httpTask.afterFree = .freed
  rw [live, Ptr.afterFree]

section Steps

variable (round : Round) (i : Nat) (fds : FdSets)

def pipeOutSteps (client : Peer) : List PeerEvent :=
  match client.cgiExecutor with
  | .live executor =>
      if executor.stdoutPipe.readEnd ∈ fds.read then [.fromCgi (round.fromCgi i)] else []
  | _ => []

def pipeSteps (client : Peer) : List PeerEvent :=
  match client.cgiExecutor with
  | .live executor =>
      if executor.stdinPipe.writeEnd ∈ fds.write then
        .toCgi (round.toCgi i) ::
          match sendToCgiProcess client (round.toCgi i) with
          | .ok (.success, client) => pipeOutSteps round i fds client
          | _ => []
      else pipeOutSteps round i fds client
  | _ => []

def httpSteps (socket : Nat) (ready : Bool) : List PeerEvent :=
  if socket ∈ fds.except then [] else if ready then [.call (round.os i)] else []

def restSteps (socket : Nat) (hasRead : Bool) (client : Peer) : List PeerEvent :=
  if socket ∈ fds.write then
    .send (round.send i) ::
      match sendToPeer client (round.send i) with
      | .ok (.success, _) => httpSteps round i fds socket true
      | .ok (.nothingToSend, _) => httpSteps round i fds socket hasRead
      | _ => []
  else httpSteps round i fds socket hasRead

def socketSteps (socket : Nat) (client : Peer) : List PeerEvent :=
  if socket ∈ fds.read then
    .recv (round.recv i) ::
      match receiveFromPeer client (round.recv i) with
      | (.success, client) => restSteps round i fds socket true client
      | (.failure, _) => []
  else restSteps round i fds socket (!bufEmpty client.receivingBuffer) client

/-- The steps that a pass of the loop takes a connection through. -/
def clientSteps (request : Ptr RequestCell) (client : Peer) : List PeerEvent :=
  pipeSteps round i fds client ++
    match servePipes round i fds request client with
    | .ok served =>
        match served.client.socket with
        | some socket => socketSteps round i fds socket served.client
        | none => []
    | .error _ => []

end Steps

def Takes (cfg : Config) (events : List PeerEvent) (s : Session) (result : Served) : Prop :=
  ∃ t, sessionRun cfg events s = .ok t ∧ result.request = t.request ∧
    (result.closed = false ∧ t.closed = false ∧ result.client = t.peer ∨
      result.closed = true ∧ closeClientConnection t.peer = .ok result.client)

def Follows (cfg : Config) (s : Session) (result : Served) : Prop :=
  ∃ events t, sessionRun cfg events s = .ok t ∧ result.request = t.request ∧
    (result.closed = false ∧ t.closed = false ∧ result.client = t.peer ∨
      result.closed = true ∧ closeClientConnection t.peer = .ok result.client)

section Takes

variable {cfg : Config} {s t : Session} {result : Served} {events front back : List PeerEvent}

theorem Takes.follows (takes : Takes cfg events s result) : Follows cfg s result := by
  obtain ⟨t, ran, outcome⟩ := takes
  exact ⟨events, t, ran, outcome⟩

theorem Takes.rest (isOpen : s.closed = false) : Takes cfg [] s ⟨s.request, s.peer, false⟩ :=
  ⟨s, rfl, rfl, .inl ⟨rfl, isOpen, rfl⟩⟩

theorem Takes.step {event : PeerEvent} (stepped : sessionStep cfg s event = .ok t)
    (later : Takes cfg events t result) : Takes cfg (event :: events) s result := by
  obtain ⟨last, ran, same⟩ := later
  exact ⟨last, Run.run_cons_ok.mpr ⟨t, stepped, ran⟩, same⟩

theorem Takes.hangUp (closes : hangUp s.request s.peer = .ok result) :
    Takes cfg [] s result := by
  unfold Liso.hangUp at closes
  cases closing : closeClientConnection s.peer with
  | error fault =>
      simp only [closing] at closes
      cases closes
  | ok client =>
      simp only [closing] at closes
      cases closes
      exact ⟨s, rfl, rfl, .inr ⟨rfl, closing⟩⟩

theorem Takes.trans {middle : Served} (first : Takes cfg front s middle)
    (isOpen : middle.closed = false)
    (second : Takes cfg back ⟨middle.request, middle.client, false⟩ result) :
    Takes cfg (front ++ back) s result := by
  obtain ⟨t, ran, request, ⟨_, tOpen, client⟩ | ⟨closed, _⟩⟩ := first
  · have same : (⟨middle.request, middle.client, false⟩ : Session) = t := by
      rw [request, client, ← tOpen]
    rw [same] at second
    obtain ⟨last, ranOn, outcome⟩ := second
    exact ⟨last, Run.run_append_ok.mpr ⟨t, ran, ranOn⟩, outcome⟩
  · cases isOpen.symm.trans closed

end Takes

section Serve

variable {cfg : Config} {round : Round} {i socket : Nat} {fds : FdSets}
  {request : Ptr RequestCell} {client : Peer} {result : Served}

private theorem servePipeOut_takes
    (ran : servePipeOut round i fds request client = .ok result) :
    Takes cfg (pipeOutSteps round i fds client) ⟨request, client, false⟩ result := by
  unfold servePipeOut at ran
  unfold pipeOutSteps
  cases child : client.cgiExecutor with
  | null =>
      simp only [child, Ptr.deref] at ran
      cases ran
  | freed =>
      simp only [child, Ptr.deref] at ran
      cases ran
  | live executor =>
      simp only [child, Ptr.deref] at ran
      by_cases readable : executor.stdoutPipe.readEnd ∈ fds.read
      · simp only [if_pos readable] at ran ⊢
        cases piped : pipeFromCgiProcessToClient client (round.fromCgi i) with
        | error fault =>
            simp only [piped] at ran
            cases ran
        | ok answer =>
            obtain ⟨status, next⟩ := answer
            have stepped : sessionStep cfg ⟨request, client, false⟩ (.fromCgi (round.fromCgi i)) =
                .ok ⟨request, next, status = .failure⟩ := by
              simp [sessionStep, withChild, child, piped]
            cases status with
            | success =>
                simp only [piped] at ran
                cases ran
                exact .step stepped (.rest rfl)
            | failure =>
                simp only [piped] at ran
                exact .step stepped (.hangUp ran)
      · simp only [if_neg readable] at ran ⊢
        cases ran
        exact .rest rfl

theorem servePipes_takes (ran : servePipes round i fds request client = .ok result) :
    Takes cfg (pipeSteps round i fds client) ⟨request, client, false⟩ result := by
  unfold servePipes at ran
  unfold pipeSteps
  cases child : client.cgiExecutor with
  | null =>
      simp only [child] at ran
      cases ran
      exact .rest rfl
  | freed =>
      simp only [child] at ran
      cases ran
  | live executor =>
      simp only [child] at ran
      by_cases writable : executor.stdinPipe.writeEnd ∈ fds.write
      · simp only [if_pos writable] at ran ⊢
        cases sent : sendToCgiProcess client (round.toCgi i) with
        | error fault =>
            simp only [sent] at ran
            cases ran
        | ok answer =>
            obtain ⟨status, next⟩ := answer
            have stepped : sessionStep cfg ⟨request, client, false⟩ (.toCgi (round.toCgi i)) =
                .ok ⟨request, next, status = .failure⟩ := by
              simp [sessionStep, withChild, child, sent]
            cases status with
            | success =>
                simp only [sent] at ran
                exact .step stepped (servePipeOut_takes ran)
            | failure =>
                -- the executor was freed just before it is looked up again
                simp only [sent] at ran
                cases closing : closeClientConnection next with
                | error fault =>
                    simp only [closing] at ran
                    cases ran
                | ok slot =>
                    have gone := (closeClientConnection_leaves closing).2.1
                    simp only [closing, servePipeOut] at ran
                    cases left : slot.cgiExecutor with
                    | live running => exact absurd left (gone running)
                    | null =>
                        simp only [left, Ptr.deref] at ran
                        cases ran
                    | freed =>
                        simp only [left, Ptr.deref] at ran
                        cases ran
      · simp only [if_neg writable] at ran ⊢
        exact servePipeOut_takes ran

theorem serveHttp_takes {os : Os} (ran : serveHttp cfg os request client = .ok result) :
    Takes cfg [.call os] ⟨request, client, false⟩ result := by
  unfold serveHttp at ran
  cases called : handleHttp cfg os request client with
  | error fault =>
      simp only [called] at ran
      cases ran
  | ok answer =>
      obtain ⟨code, after, next⟩ := answer
      have stepped : sessionStep cfg ⟨request, client, false⟩ (.call os) =
          .ok (afterCall code after next) := by
        simp [sessionStep, called]
      simp only [called] at ran
      split at ran
      · exact .step stepped (.hangUp ran)
      · next isOpen =>
          cases ran
          exact .step stepped (.rest (by simpa using isOpen))

private theorem serveRest_takes {hasRead : Bool}
    (ran : serveRest cfg round i fds socket request hasRead client = .ok result) :
    Takes cfg (restSteps round i fds socket hasRead client) ⟨request, client, false⟩ result := by
  have last {client : Peer} {ready : Bool}
      (ran : (if socket ∈ fds.except then hangUp request client
        else if ready then serveHttp cfg (round.os i) request client
        else .ok ⟨request, client, false⟩) = .ok result) :
      Takes cfg (httpSteps round i fds socket ready) ⟨request, client, false⟩ result := by
    unfold httpSteps
    by_cases exceptional : socket ∈ fds.except
    · rw [if_pos exceptional] at ran ⊢
      exact .hangUp ran
    · rw [if_neg exceptional] at ran ⊢
      cases ready with
      | true => exact serveHttp_takes ran
      | false =>
          cases ran
          exact .rest rfl
  unfold serveRest serveSend at ran
  unfold restSteps
  by_cases writable : socket ∈ fds.write
  · rw [if_pos writable] at ran ⊢
    cases sent : sendToPeer client (round.send i) with
    | error fault =>
        simp only [sent] at ran
        cases ran
    | ok answer =>
        obtain ⟨status, next⟩ := answer
        have stepped : sessionStep cfg ⟨request, client, false⟩ (.send (round.send i)) =
            .ok ⟨request, next, status = .failure⟩ := by
          simp [sessionStep, sent]
        cases status with
        | success =>
            simp only [sent, Bool.or_true] at ran
            exact .step stepped (last ran)
        | failure =>
            simp only [sent] at ran
            exact .step stepped (.hangUp ran)
        | nothingToSend =>
            simp only [sent, Bool.or_false] at ran
            exact .step stepped (last ran)
  · rw [if_neg writable] at ran ⊢
    simp only [Bool.or_false] at ran
    exact last ran

private theorem serveSocket_takes
    (ran : serveSocket cfg round i fds socket request client = .ok result) :
    Takes cfg (socketSteps round i fds socket client) ⟨request, client, false⟩ result := by
  unfold serveSocket serveRecv at ran
  unfold socketSteps
  by_cases readable : socket ∈ fds.read
  · rw [if_pos readable] at ran ⊢
    cases received : receiveFromPeer client (round.recv i) with
    | mk status next =>
        have stepped : sessionStep cfg ⟨request, client, false⟩ (.recv (round.recv i)) =
            .ok ⟨request, next, status = .failure⟩ := by
          simp [sessionStep, received]
        cases status with
        | success =>
            simp only [received] at ran
            exact .step stepped (serveRest_takes ran)
        | failure =>
            simp only [received] at ran
            exact .step stepped (.hangUp ran)
  · rw [if_neg readable] at ran ⊢
    exact serveRest_takes ran

theorem serveClient_takes (ran : serveClient cfg round i fds request client = .ok result) :
    Takes cfg (clientSteps round i fds request client) ⟨request, client, false⟩ result := by
  unfold serveClient at ran
  unfold clientSteps
  cases piped : servePipes round i fds request client with
  | error fault =>
      simp only [piped] at ran
      cases ran
  | ok served =>
      simp only [piped] at ran
      have first : Takes cfg (pipeSteps round i fds client) ⟨request, client, false⟩ served :=
        servePipes_takes piped
      cases socket : served.client.socket with
      | none =>
          simp only [socket] at ran ⊢
          cases ran
          rwa [List.append_nil]
      | some fd =>
          simp only [socket] at ran ⊢
          refine first.trans ?_ (serveSocket_takes ran)
          obtain ⟨_, _, _, ⟨isOpen, _⟩ | ⟨_, closing⟩⟩ := first
          · exact isOpen
          · rw [(closeClientConnection_leaves closing).1] at socket
            cases socket

end Serve

/-- A connected peer that is valid, and has a child exactly while its task waits for one. -/
def Sound (slot : Peer) : Prop :=
  ∀ request, Session.Inv ⟨request, slot, false⟩ ∧ Ordered ⟨request, slot, false⟩

theorem acceptInto_sound (newClientSock : Nat) (clientAddr : Address) (conn : Nat) :
    Sound (acceptInto createPeer newClientSock clientAddr conn) := fun request =>
  ⟨freshSession_inv createPeer_vacant request newClientSock clientAddr conn,
    freshSession_ordered rfl request newClientSock clientAddr conn⟩

theorem StepCases.socket {cfg : Config} {s t : Session} {task : HttpTask} {event : PeerEvent}
    (step : StepCases cfg s task event t) : t.peer.socket = s.peer.socket := by
  cases step with
  | deliver received => cases received <;> rfl
  | recv received => cases received <;> rfl
  | @call os code h called effect valid =>
      have same : h.peer.socket = s.peer.socket := effect.socket
      cases code <;> exact same
  | send sent => cases sent <;> rfl
  | toCgi child sent => cases sent <;> rfl
  | fromCgi child piped =>
      cases piped with
      | full => rfl
      | failed => rfl
      | ended live => rfl
      | piped taken puts =>
          obtain ⟨sendingBuffer, rfl⟩ := puts.frame
          rfl
  | noChild => rfl
  | others => rfl

theorem sessionRun_socket {cfg : Config} {events : List PeerEvent} {s t : Session} (inv : s.Inv)
    (ran : sessionRun cfg events s = .ok t) : t.peer.socket = s.peer.socket :=
  sessionRun_keeps (P := fun r => r.peer.socket = s.peer.socket)
    (fun _ _ same _ step => step.socket.trans same) inv rfl (fun _ _ => trivial) ran

structure Abandoned (slot : Peer) : Prop where
  socket : slot.socket = none
  task : slot.httpTask = .freed

theorem Follows.sound {cfg : Config} {request : Ptr RequestCell} {client : Peer} {result : Served}
    (sound : Sound client) (follows : Follows cfg ⟨request, client, false⟩ result) :
    result.closed = false ∧ Sound result.client ∧ result.client.socket = client.socket ∨
      result.closed = true ∧ Abandoned result.client := by
  obtain ⟨events, t, ran, _, outcome⟩ := follows
  obtain ⟨inv, ordered⟩ := sound request
  have stillInv := sessionRun_inv inv ran
  have stillOrdered := sessionRun_ordered inv ordered ran
  have socket := sessionRun_socket inv ran
  rcases outcome with ⟨isOpen, tOpen, same⟩ | ⟨closed, closing⟩
  · refine .inl ⟨isOpen, fun other => ?_, by rw [same, socket]⟩
    rw [same]
    constructor
    · exact fun _ => stillInv tOpen
    · exact ⟨stillOrdered.linked, stillOrdered.sorted, fun _ => stillOrdered.current tOpen⟩
  · obtain ⟨task, live, _⟩ := stillOrdered.linked
    have leaves := closeClientConnection_leaves closing
    exact .inr ⟨closed, leaves.1, leaves.2.2 task live⟩

/-- No connection was ever closed: a slot is as it was made, or in use. -/
def Pristine (connectionList : List Peer) : Prop :=
  ∀ slot ∈ connectionList, (slot.socket = none → slot = createPeer) ∧
    (slot.socket ≠ none → Sound slot)

theorem Pristine.cons {client : Peer} {rest : List Peer} (later : Pristine rest)
    (first : (client.socket = none → client = createPeer) ∧
      (client.socket ≠ none → Sound client)) : Pristine (client :: rest) := by
  intro slot member
  rcases List.mem_cons.mp member with rfl | after
  · exact first
  · exact later slot after

theorem storeConnection_pristine {connectionList : List Peer} {accept : Peer → Peer}
    (used : (accept createPeer).socket ≠ none) (sound : Sound (accept createPeer))
    (pristine : Pristine connectionList) : Pristine (storeConnection accept connectionList) := by
  induction connectionList with
  | nil => exact pristine
  | cons client rest ih =>
      have later : Pristine rest := fun slot member =>
        pristine slot (List.mem_cons_of_mem client member)
      have first := pristine client List.mem_cons_self
      by_cases free : client.socket.isNone = true
      · have unused : client = createPeer := first.1 (Option.isNone_iff_eq_none.mp free)
        rw [storeConnection, if_pos free, unused]
        exact later.cons ⟨fun none => absurd none used, fun _ => sound⟩
      · rw [storeConnection, if_neg free]
        exact (ih later).cons first

theorem serveClients_pristine {cfg : Config} {round : Round} {fds : FdSets} {i : Nat}
    {request after : Ptr RequestCell} {connectionList served : List Peer} {closes : Nat}
    (pristine : Pristine connectionList)
    (ran : serveClients cfg round fds i request connectionList = .ok (after, served, closes)) :
    closes = 0 ∧ Pristine served ∨ closes ≠ 0 ∧ ∃ slot ∈ served, Abandoned slot := by
  induction connectionList generalizing i request after served closes with
  | nil =>
      cases ran
      exact .inl ⟨rfl, pristine⟩
  | cons client rest ih =>
      have later : Pristine rest := fun slot member =>
        pristine slot (List.mem_cons_of_mem client member)
      unfold serveClients at ran
      cases first : serveClient cfg round i fds request client with
      | error fault =>
          simp only [first] at ran
          cases ran
      | ok result =>
          simp only [first] at ran
          cases others : serveClients cfg round fds (i + 1) result.request rest with
          | error fault =>
              simp only [others] at ran
              cases ran
          | ok answer =>
              obtain ⟨last, slots, count⟩ := answer
              simp only [others] at ran
              cases ran
              have kept : result.closed = false ∧
                  ((result.client.socket = none → result.client = createPeer) ∧
                    (result.client.socket ≠ none → Sound result.client)) ∨
                  result.closed = true ∧ Abandoned result.client := by
                cases socket : client.socket with
                | none =>
                    rw [(pristine client List.mem_cons_self).1 socket] at first
                    cases first
                    exact .inl ⟨rfl, fun _ => rfl, fun used => absurd rfl used⟩
                | some fd =>
                    have sound := (pristine client List.mem_cons_self).2 (by simp [socket])
                    rcases (serveClient_takes first).follows.sound sound with
                      ⟨isOpen, sound, same⟩ | abandoned
                    · refine .inl ⟨isOpen, fun free => ?_, fun _ => sound⟩
                      rw [same, socket] at free
                      cases free
                    · exact .inr abandoned
              rcases kept with ⟨isOpen, first⟩ | ⟨closed, abandoned⟩
              · rcases ih later others with ⟨rfl, pristine⟩ | ⟨some, slot, member, abandoned⟩
                · exact .inl ⟨by rw [isOpen]; rfl, pristine.cons first⟩
                · refine .inr ⟨?_, slot, List.mem_cons_of_mem _ member, abandoned⟩
                  omega
              · refine .inr ⟨?_, result.client, List.mem_cons_self, abandoned⟩
                rw [closed, Bool.toNat_true]
                omega

theorem serverStep_cases {cfg : Config} {s t : Server} {round : Round}
    (stepped : serverStep cfg s round = .ok t) :
    ∃ fds accepting served closes,
      accepting = (if s.httpSockFd ∈ fds.read then handleNewConnection round.accept s else s) ∧
      serveClients cfg round fds 0 accepting.request accepting.connectionList =
        .ok (t.request, served, closes) ∧
      t = { accepting with
        request := t.request, connectionList := served, closes := accepting.closes + closes } := by
  unfold serverStep at stepped
  rw [bind_ok] at stepped
  obtain ⟨sets, _, stepped⟩ := stepped
  rw [bind_ok] at stepped
  obtain ⟨high, _, stepped⟩ := stepped
  split at stepped
  · cases stepped
  · dsimp only at stepped
    generalize select round high sets = fds at stepped
    generalize entered :
      (if s.httpSockFd ∈ fds.read then handleNewConnection round.accept s else s) = accepting
      at stepped
    split at stepped
    · cases stepped
    · rw [bind_ok] at stepped
      obtain ⟨⟨request, served, closes⟩, ran, stepped⟩ := stepped
      cases stepped
      exact ⟨fds, accepting, served, closes, entered.symm, ran, rfl⟩

theorem handleNewConnection_closes (answer : Option (Nat × Address)) (server : Server) :
    (handleNewConnection answer server).closes = server.closes := by
  unfold handleNewConnection
  split <;> rfl

theorem handleNewConnection_pristine (answer : Option (Nat × Address)) {server : Server}
    (pristine : Pristine server.connectionList) :
    Pristine (handleNewConnection answer server).connectionList := by
  unfold handleNewConnection
  split
  · exact pristine
  · next newClientSock clientAddr =>
      have sound := acceptInto_sound newClientSock clientAddr server.accepted
      have used : (acceptInto createPeer newClientSock clientAddr server.accepted).socket ≠ none :=
        Option.some_ne_none newClientSock
      exact storeConnection_pristine used sound pristine

theorem serverStep_pristine {cfg : Config} {s t : Server} {round : Round}
    (pristine : Pristine s.connectionList) (stepped : serverStep cfg s round = .ok t) :
    t.closes = s.closes ∧ Pristine t.connectionList ∨
      t.closes ≠ s.closes ∧ ∃ slot ∈ t.connectionList, Abandoned slot := by
  obtain ⟨fds, accepting, served, closes, entered, ran, shape⟩ := serverStep_cases stepped
  have same : accepting.closes = s.closes ∧ Pristine accepting.connectionList := by
    rw [entered]
    split
    · exact ⟨handleNewConnection_closes round.accept s,
        handleNewConnection_pristine round.accept pristine⟩
    · exact ⟨rfl, pristine⟩
  have counted : t.closes = s.closes + closes := by rw [shape, same.1]
  have list : t.connectionList = served := by rw [shape]
  rcases serveClients_pristine same.2 ran with ⟨rfl, pristine⟩ | ⟨some, abandoned⟩
  · exact .inl ⟨counted, list ▸ pristine⟩
  · exact .inr ⟨by omega, list ▸ abandoned⟩

theorem serverStep_closes {cfg : Config} {s t : Server} {round : Round}
    (stepped : serverStep cfg s round = .ok t) : s.closes ≤ t.closes := by
  obtain ⟨fds, accepting, served, closes, entered, ran, shape⟩ := serverStep_cases stepped
  have same : accepting.closes = s.closes := by
    rw [entered]
    split
    · exact handleNewConnection_closes round.accept s
    · rfl
  rw [shape, ← same]
  exact Nat.le_add_right _ _

theorem initServer_pristine (httpSockFd : Nat) : Pristine (initServer httpSockFd).connectionList := by
  intro slot member
  have unused : slot = createPeer := List.eq_of_mem_replicate member
  rw [unused]
  exact ⟨fun _ => rfl, fun used => absurd rfl used⟩

/-- Every slot without a socket is clean, and a connection accepted into it starts as in one that
was never used. The last field is what `start_CGI_script` asserts, of every connection whose
task has not started a child. -/
structure GoodAsNew (server : Server) : Prop where
  clean : ∀ slot ∈ server.connectionList, slot.socket = none →
    slot.cgiExecutor = .null ∧ slot.httpTask = .null ∧ slot.sendingBuffer.content = [] ∧
      slot.receivingBuffer.content = [] ∧ slot.closeConn = false
  alike : ∀ slot ∈ server.connectionList, slot.socket = none →
    ∀ newClientSock clientAddr conn, acceptInto slot newClientSock clientAddr conn =
      acceptInto createPeer newClientSock clientAddr conn
  asserted : ∀ slot ∈ server.connectionList, slot.socket ≠ none →
    ∀ task, slot.httpTask = .live task → task.state ≠ .processingCgi → slot.cgiExecutor = .null

theorem Sound.asserted {slot : Peer} {task : HttpTask} (sound : Sound slot)
    (live : slot.httpTask = .live task) (state : task.state ≠ .processingCgi) :
    slot.cgiExecutor = .null := by
  obtain ⟨same, isSame, link⟩ := (sound .null).2.linked
  cases isSame.symm.trans live
  by_contra child
  exact state (link.mp child)

theorem Pristine.goodAsNew {server : Server} (pristine : Pristine server.connectionList) :
    GoodAsNew server := by
  constructor
  · intro slot member free
    rw [(pristine slot member).1 free]
    exact ⟨rfl, rfl, rfl, rfl, rfl⟩
  · intro slot member free newClientSock clientAddr conn
    rw [(pristine slot member).1 free]
  · intro slot member used task live state
    exact ((pristine slot member).2 used).asserted live state

theorem Abandoned.not_goodAsNew {server : Server} {slot : Peer}
    (member : slot ∈ server.connectionList) (abandoned : Abandoned slot) : ¬ GoodAsNew server := by
  intro good
  have unused := (good.clean slot member abandoned.socket).2.1
  rw [abandoned.task] at unused
  cases unused

theorem serverRun_closes {cfg : Config} {rounds : List Round} {s t : Server}
    (ran : serverRun cfg rounds s = .ok t) : s.closes ≤ t.closes := by
  have grows : ∀ (r : Server) (round : Round) (t : Server), s.closes ≤ r.closes → True →
      serverStep cfg r round = .ok t → s.closes ≤ t.closes :=
    fun _ _ _ grown _ stepped => grown.trans (serverStep_closes stepped)
  exact Run.run_invariant grows (Nat.le_refl _) (fun _ _ => trivial) ran

theorem serverRun_pristine {cfg : Config} {rounds : List Round} {s t : Server}
    (pristine : Pristine s.connectionList) (ran : serverRun cfg rounds s = .ok t) :
    t.closes = s.closes ∧ Pristine t.connectionList ∨
      t.closes ≠ s.closes ∧ ∃ front middle, front <+: rounds ∧
        serverRun cfg front s = .ok middle ∧ ∃ slot ∈ middle.connectionList, Abandoned slot := by
  induction rounds generalizing s with
  | nil =>
      cases ran
      exact .inl ⟨rfl, pristine⟩
  | cons round rest ih =>
      obtain ⟨next, stepped, later⟩ := Run.run_cons_ok.mp ran
      rcases serverStep_pristine pristine stepped with ⟨same, pristine⟩ | ⟨closes, abandoned⟩
      · rcases ih pristine later with
          ⟨same', pristine⟩ | ⟨closes, front, middle, isPrefix, reached, abandoned⟩
        · exact .inl ⟨same'.trans same, pristine⟩
        · refine .inr ⟨same ▸ closes, round :: front, middle, ?_, ?_, abandoned⟩
          · exact List.cons_prefix_cons.mpr ⟨rfl, isPrefix⟩
          · exact Run.run_cons_ok.mpr ⟨next, stepped, reached⟩
      · refine .inr ⟨?_, [round], next, ⟨rest, rfl⟩, ?_, abandoned⟩
        · have before := serverStep_closes stepped
          have after := serverRun_closes later
          omega
        · exact Run.run_cons_ok.mpr ⟨next, stepped, rfl⟩

/-- Every state of a run has its slots as good as new exactly when the run closes no connection. -/
theorem slots_as_new_iff (cfg : Config) (httpSockFd : Nat) (rounds : List Round) :
    (∀ front server, front <+: rounds → serverRun cfg front (initServer httpSockFd) = .ok server →
      GoodAsNew server) ↔
    (∀ front server, front <+: rounds → serverRun cfg front (initServer httpSockFd) = .ok server →
      server.closes = 0) := by
  have start := initServer_pristine httpSockFd
  constructor
  · intro good front server isPrefix reached
    rcases serverRun_pristine start reached with ⟨same, _⟩ |
      ⟨_, earlier, middle, before, passed, slot, member, abandoned⟩
    · exact same
    · exact absurd (good earlier middle (before.trans isPrefix) passed)
        (abandoned.not_goodAsNew member)
  · intro none front server isPrefix reached
    rcases serverRun_pristine start reached with ⟨_, pristine⟩ | ⟨closes, _⟩
    · exact pristine.goodAsNew
    · exact absurd (none front server isPrefix reached) closes

def readRound (ready : Nat) (accept : Option (Nat × Address)) (recv : RecvAnswer) : Round where
  selects := true
  readable fd := fd = ready
  writable _ := false
  exceptional _ := false
  accept
  toCgi _ := .wouldBlock
  fromCgi _ := none
  recv _ := recv
  send _ := .wouldBlock
  os _ := sampleOs true

def closedWhileRunning : List Round :=
  [readRound 3 (some (5, ⟨str "1.2.3.4", 80⟩)) .wouldBlock,
   readRound 5 none (.bytes 0x47 (str "ET /cgi/x HTTP/1.1\r\n\r\n")),
   readRound 5 none .shutdown]

/-- The slot keeps the pointers to the task and the executor that were freed. -/
theorem slots_not_as_new :
    ∃ server, serverRun sampleConfig closedWhileRunning (initServer 3) = .ok server ∧
      ¬ GoodAsNew server ∧ ∃ slot ∈ server.connectionList,
        slot.socket = none ∧ slot.cgiExecutor = .freed ∧ slot.httpTask = .freed := by
  have left : ((serverRun sampleConfig closedWhileRunning (initServer 3)).map fun server =>
      server.connectionList.any fun slot => slot.socket.isNone &&
        (slot.cgiExecutor matches .freed) && (slot.httpTask matches .freed)) = .ok true := by
    decide +kernel
  cases ran : serverRun sampleConfig closedWhileRunning (initServer 3) with
  | error fault =>
      rw [ran] at left
      cases left
  | ok server =>
      rw [ran] at left
      obtain ⟨slot, member, freed⟩ := List.any_eq_true.mp (Except.ok.inj left)
      obtain ⟨⟨socket, executor⟩, task⟩ :
          (slot.socket = none ∧ slot.cgiExecutor = .freed) ∧ slot.httpTask = .freed := by
        cases child : slot.cgiExecutor <;> cases task : slot.httpTask <;>
          simp_all
      exact ⟨server, rfl, Abandoned.not_goodAsNew member ⟨socket, task⟩, slot, member, socket,
        executor, task⟩

end Liso
