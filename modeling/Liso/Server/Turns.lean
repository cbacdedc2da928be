import Liso.Server.Slots

/-! The turns of the connections in one pass of the loop, and the pointers that a closed
connection leaves behind: who looks at them before the slot is filled again. -/

namespace Liso

/-- What the loop finds when it comes to a connection. -/
structure Turn where
  fds : FdSets
  i : Nat
  request : Ptr RequestCell
  client : Peer

def turns (cfg : Config) (round : Round) (fds : FdSets) :
    Nat → Ptr RequestCell → List Peer → List Turn
  | _, _, [] => []
  | i, request, client :: rest =>
      ⟨fds, i, request, client⟩ ::
        match serveClient cfg round i fds request client with
        | .error _ => []
        | .ok served => turns cfg round fds (i + 1) served.request rest

def passTurns (cfg : Config) (server : Server) (round : Round) : List Turn :=
  match buildFdSets server.httpSockFd server.connectionList,
      highSock server.httpSockFd server.connectionList with
  | .ok sets, .ok high =>
      let fds := select round high sets
      let accepting :=
        if server.httpSockFd ∈ fds.read then handleNewConnection round.accept server else server
      if round.selects = false ∨ 0 ∈ fds.except ∨ server.httpSockFd ∈ fds.except then []
      else turns cfg round fds 0 accepting.request accepting.connectionList
  | _, _ => []

def failsFreed {α : Type} : Except Fault α → Bool
  | .error .freed => true
  | _ => false

namespace Turn

def served (cfg : Config) (round : Round) (turn : Turn) : Except Fault Served :=
  serveClient cfg round turn.i turn.fds turn.request turn.client

def closes (cfg : Config) (round : Round) (turn : Turn) : Bool :=
  match turn.served cfg round with
  | .ok served => served.closed
  | .error _ => false

def calls (round : Round) (turn : Turn) : Option (Ptr RequestCell × Peer) :=
  match servePipes round turn.i turn.fds turn.request turn.client with
  | .error _ => none
  | .ok served =>
      match served.client.socket with
      | none => none
      | some socket =>
          match serveRecv round turn.i turn.fds socket served.client with
          | (none, _) => none
          | (some hasRead, client) =>
              match serveSend round turn.i turn.fds socket client with
              | .ok (some hasSent, client) =>
                  if !(socket ∈ turn.fds.except) && (hasRead || hasSent) then
                    some (served.request, client)
                  else none
              | _ => none

/-- A pointer of the slot is looked at, or freed, that was freed before. In a call with a live
task, the pointer that was freed before is another: the global `request`, or the file. -/
def touchesReleased (cfg : Config) (round : Round) (turn : Turn) : Bool :=
  failsFreed (turn.served cfg round) &&
    match turn.calls round with
    | some (request, client) => !((client.httpTask matches .live _) &&
        failsFreed (handleHttp cfg (round.os turn.i) request client))
    | none => true

def childFails (round : Round) (turn : Turn) : Bool :=
  match turn.client.cgiExecutor with
  | .live executor =>
      let output (client : Peer) : Bool :=
        executor.stdoutPipe.readEnd ∈ turn.fds.read &&
          (pipeFromCgiProcessToClient client (round.fromCgi turn.i) matches .ok (.failure, _))
      if executor.stdinPipe.writeEnd ∈ turn.fds.write then
        match sendToCgiProcess turn.client (round.toCgi turn.i) with
        | .ok (.success, client) => output client
        | .ok (.failure, _) => true
        | .error _ => false
      else output turn.client
  | _ => false

def clientFails (round : Round) (turn : Turn) : Bool :=
  match servePipes round turn.i turn.fds turn.request turn.client with
  | .error _ => false
  | .ok served =>
      match served.client.socket, served.client.cgiExecutor with
      | some socket, .live _ =>
          match serveRecv round turn.i turn.fds socket served.client with
          | (none, _) => true
          | (some _, client) =>
              match serveSend round turn.i turn.fds socket client with
              | .ok (none, _) => true
              | _ => socket ∈ turn.fds.except
      | _, _ => false

/-- The connection is closed while `cgi_executor` is not NULL. -/
def closesRunning (round : Round) (turn : Turn) : Bool :=
  turn.childFails round || turn.clientFails round

end Turn

def touchesReleased (cfg : Config) (server : Server) (round : Round) : Bool :=
  failsFreed (buildFdSets server.httpSockFd server.connectionList) ||
    failsFreed (highSock server.httpSockFd server.connectionList) ||
    (passTurns cfg server round).any (Turn.touchesReleased cfg round)

/-- No pass of the run closes a connection while its `cgi_executor` is not NULL. -/
def closesIdle (cfg : Config) (server : Server) (round : Round) : Bool :=
  (passTurns cfg server round).all fun turn => !turn.closesRunning round

def closedConnections (cfg : Config) : List Round → Server → List Nat
  | [], _ => []
  | round :: rest, server =>
      ((passTurns cfg server round).filter (Turn.closes cfg round)).map (·.client.conn) ++
        match serverStep cfg server round with
        | .error _ => []
        | .ok next => closedConnections cfg rest next

structure Tidy (slot : Peer) : Prop where
  free : slot.socket = none → Vacant slot ∧ slot.cgiExecutor = .null
  used : slot.socket ≠ none → Sound slot

theorem createPeer_tidy : Tidy createPeer :=
  ⟨fun _ => ⟨createPeer_vacant, rfl⟩, fun used => absurd rfl used⟩

section Sound

variable {cfg : Config} {slot : Peer} {t : Session} {event : PeerEvent}

theorem Sound.inv (sound : Sound slot) : ∃ task, slot.Inv task := (sound .null).1 rfl

theorem Sound.executor (sound : Sound slot) :
    slot.cgiExecutor = .null ∨ ∃ executor, slot.cgiExecutor = .live executor := by
  obtain ⟨task, inv⟩ := sound.inv
  obtain ⟨same, isSame, link⟩ := (sound .null).2.linked
  cases isSame.symm.trans inv.live
  cases child : slot.cgiExecutor with
  | null => exact .inl rfl
  | live executor => exact .inr ⟨executor, rfl⟩
  | freed =>
      have linked := inv.child
      rw [child] at linked
      exact absurd (link.mp (by simp [child])) linked

structure Steps (slot : Peer) (t : Session) : Prop where
  socket : t.peer.socket = slot.socket
  conn : t.peer.conn = slot.conn
  linked : Linked t.peer
  sound : t.closed = false → Sound t.peer

theorem StepCases.conn {s : Session} {task : HttpTask} (step : StepCases cfg s task event t) :
    t.peer.conn = s.peer.conn := by
  cases step with
  | deliver received => cases received <;> rfl
  | recv received => cases received <;> rfl
  | @call os code h called effect valid =>
      have same : h.peer.conn = s.peer.conn := effect.conn
      cases code <;> exact same
  | send sent => cases sent <;> rfl
  | toCgi child sent => cases sent <;> rfl
  | fromCgi child piped =>
      cases piped with
      | full => rfl
      | failed => rfl
      | ended live => rfl
      | piped taken puts =>
          obtain ⟨sendingBuffer, rfl⟩ := puts.frame
          rfl
  | noChild => rfl
  | others => rfl

theorem sessionRun_conn {events : List PeerEvent} {s : Session} (inv : s.Inv)
    (ran : sessionRun cfg events s = .ok t) : t.peer.conn = s.peer.conn := by
  have keeps {r after : Session} {task : HttpTask} {event : PeerEvent} (_ : r.closed = false)
      (_ : r.peer.Inv task) (same : r.peer.conn = s.peer.conn) (_ : True)
      (step : StepCases cfg r task event after) : after.peer.conn = s.peer.conn :=
    step.conn.trans same
  exact sessionRun_keeps (P := fun r => r.peer.conn = s.peer.conn) keeps inv rfl
    (fun _ _ => trivial) ran

theorem Sound.step {request : Ptr RequestCell} (sound : Sound slot)
    (stepped : sessionStep cfg ⟨request, slot, false⟩ event = .ok t) : Steps slot t := by
  obtain ⟨inv, ordered⟩ := sound request
  obtain ⟨task, valid⟩ := inv rfl
  have step := sessionStep_cases rfl valid stepped
  have after := step.ordered ordered rfl valid
  have still := sessionStep_inv inv stepped
  refine ⟨step.socket, step.conn, after.linked, fun isOpen other => ⟨fun _ => ?_, ?_⟩⟩
  · exact still isOpen
  · exact ⟨after.linked, after.sorted, fun _ => after.current isOpen⟩

theorem Steps.refl (sound : Sound slot) (request : Ptr RequestCell) :
    Steps slot ⟨request, slot, false⟩ :=
  ⟨rfl, rfl, (sound .null).2.linked, fun _ => sound⟩

theorem Steps.trans {s : Session} (first : Steps slot s) (second : Steps s.peer t) :
    Steps slot t :=
  ⟨second.socket.trans first.socket, second.conn.trans first.conn, second.linked, second.sound⟩

end Sound

section Service

variable {cfg : Config} {round : Round} {i socket : Nat} {fds : FdSets}
  {request : Ptr RequestCell} {client : Peer}

theorem hangUp_tidy (linked : Linked client) (vacant : client.cgiExecutor = .null) :
    ∃ slot, hangUp request client = .ok ⟨request, slot, true⟩ ∧ Tidy slot ∧ slot.socket = none := by
  obtain ⟨task, live, _⟩ := linked
  have closes : closeClientConnection client = .ok (closedSlot client) :=
    closeClientConnection_ok.mpr ⟨by simp [live], by simp [vacant], rfl⟩
  have child : (closedSlot client).cgiExecutor = .null := by
    change client.cgiExecutor.afterFree = .null
    rw [vacant, Ptr.afterFree]
  simp only [hangUp, closes]
  refine ⟨_, rfl, ⟨fun _ => ⟨⟨Cbuf.reset_inv _, rfl, Cbuf.reset_inv _, rfl, ?_⟩, child⟩, ?_⟩, rfl⟩
  · exact Ptr.afterFree_ne_live client.cgiExecutor
  · exact fun used => absurd rfl used

private theorem servePipeOut_steps (cfg : Config) {executor : CgiExecutor} (sound : Sound client)
    (child : client.cgiExecutor = .live executor)
    (calm : (executor.stdoutPipe.readEnd ∈ fds.read &&
      (pipeFromCgiProcessToClient client (round.fromCgi i) matches .ok (.failure, _))) = false) :
    ∃ next, servePipeOut round i fds request client = .ok ⟨request, next, false⟩ ∧
      Steps client ⟨request, next, false⟩ := by
  obtain ⟨task, inv⟩ := sound.inv
  simp only [servePipeOut, child, Ptr.deref]
  by_cases readable : executor.stdoutPipe.readEnd ∈ fds.read
  · obtain ⟨⟨status, next⟩, piped, _⟩ :=
      pipeFromCgiProcessToClient_piped inv.sending inv.live child (round.fromCgi i)
    have stepped : sessionStep cfg ⟨request, client, false⟩ (.fromCgi (round.fromCgi i)) =
        .ok ⟨request, next, status = .failure⟩ := by
      simp [sessionStep, withChild, child, piped]
    rw [if_pos readable]
    cases status with
    | failure => simp [readable, piped] at calm
    | success =>
        simp only [piped]
        exact ⟨next, rfl, sound.step stepped⟩
  · rw [if_neg readable]
    exact ⟨client, rfl, .refl sound request⟩

theorem servePipes_steps (cfg : Config) (sound : Sound client)
    (calm : Turn.childFails round ⟨fds, i, request, client⟩ = false) :
    ∃ next, servePipes round i fds request client = .ok ⟨request, next, false⟩ ∧
      Steps client ⟨request, next, false⟩ := by
  rcases sound.executor with vacant | ⟨executor, child⟩
  · exact ⟨client, by rw [servePipes, vacant], .refl sound request⟩
  · obtain ⟨task, inv⟩ := sound.inv
    have linked := inv.child
    rw [child] at linked
    simp only [Turn.childFails, child] at calm
    simp only [servePipes, child]
    by_cases writable : executor.stdinPipe.writeEnd ∈ fds.write
    · obtain ⟨⟨status, middle⟩, sent, cases⟩ :=
        sendToCgiProcess_sent linked.2.1 child (round.toCgi i)
      have stepped : sessionStep cfg ⟨request, client, false⟩ (.toCgi (round.toCgi i)) =
          .ok ⟨request, middle, status = .failure⟩ := by
        simp [sessionStep, withChild, child, sent]
      rw [if_pos writable] at calm ⊢
      simp only [sent] at calm ⊢
      cases status with
      | failure => cases calm
      | success =>
          have first := sound.step stepped
          have running : ∃ executor', middle.cgiExecutor = .live executor' ∧
              executor'.stdoutPipe = executor.stdoutPipe := by
            generalize round.toCgi i = answer at cases
            cases cases with
            | nothing empty => exact ⟨executor, child, rfl⟩
            | accepted count inv left => exact ⟨_, rfl, rfl⟩
          obtain ⟨executor', running, same⟩ := running
          rw [← same] at calm
          obtain ⟨next, ran, later⟩ := servePipeOut_steps cfg (first.sound rfl) running calm
          exact ⟨next, ran, first.trans later⟩
    · rw [if_neg writable] at calm ⊢
      exact servePipeOut_steps cfg sound child calm

theorem serveRecv_steps (cfg : Config) (sound : Sound client) {result : Option Bool} {next : Peer}
    (received : serveRecv round i fds socket client = (result, next)) :
    Steps client ⟨request, next, result.isNone⟩ ∧ next.cgiExecutor = client.cgiExecutor := by
  obtain ⟨task, inv⟩ := sound.inv
  have same (answer : RecvAnswer) : (receiveFromPeer client answer).2.cgiExecutor =
      client.cgiExecutor := by
    have received := receiveFromPeer_receives inv.receiving answer
    generalize (receiveFromPeer client answer).2 = after at received
    cases received <;> rfl
  unfold serveRecv at received
  split at received
  · have stepped : sessionStep cfg ⟨request, client, false⟩ (.recv (round.recv i)) =
        .ok ⟨request, (receiveFromPeer client (round.recv i)).2,
          (receiveFromPeer client (round.recv i)).1 = .failure⟩ := by
      simp [sessionStep]
    have still := same (round.recv i)
    cases ran : receiveFromPeer client (round.recv i) with
    | mk status after =>
        rw [ran] at stepped still
        simp only [ran] at received
        cases status with
        | success =>
            cases received
            exact ⟨sound.step stepped, still⟩
        | failure =>
            cases received
            exact ⟨sound.step stepped, still⟩
  · cases received
    exact ⟨.refl sound request, rfl⟩

theorem serveSend_steps (cfg : Config) (request : Ptr RequestCell) (sound : Sound client) :
    ∃ result next, serveSend round i fds socket client = .ok (result, next) ∧
      Steps client ⟨request, next, result.isNone⟩ ∧ next.cgiExecutor = client.cgiExecutor := by
  obtain ⟨task, inv⟩ := sound.inv
  unfold serveSend
  split
  · obtain ⟨⟨status, next⟩, sent, cases⟩ :=
      sendToPeer_sent inv.sending inv.live (round.send i)
    have stepped : sessionStep cfg ⟨request, client, false⟩ (.send (round.send i)) =
        .ok ⟨request, next, status = .failure⟩ := by
      simp [sessionStep, sent]
    have same : next.cgiExecutor = client.cgiExecutor := by
      generalize round.send i = answer at cases
      cases cases <;> rfl
    simp only [sent]
    cases status with
    | success => exact ⟨_, _, rfl, sound.step stepped, same⟩
    | failure => exact ⟨_, _, rfl, sound.step stepped, same⟩
    | nothingToSend => exact ⟨_, _, rfl, sound.step stepped, same⟩
  · exact ⟨_, _, rfl, .refl sound request, rfl⟩

theorem handleHttp_closes_idle {os : Os} {after : Ptr RequestCell} {next : Peer}
    (sound : Sound client)
    (called : handleHttp cfg os request client = .ok (.closeConnImmediately, after, next)) :
    next.cgiExecutor = .null := by
  obtain ⟨task, inv⟩ := sound.inv
  rcases handleHttp_cases inv.live called with ⟨_, other, _⟩ | ⟨notWaiting, last, _, shape, ran⟩
  · cases other
  · have vacant := sound.asserted inv.live notWaiting
    rw [shape]
    change last.peer.cgiExecutor = .null
    refine httpLoop_rule (P := fun h => h.peer.cgiExecutor = .null)
      (Q := fun code h => code = .closeConnImmediately → h.peer.cgiExecutor = .null) ?_ ?_ ?_
      ⟨inv.valid, inv.sending, inv.receiving⟩ vacant ran rfl
    · intro h next valid vacant result
      obtain ⟨events, moves⟩ := result.moves_again valid
      exact moves.executor.trans vacant
    · intro h code next valid vacant result closes
      rcases result.moves valid with ⟨events, moves⟩ | ⟨_, stopped, _⟩
      · exact moves.executor.trans vacant
      · rw [closes] at stopped
        cases last : h.task.lastRequest <;> simp [last] at stopped
    · intro h code next valid vacant _ done _
      rcases finishRequest_cases done with ⟨rfl, ⟨_, rfl⟩ | ⟨_, _, rfl⟩⟩
      · exact vacant
      · exact vacant

end Service

inductive Settles (cfg : Config) (round : Round) (turn : Turn) : Except Fault Served → Prop
  | idle (free : turn.client.socket = none) :
      Settles cfg round turn (.ok ⟨turn.request, turn.client, false⟩)
  | stays {request : Ptr RequestCell} {next : Peer} (used : turn.client.socket ≠ none)
      (steps : Steps turn.client ⟨request, next, false⟩) :
      Settles cfg round turn (.ok ⟨request, next, false⟩)
  | closes {request : Ptr RequestCell} {slot : Peer} (used : turn.client.socket ≠ none)
      (tidy : Tidy slot) (free : slot.socket = none) :
      Settles cfg round turn (.ok ⟨request, slot, true⟩)
  | fails {request : Ptr RequestCell} {client : Peer} {task : HttpTask} {fault : Fault}
      (calls : turn.calls round = some (request, client)) (live : client.httpTask = .live task)
      (failed : handleHttp cfg (round.os turn.i) request client = .error fault) :
      Settles cfg round turn (.error fault)

private theorem serveHttp_settles {cfg : Config} {round : Round} {turn : Turn}
    {request : Ptr RequestCell} {client : Peer} (used : turn.client.socket ≠ none)
    (sound : Sound client) (steps : Steps turn.client ⟨request, client, false⟩)
    (calls : turn.calls round = some (request, client)) :
    Settles cfg round turn (serveHttp cfg (round.os turn.i) request client) := by
  obtain ⟨task, inv⟩ := sound.inv
  unfold serveHttp
  cases called : handleHttp cfg (round.os turn.i) request client with
  | error fault => exact .fails calls inv.live called
  | ok answer =>
      obtain ⟨code, after, next⟩ := answer
      have stepped : sessionStep cfg ⟨request, client, false⟩ (.call (round.os turn.i)) =
          .ok (afterCall code after next) := by
        simp [sessionStep, called]
      have last := steps.trans (sound.step stepped)
      cases code with
      | closeConnImmediately =>
          obtain ⟨slot, ran, tidy, free⟩ := hangUp_tidy last.linked
            (show next.cgiExecutor = .null from handleHttp_closes_idle sound called)
          simp only [afterCall, if_true] at ran ⊢
          rw [ran]
          exact .closes used tidy free
      | closeConn => exact .stays used last
      | keepConn => exact .stays used last

theorem turn_settles {cfg : Config} {round : Round} {turn : Turn} (tidy : Tidy turn.client)
    (calm : turn.closesRunning round = false) :
    Settles cfg round turn (turn.served cfg round) := by
  obtain ⟨fds, i, request, client⟩ := turn
  simp only [Turn.closesRunning, Bool.or_eq_false_iff] at calm
  obtain ⟨calmChild, calmClient⟩ := calm
  unfold Turn.served serveClient
  cases socket : client.socket with
  | none =>
      have piped : servePipes round i fds request client = .ok ⟨request, client, false⟩ := by
        rw [servePipes, (tidy.free socket).2]
      simp only [piped, socket]
      exact .idle socket
  | some fd =>
      have used : client.socket ≠ none := by simp [socket]
      obtain ⟨first, piped, firstSteps⟩ := servePipes_steps cfg (tidy.used used) calmChild
      have firstSocket : first.socket = some fd := firstSteps.socket.trans socket
      have closing {request : Ptr RequestCell} {last : Peer} {closed : Bool}
          (steps : Steps client ⟨request, last, closed⟩) (vacant : last.cgiExecutor = .null) :
          Settles cfg round ⟨fds, i, request, client⟩ (hangUp request last) := by
        obtain ⟨slot, ran, slotTidy, free⟩ := hangUp_tidy steps.linked vacant
        rw [ran]
        exact .closes used slotTidy free
      simp only [Turn.clientFails, piped, firstSocket] at calmClient
      simp only [piped, firstSocket, serveSocket]
      have firstSound := firstSteps.sound rfl
      have idle (fails : ∀ executor, first.cgiExecutor ≠ .live executor) :
          first.cgiExecutor = .null := by
        rcases firstSound.executor with vacant | ⟨executor, child⟩
        · exact vacant
        · exact absurd child (fails executor)
      cases received : serveRecv round i fds fd first with
      | mk hasRead second =>
          obtain ⟨secondSteps, secondChild⟩ :
              Steps first ⟨request, second, hasRead.isNone⟩ ∧ _ :=
            serveRecv_steps cfg firstSound received
          have untilSecond := firstSteps.trans secondSteps
          cases hasRead with
          | none =>
              apply closing untilSecond
              rw [secondChild]
              exact idle fun executor child => by simp [child, received] at calmClient
          | some hasRead =>
              obtain ⟨hasSent, third, sent, thirdSteps, thirdChild⟩ :
                  ∃ result next, serveSend round i fds fd second = .ok (result, next) ∧ _ :=
                serveSend_steps cfg request (secondSteps.sound rfl)
              have untilThird := untilSecond.trans thirdSteps
              simp only [serveRest, sent]
              cases hasSent with
              | none =>
                  apply closing untilThird
                  rw [thirdChild, secondChild]
                  exact idle fun executor child => by simp [child, received, sent] at calmClient
              | some hasSent =>
                  by_cases except : fd ∈ fds.except
                  · simp only [if_pos except]
                    apply closing untilThird
                    rw [thirdChild, secondChild]
                    exact idle fun executor child => by
                      simp [child, received, sent, except] at calmClient
                  · simp only [if_neg except]
                    by_cases ready : (hasRead || hasSent) = true
                    · rw [if_pos ready]
                      apply serveHttp_settles used (untilThird.sound rfl) untilThird
                      simp [Turn.calls, piped, firstSocket, received, sent, except, ready]
                    · rw [if_neg ready]
                      exact .stays used untilThird

def openConnection (slot : Peer) : List Nat := if slot.socket.isSome then [slot.conn] else []

def openConnections (connectionList : List Peer) : List Nat := connectionList.flatMap openConnection

def closedIn (cfg : Config) (round : Round) (passed : List Turn) : List Nat :=
  (passed.filter (Turn.closes cfg round)).map (·.client.conn)

section Lists

variable {cfg : Config} {round : Round} {fds : FdSets}

private theorem Settles.untouched {turn : Turn}
    (settles : Settles cfg round turn (turn.served cfg round)) :
    turn.touchesReleased cfg round = false := by
  unfold Turn.touchesReleased
  generalize turn.served cfg round = result at settles
  cases settles with
  | idle free => rfl
  | stays used steps => rfl
  | closes used tidy free => rfl
  | fails calls live failed =>
      simp only [calls, live, failed]
      rename_i fault
      cases fault <;> rfl

theorem Settles.accounts {turn : Turn} {served : Served} (tidy : Tidy turn.client)
    (settles : Settles cfg round turn (.ok served)) :
    Tidy served.client ∧
      (if served.closed then [turn.client.conn] else []) ++ openConnection served.client =
        openConnection turn.client := by
  cases settles with
  | idle free => exact ⟨tidy, rfl⟩
  | @stays request next used steps =>
      have socket : next.socket = turn.client.socket := steps.socket
      have conn : next.conn = turn.client.conn := steps.conn
      refine ⟨⟨fun free => absurd (socket.symm.trans free) used, fun _ => steps.sound rfl⟩, ?_⟩
      simp [openConnection, socket, conn]
  | closes used slotTidy free =>
      refine ⟨slotTidy, ?_⟩
      simp [openConnection, free, Option.isSome_iff_ne_none.mpr used]

theorem turns_account {i : Nat} {request : Ptr RequestCell} {connectionList : List Peer}
    (tidy : ∀ slot ∈ connectionList, Tidy slot)
    (calm : (turns cfg round fds i request connectionList).all
      (fun turn => !turn.closesRunning round) = true) :
    (turns cfg round fds i request connectionList).any (Turn.touchesReleased cfg round) = false ∧
      ∃ left, (closedIn cfg round (turns cfg round fds i request connectionList) ++ left).Perm
          (openConnections connectionList) ∧
        ∀ after served closes,
          serveClients cfg round fds i request connectionList = .ok (after, served, closes) →
            (∀ slot ∈ served, Tidy slot) ∧ left = openConnections served := by
  induction connectionList generalizing i request with
  | nil =>
      refine ⟨rfl, [], List.Perm.refl _, fun after served closes ran => ?_⟩
      cases ran
      exact ⟨tidy, rfl⟩
  | cons client rest ih =>
      have mine := tidy client List.mem_cons_self
      have others : ∀ slot ∈ rest, Tidy slot := fun slot member =>
        tidy slot (List.mem_cons_of_mem client member)
      rw [turns, List.all_cons, Bool.and_eq_true] at calm
      obtain ⟨now, later⟩ := calm
      have settles : Settles cfg round ⟨fds, i, request, client⟩
          (Turn.served cfg round ⟨fds, i, request, client⟩) :=
        turn_settles mine (by simpa using now)
      have untouched := settles.untouched
      have ends : Turn.served cfg round ⟨fds, i, request, client⟩ =
        serveClient cfg round i fds request client := rfl
      rw [turns, List.any_cons, untouched, Bool.false_or, serveClients]
      cases first : serveClient cfg round i fds request client with
      | error fault =>
          have none : closedIn cfg round [⟨fds, i, request, client⟩] = [] := by
            simp [closedIn, Turn.closes, ends, first]
          refine ⟨rfl, openConnections (client :: rest), ?_, fun after served closes ran => ?_⟩
          · simp only [none]
            exact List.Perm.refl _
          · simp only at ran
            cases ran
      | ok served =>
          rw [ends, first] at settles
          obtain ⟨servedTidy, moved⟩ := settles.accounts mine
          simp only [first] at later ⊢
          obtain ⟨quiet, left, split, passed⟩ := ih others later
          refine ⟨quiet, openConnection served.client ++ left, ?_, ?_⟩
          · have head : closedIn cfg round (⟨fds, i, request, client⟩ ::
                turns cfg round fds (i + 1) served.request rest) =
                (if served.closed then [client.conn] else []) ++
                  closedIn cfg round (turns cfg round fds (i + 1) served.request rest) := by
              cases closed : served.closed <;>
                simp [closedIn, Turn.closes, ends, first, closed]
            have whole : openConnections (client :: rest) =
                (if served.closed then [client.conn] else []) ++
                  openConnection served.client ++ openConnections rest := by
              rw [moved]
              exact List.flatMap_cons
            rw [head, whole, List.append_assoc, List.append_assoc]
            apply List.Perm.append_left _
            rw [← List.append_assoc]
            apply (List.perm_append_comm.append_right left).trans
            rw [List.append_assoc]
            exact split.append_left _
          · intro after slots closes ran
            cases rested : serveClients cfg round fds (i + 1) served.request rest with
            | error fault =>
                simp only [rested] at ran
                cases ran
            | ok answer =>
                obtain ⟨last, others, count⟩ := answer
                simp only [rested] at ran
                cases ran
                obtain ⟨othersTidy, same⟩ := passed _ _ _ rested
                refine ⟨fun slot member => ?_, ?_⟩
                · rcases List.mem_cons.mp member with rfl | after
                  · exact servedTidy
                  · exact othersTidy slot after
                · rw [same]
                  exact List.flatMap_cons.symm

end Lists

section Passes

variable {cfg : Config} {round : Round} {server next : Server}

theorem acceptInto_tidy {slot : Peer} (vacant : Vacant slot) (noChild : slot.cgiExecutor = .null)
    (newClientSock : Nat) (clientAddr : Address) (conn : Nat) :
    Tidy (acceptInto slot newClientSock clientAddr conn) where
  free := nofun
  used := fun _ request => ⟨freshSession_inv vacant request newClientSock clientAddr conn,
    freshSession_ordered noChild request newClientSock clientAddr conn⟩

private theorem storeConnection_accounts (newClientSock : Nat) (clientAddr : Address) (conn : Nat)
    {connectionList : List Peer} (tidy : ∀ slot ∈ connectionList, Tidy slot) :
    let stored := storeConnection (fun slot => acceptInto slot newClientSock clientAddr conn)
      connectionList
    (∀ slot ∈ stored, Tidy slot) ∧ (stored = connectionList ∨
      (openConnections stored).Perm (conn :: openConnections connectionList)) := by
  induction connectionList with
  | nil => exact ⟨tidy, .inl rfl⟩
  | cons client rest ih =>
      have others : ∀ slot ∈ rest, Tidy slot := fun slot member =>
        tidy slot (List.mem_cons_of_mem client member)
      have mine := tidy client List.mem_cons_self
      rw [storeConnection]
      cases socket : client.socket with
      | none =>
          obtain ⟨vacant, noChild⟩ := mine.free socket
          simp only [Option.isNone_none, if_true]
          refine ⟨fun slot member => ?_, .inr ?_⟩
          · rcases List.mem_cons.mp member with rfl | after
            · exact acceptInto_tidy vacant noChild newClientSock clientAddr conn
            · exact others slot after
          · simp [openConnections, openConnection, acceptInto, socket]
      | some fd =>
          obtain ⟨storedTidy, stored⟩ := ih others
          simp only [Option.isNone_some, Bool.false_eq_true, if_false]
          refine ⟨fun slot member => ?_, ?_⟩
          · rcases List.mem_cons.mp member with rfl | after
            · exact mine
            · exact storedTidy slot after
          · rcases stored with same | perm
            · exact .inl (by rw [same])
            · refine .inr ?_
              simp only [openConnections, List.flatMap_cons, openConnection, socket,
                Option.isSome_some, if_true, List.singleton_append] at perm ⊢
              exact (perm.cons client.conn).trans (List.Perm.swap ..)

/-- What the books say after some passes: every slot is tidy, and no connection was closed twice
or closed and still open. -/
structure Accounts (past : List Nat) (server : Server) : Prop where
  tidy : ∀ slot ∈ server.connectionList, Tidy slot
  nodup : (past ++ openConnections server.connectionList).Nodup
  below : ∀ conn ∈ past ++ openConnections server.connectionList, conn < server.accepted

theorem handleNewConnection_listens (answer : Option (Nat × Address)) (server : Server) :
    (handleNewConnection answer server).httpSockFd = server.httpSockFd := by
  unfold handleNewConnection
  split <;> rfl

theorem handleNewConnection_accounts {past : List Nat} (answer : Option (Nat × Address))
    (accounts : Accounts past server) : Accounts past (handleNewConnection answer server) := by
  cases answer with
  | none => exact accounts
  | some connection =>
      obtain ⟨newClientSock, clientAddr⟩ := connection
      obtain ⟨tidy, stored⟩ := storeConnection_accounts newClientSock clientAddr server.accepted
        accounts.tidy
      have fresh : server.accepted ∉ past ++ openConnections server.connectionList :=
        fun member => absurd (accounts.below _ member) (Nat.lt_irrefl _)
      rcases stored with same | perm
      · refine ⟨tidy, ?_, fun conn member => ?_⟩
        · simp only [handleNewConnection, same]
          exact accounts.nodup
        · simp only [handleNewConnection, same] at member
          exact (accounts.below conn member).trans (Nat.lt_succ_self _)
      · have all := (perm.append_left past).trans List.perm_middle
        refine ⟨tidy, all.nodup_iff.mpr (List.nodup_cons.mpr ⟨fresh, accounts.nodup⟩), ?_⟩
        intro conn member
        rcases List.mem_cons.mp (all.subset member) with rfl | before
        · exact Nat.lt_succ_self _
        · exact (accounts.below conn before).trans (Nat.lt_succ_self _)

private theorem Tidy.executor {slot : Peer} (tidy : Tidy slot) :
    slot.cgiExecutor = .null ∨ ∃ executor, slot.cgiExecutor = .live executor := by
  cases socket : slot.socket with
  | none => exact .inl (tidy.free socket).2
  | some fd => exact (tidy.used (by simp [socket])).executor

theorem buildFdSets_found (listenSock : Nat) {connectionList : List Peer}
    (tidy : ∀ slot ∈ connectionList, Tidy slot) :
    ∃ sets, buildFdSets listenSock connectionList = .ok sets := by
  have found : ∃ fds, connectionList.mapM clientFds = .ok fds := by
    induction connectionList with
    | nil => exact ⟨[], rfl⟩
    | cons client rest ih =>
        obtain ⟨later, others⟩ := ih fun slot member => tidy slot (List.mem_cons_of_mem client member)
        have first : ∃ fds, clientFds client = .ok fds := by
          unfold clientFds
          cases client.socket with
          | none => exact ⟨_, rfl⟩
          | some socket =>
              rcases (tidy client List.mem_cons_self).executor with vacant | ⟨executor, child⟩
              · rw [vacant]
                exact ⟨_, rfl⟩
              · rw [child]
                exact ⟨_, rfl⟩
        obtain ⟨fds, first⟩ := first
        exact ⟨fds :: later, by rw [List.mapM_cons, first, ok_bind, others, ok_bind, pure_ok]⟩
  obtain ⟨fds, found⟩ := found
  exact ⟨_, by rw [buildFdSets, found, ok_bind, pure_ok]⟩

theorem highSock_found (high : Nat) {connectionList : List Peer}
    (tidy : ∀ slot ∈ connectionList, Tidy slot) :
    ∃ highest, highSock high connectionList = .ok highest := by
  induction connectionList generalizing high with
  | nil => exact ⟨high, rfl⟩
  | cons client rest ih =>
      have others : ∀ slot ∈ rest, Tidy slot := fun slot member =>
        tidy slot (List.mem_cons_of_mem client member)
      rw [highSock, List.foldlM_cons]
      rcases (tidy client List.mem_cons_self).executor with vacant | ⟨executor, child⟩
      · simp only [vacant, ok_bind]
        exact ih _ others
      · simp only [child, ok_bind]
        exact ih _ others

theorem serverStep_turns (cfg : Config) {sets : FdSets} {high : Nat}
    (built : buildFdSets server.httpSockFd server.connectionList = .ok sets)
    (found : highSock server.httpSockFd server.connectionList = .ok high)
    (stepped : serverStep cfg server round = .ok next) :
    ∃ accepting closes,
      ¬ (round.selects = false ∨ 0 ∈ (select round high sets).except ∨
        server.httpSockFd ∈ (select round high sets).except) ∧
      accepting = (if server.httpSockFd ∈ (select round high sets).read then
        handleNewConnection round.accept server else server) ∧
      passTurns cfg server round =
        turns cfg round (select round high sets) 0 accepting.request accepting.connectionList ∧
      next.accepted = accepting.accepted ∧
      serveClients cfg round (select round high sets) 0 accepting.request
        accepting.connectionList = .ok (next.request, next.connectionList, closes) := by
  rw [serverStep, built, ok_bind, found, ok_bind] at stepped
  rw [passTurns, built, found]
  split at stepped
  · cases stepped
  · next selects =>
      dsimp only at stepped ⊢
      generalize entered : (if server.httpSockFd ∈ (select round high sets).read then
        handleNewConnection round.accept server else server) = accepting at stepped ⊢
      have listens : accepting.httpSockFd = server.httpSockFd := by
        rw [← entered]
        split
        · exact handleNewConnection_listens round.accept server
        · rfl
      rw [listens] at stepped
      split at stepped
      · cases stepped
      · next goesOn =>
          rw [bind_ok] at stepped
          obtain ⟨⟨request, served, closes⟩, ran, same⟩ := stepped
          cases same
          have on := not_or.mpr ⟨selects, goesOn⟩
          exact ⟨accepting, closes, on, rfl, if_neg on, rfl, ran⟩

theorem pass_accounts {past : List Nat} (accounts : Accounts past server)
    (calm : closesIdle cfg server round = true) :
    touchesReleased cfg server round = false ∧
      (past ++ closedIn cfg round (passTurns cfg server round)).Nodup ∧
      (∀ next, serverStep cfg server round = .ok next →
        Accounts (past ++ closedIn cfg round (passTurns cfg server round)) next) := by
  obtain ⟨sets, built⟩ := buildFdSets_found server.httpSockFd accounts.tidy
  obtain ⟨high, found⟩ := highSock_found server.httpSockFd accounts.tidy
  have unmoved : (past ++ []).Nodup := by
    rw [List.append_nil]
    exact (List.nodup_append.mp accounts.nodup).1
  unfold touchesReleased
  unfold closesIdle at calm
  rw [built, found]
  have served (next : Server) (stepped : serverStep cfg server round = .ok next) :=
    serverStep_turns cfg built found stepped
  simp only [passTurns, built, found] at calm ⊢
  generalize select round high sets = fds at calm served ⊢
  have accepted : Accounts past (if server.httpSockFd ∈ fds.read then
      handleNewConnection round.accept server else server) := by
    split
    · exact handleNewConnection_accounts round.accept accounts
    · exact accounts
  generalize (if server.httpSockFd ∈ fds.read then
    handleNewConnection round.accept server else server) = accepting at accepted calm served ⊢
  by_cases stops : round.selects = false ∨ 0 ∈ fds.except ∨ server.httpSockFd ∈ fds.except
  · rw [if_pos stops]
    refine ⟨rfl, unmoved, fun next stepped => ?_⟩
    obtain ⟨_, _, on, _⟩ := served next stepped
    exact absurd stops on
  · rw [if_neg stops] at calm ⊢
    obtain ⟨quiet, left, split, passed⟩ := turns_account accepted.tidy calm
    have all := split.append_left past
    rw [← List.append_assoc] at all
    have nodup := all.nodup_iff.mpr accepted.nodup
    refine ⟨quiet, (List.nodup_append.mp nodup).1, fun next stepped => ?_⟩
    obtain ⟨_, closes, _, rfl, _, same, ran⟩ := served next stepped
    obtain ⟨tidy, rfl⟩ := passed _ _ _ ran
    refine ⟨tidy, nodup, fun conn member => ?_⟩
    rw [same]
    exact accepted.below conn (all.subset member)

end Passes

theorem initServer_accounts (httpSockFd : Nat) : Accounts [] (initServer httpSockFd) := by
  have unused : ∀ slot ∈ (initServer httpSockFd).connectionList, slot = createPeer :=
    fun slot member => List.eq_of_mem_replicate member
  have none : openConnections (initServer httpSockFd).connectionList = [] := by
    refine List.flatMap_eq_nil_iff.mpr fun slot member => ?_
    rw [unused slot member]
    rfl
  constructor
  · intro slot member
    rw [unused slot member]
    exact createPeer_tidy
  · rw [none]
    exact List.nodup_nil
  · rw [none]
    exact List.forall_mem_nil _

private theorem run_accounts {cfg : Config} {rounds : List Round} {past : List Nat}
    {server : Server} (accounts : Accounts past server)
    (idle : Run.guarded (serverStep cfg) (closesIdle cfg) rounds server = true) :
    (past ++ closedConnections cfg rounds server).Nodup ∧
      ∀ front round back reached, rounds = front ++ round :: back →
        serverRun cfg front server = .ok reached →
        touchesReleased cfg reached round = false := by
  induction rounds generalizing past server with
  | nil =>
      refine ⟨?_, fun front round back reached split => ?_⟩
      · rw [closedConnections, List.append_nil]
        exact (List.nodup_append.mp accounts.nodup).1
      · cases front <;> cases split
  | cons round rest ih =>
      obtain ⟨now, later⟩ := Run.guarded_cons idle
      obtain ⟨quiet, nodup, passed⟩ := pass_accounts accounts now
      have step (next : Server) (stepped : serverStep cfg server round = .ok next) :=
        ih (passed next stepped) (later next stepped)
      constructor
      · rw [closedConnections]
        change (past ++ (closedIn cfg round (passTurns cfg server round) ++ _)).Nodup
        cases stepped : serverStep cfg server round with
        | error fault => rwa [List.append_nil]
        | ok next =>
            rw [← List.append_assoc]
            exact (step next stepped).1
      · intro front other back reached split ran
        cases front with
        | nil =>
            cases split
            cases ran
            exact quiet
        | cons first front =>
            cases split
            obtain ⟨next, stepped, ran⟩ := Run.run_cons_ok.mp ran
            exact (step next stepped).2 front other back reached rfl ran

/-- In every run in which no connection is closed while its `cgi_executor` is not NULL, each
connection is closed at most once, and no pass touches what a closed connection left behind. -/
theorem closed_once_untouched (cfg : Config) (httpSockFd : Nat) (rounds : List Round)
    (idle : Run.guarded (serverStep cfg) (closesIdle cfg) rounds (initServer httpSockFd) = true) :
    (closedConnections cfg rounds (initServer httpSockFd)).Nodup ∧
      ∀ front round back server, rounds = front ++ round :: back →
        serverRun cfg front (initServer httpSockFd) = .ok server →
        touchesReleased cfg server round = false := by
  have all := run_accounts (initServer_accounts httpSockFd) idle
  exact all

def closedForHeader : List Round :=
  [readRound 3 (some (5, ⟨str "1.2.3.4", 80⟩)) .wouldBlock,
   readRound 5 none (.bytes 0x42 (str "AD\r\n\r\n")),
   readRound 3 (some (5, ⟨str "1.2.3.4", 81⟩)) .wouldBlock]

theorem closed_once_untouched_header :
    (closedConnections sampleConfig closedForHeader (initServer 3)).Nodup ∧
      ∃ server, serverRun sampleConfig closedForHeader (initServer 3) = .ok server ∧
        touchesReleased sampleConfig server (readRound 5 none .shutdown) = false := by
  have idle : Run.guarded (serverStep sampleConfig) (closesIdle sampleConfig)
      (closedForHeader ++ [readRound 5 none .shutdown]) (initServer 3) = true := by
    decide +kernel
  have same : closedConnections sampleConfig closedForHeader (initServer 3) = [0] := by
    decide +kernel
  have goesOn : (serverRun sampleConfig closedForHeader (initServer 3)).isOk = true := by
    decide +kernel
  have all := closed_once_untouched sampleConfig 3 _ idle
  cases ran : serverRun sampleConfig closedForHeader (initServer 3) with
  | error fault =>
      rw [ran] at goesOn
      cases goesOn
  | ok server =>
      refine ⟨by simp [same], server, rfl, ?_⟩
      exact all.2 closedForHeader _ [] server rfl ran

def writeFails : Round where
  selects := true
  readable _ := false
  writable fd := fd = 9
  exceptional _ := false
  accept := none
  toCgi _ := .error
  fromCgi _ := none
  recv _ := .wouldBlock
  send _ := .wouldBlock
  os _ := sampleOs true

def childStarted : List Round :=
  [readRound 3 (some (5, ⟨str "1.2.3.4", 80⟩)) .wouldBlock,
   readRound 5 none (.bytes 0x50 (str "OST /cgi/x HTTP/1.1\r\nContent-Length: 1\r\n\r\nx"))]

/-- The executor is looked at again in the pass that frees it, or in the next pass. -/
theorem released_touched :
    (∃ server, serverRun sampleConfig childStarted (initServer 3) = .ok server ∧
      touchesReleased sampleConfig server writeFails = true) ∧
    ∃ server, serverRun sampleConfig closedWhileRunning (initServer 3) = .ok server ∧
      touchesReleased sampleConfig server (readRound 3 none .wouldBlock) = true := by
  have inPass : (serverRun sampleConfig childStarted (initServer 3)).map
      (touchesReleased sampleConfig · writeFails) = .ok true := by decide +kernel
  have later : (serverRun sampleConfig closedWhileRunning (initServer 3)).map
      (touchesReleased sampleConfig · (readRound 3 none .wouldBlock)) = .ok true := by
    decide +kernel
  constructor
  · cases ran : serverRun sampleConfig childStarted (initServer 3) with
    | error fault =>
        rw [ran] at inPass
        cases inPass
    | ok server =>
        rw [ran] at inPass
        exact ⟨server, rfl, Except.ok.inj inPass⟩
  · cases ran : serverRun sampleConfig closedWhileRunning (initServer 3) with
    | error fault =>
        rw [ran] at later
        cases later
    | ok server =>
        rw [ran] at later
        exact ⟨server, rfl, Except.ok.inj later⟩

end Liso
