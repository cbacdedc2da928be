import Liso.Http.Effect
import Liso.Lib.Run
import Liso.Message.Transfer

/-! One connection at a time: what the server loop does with a peer, in any
order, until it closes the connection. -/

namespace Liso

/-- One thing that happens to a connection. -/
inductive PeerEvent
  /-- Bytes are written to the receiving buffer, if they fit. -/
  | deliver (piece : Bytes)
  /-- `receive_from_peer` is called and `recv` answers. -/
  | recv (answer : RecvAnswer)
  /-- `handle_http` is called. -/
  | call (os : Os)
  /-- `send_to_peer` is called and `send` answers. -/
  | send (answer : WriteAnswer)
  /-- `send_to_CGI_process` is called, if there is a child, and `write` answers. -/
  | toCgi (answer : WriteAnswer)
  /-- `pipe_from_CGI_process_to_client` is called, if there is a child, and `read` answers. -/
  | fromCgi (answer : Option Bytes)
  /-- The calls made for other peers leave the global `request` like this. -/
  | others (request : Ptr RequestCell)

/-- The global `request`, a peer, and whether the caller has been told to close the
connection. -/
structure Session where
  request : Ptr RequestCell
  peer : Peer
  closed : Bool

def deliver (peer : Peer) (piece : Bytes) : Peer :=
  match bufWrite peer.receivingBuffer piece with
  | (ret, receivingBuffer) =>
      if ret ≥ 0 then { peer with receivingBuffer }.record [.received piece]
      else { peer with receivingBuffer }

def afterCall (code : Code) (request : Ptr RequestCell) (peer : Peer) : Session :=
  let peer := peer.record [.returned code]
  match code with
  | .closeConnImmediately => ⟨request, peer, true⟩
  | .closeConn => ⟨request, { peer with closeConn := true }, false⟩
  | .keepConn => ⟨request, peer, false⟩

/-- The caller reads the descriptors of a child first, and does nothing when there is none. -/
def withChild (s : Session) (act : Except Fault (ExitStatus × Peer)) : Except Fault Session :=
  match s.peer.cgiExecutor with
  | .null => .ok s
  | .freed => .error .freed
  | .live _ =>
      match act with
      | .error fault => .error fault
      | .ok (status, peer) => .ok { s with peer, closed := status = .failure }

def sessionStep (cfg : Config) (s : Session) (event : PeerEvent) : Except Fault Session :=
  if s.closed then .ok s
  else
    match event with
    | .deliver piece => .ok { s with peer := deliver s.peer piece }
    | .recv answer =>
        match receiveFromPeer s.peer answer with
        | (status, peer) => .ok { s with peer, closed := status = .failure }
    | .call os =>
        match handleHttp cfg os s.request s.peer with
        | .error fault => .error fault
        | .ok (code, request, peer) => .ok (afterCall code request peer)
    | .send answer =>
        match sendToPeer s.peer answer with
        | .error fault => .error fault
        | .ok (status, peer) => .ok { s with peer, closed := status = .failure }
    | .toCgi answer => withChild s (sendToCgiProcess s.peer answer)
    | .fromCgi answer => withChild s (pipeFromCgiProcessToClient s.peer answer)
    | .others request => .ok { s with request }

def sessionRun (cfg : Config) (events : List PeerEvent) (s : Session) : Except Fault Session :=
  Run.run (sessionStep cfg) events s

/-- A slot whose buffers are empty and that has no child: never used, or closed and free again. -/
structure Vacant (slot : Peer) : Prop where
  sending : slot.sendingBuffer.Inv
  nothingToSend : slot.sendingBuffer.content = []
  receiving : slot.receivingBuffer.Inv
  nothingReceived : slot.receivingBuffer.content = []
  idle : Idle slot.cgiExecutor

theorem createPeer_vacant : Vacant createPeer :=
  ⟨Cbuf.reset_inv _, rfl, Cbuf.reset_inv _, rfl, nofun⟩

def freshSession (request : Ptr RequestCell) (slot : Peer) (newClientSock : Nat)
    (clientAddr : Address) (conn : Nat) : Session :=
  ⟨request, acceptInto slot newClientSock clientAddr conn, false⟩

def sampleStart : Session := freshSession .null createPeer 5 ⟨str "1.2.3.4", 80⟩ 0

theorem deliver_fits {peer : Peer} (receiving : peer.receivingBuffer.Inv) {piece : Bytes}
    (fits : peer.receivingBuffer.content.length + piece.length ≤ bufDataMaxsize) :
    ∃ receivingBuffer,
      deliver peer piece = { peer with receivingBuffer }.record [.received piece] ∧
      receivingBuffer.Inv ∧
      receivingBuffer.content = peer.receivingBuffer.content ++ piece := by
  obtain ⟨next, wrote, inv, content⟩ := receiving.write_fits piece fits
  have counted : (piece.length : Int) ≥ 0 := Int.natCast_nonneg _
  refine ⟨next, ?_, inv, content⟩
  simp only [deliver, wrote, if_pos counted]

theorem deliver_receives {peer : Peer} (receiving : peer.receivingBuffer.Inv) (piece : Bytes) :
    Receives peer (deliver peer piece) := by
  by_cases fits : peer.receivingBuffer.content.length + piece.length ≤ bufDataMaxsize
  · obtain ⟨next, delivered, inv, content⟩ := deliver_fits receiving fits
    rw [delivered]
    exact .bytes inv content
  · have excess := receiving.write_over piece (by omega)
    have failed : ¬ (-1 : Int) ≥ 0 := by decide
    simp only [deliver, excess, if_neg failed]
    exact .nothing

inductive StepCases (cfg : Config) (s : Session) (task : HttpTask) : PeerEvent → Session → Prop
  | deliver {piece : Bytes} {peer : Peer} (received : Receives s.peer peer) :
      StepCases cfg s task (.deliver piece) { s with peer }
  | recv {answer : RecvAnswer} {peer : Peer} {closed : Bool} (received : Receives s.peer peer) :
      StepCases cfg s task (.recv answer) { s with peer, closed }
  | call {os : Os} {code : Code} {h : Handling}
      (called : handleHttp cfg os s.request s.peer =
        .ok (code, h.request, { h.peer with httpTask := .live h.task }))
      (effect : CallEffect ⟨s.request, task, s.peer⟩ h)
      (inv : code ≠ .closeConnImmediately →
        ({ h.peer with httpTask := .live h.task } : Peer).Inv h.task) :
      StepCases cfg s task (.call os)
        (afterCall code h.request { h.peer with httpTask := .live h.task })
  | send {answer : WriteAnswer} {status : SendStatus} {peer : Peer}
      (sent : SendCases s.peer answer (status, peer)) :
      StepCases cfg s task (.send answer) { s with peer, closed := status = .failure }
  | toCgi {answer : WriteAnswer} {executor : CgiExecutor} {status : ExitStatus} {peer : Peer}
      (child : s.peer.cgiExecutor = .live executor)
      (sent : ToCgiCases s.peer executor answer (status, peer)) :
      StepCases cfg s task (.toCgi answer) { s with peer, closed := status = .failure }
  | fromCgi {answer : Option Bytes} {executor : CgiExecutor} {status : ExitStatus} {peer : Peer}
      (child : s.peer.cgiExecutor = .live executor)
      (piped : FromCgiCases s.peer executor answer (status, peer)) :
      StepCases cfg s task (.fromCgi answer) { s with peer, closed := status = .failure }
  | noChild {event : PeerEvent} : StepCases cfg s task event s
  | others {request : Ptr RequestCell} : StepCases cfg s task (.others request) { s with request }

theorem sessionStep_cases {cfg : Config} {s t : Session} {task : HttpTask} {event : PeerEvent}
    (isOpen : s.closed = false) (inv : s.peer.Inv task)
    (stepped : sessionStep cfg s event = .ok t) : StepCases cfg s task event t := by
  unfold sessionStep at stepped
  rw [if_neg (by simp [isOpen])] at stepped
  cases event with
  | deliver piece =>
      cases stepped
      exact .deliver (deliver_receives inv.receiving piece)
  | recv answer =>
      have received := receiveFromPeer_receives inv.receiving answer
      cases stepped
      exact .recv received
  | call os =>
      cases called : handleHttp cfg os s.request s.peer with
      | error fault =>
          simp only [called] at stepped
          cases stepped
      | ok result =>
          obtain ⟨code, after, next⟩ := result
          simp only [called] at stepped
          cases stepped
          obtain ⟨h, rfl, rfl, effect, valid⟩ := handleHttp_effect inv called
          exact .call called effect valid
  | send answer =>
      obtain ⟨⟨status, peer⟩, ran, sent⟩ := sendToPeer_sent inv.sending inv.live answer
      simp only [ran] at stepped
      cases stepped
      exact .send sent
  | toCgi answer =>
      dsimp only [withChild] at stepped
      cases child : s.peer.cgiExecutor with
      | null =>
          simp only [child] at stepped
          cases stepped
          exact .noChild
      | freed =>
          simp only [child] at stepped
          cases stepped
      | live executor =>
          have linked := inv.child
          rw [child] at linked
          obtain ⟨⟨status, peer⟩, ran, sent⟩ := sendToCgiProcess_sent linked.2.1 child answer
          simp only [child, ran] at stepped
          cases stepped
          exact .toCgi child sent
  | fromCgi answer =>
      dsimp only [withChild] at stepped
      cases child : s.peer.cgiExecutor with
      | null =>
          simp only [child] at stepped
          cases stepped
          exact .noChild
      | freed =>
          simp only [child] at stepped
          cases stepped
      | live executor =>
          obtain ⟨⟨status, peer⟩, ran, piped⟩ :=
            pipeFromCgiProcessToClient_piped inv.sending inv.live child answer
          simp only [child, ran] at stepped
          cases stepped
          exact .fromCgi child piped
  | others request =>
      cases stepped
      exact .others

theorem sessionStep_closed {cfg : Config} {s : Session} {event : PeerEvent}
    (closed : s.closed = true) : sessionStep cfg s event = .ok s := by
  unfold sessionStep
  rw [if_pos closed]

def Session.Inv (s : Session) : Prop := s.closed = false → ∃ task, s.peer.Inv task

private theorem Peer.Inv.frame {p q : Peer} {task : HttpTask} (inv : p.Inv task)
    (live : q.httpTask = p.httpTask) (child : q.cgiExecutor = p.cgiExecutor)
    (sending : q.sendingBuffer.Inv) (receiving : q.receivingBuffer.Inv) : q.Inv task :=
  ⟨live.trans inv.live, inv.valid, inv.resting, child ▸ inv.child, sending, receiving⟩

theorem Receives.inv {p q : Peer} {task : HttpTask} (inv : p.Inv task)
    (received : Receives p q) : q.Inv task := by
  cases received with
  | nothing => exact inv
  | bytes bufInv content => exact inv.frame rfl rfl inv.sending bufInv

theorem StepCases.inv {cfg : Config} {s t : Session} {task : HttpTask} {event : PeerEvent}
    (inv : s.peer.Inv task) (step : StepCases cfg s task event t) : t.Inv := by
  cases step with
  | deliver received => exact fun _ => ⟨task, received.inv inv⟩
  | recv received => exact fun _ => ⟨task, received.inv inv⟩
  | @call os code h called effect valid =>
      intro isOpen
      cases code with
      | closeConnImmediately => cases isOpen
      | closeConn =>
          have after := valid nofun
          exact ⟨h.task, after.frame rfl rfl after.sending after.receiving⟩
      | keepConn =>
          have after := valid nofun
          exact ⟨h.task, after.frame rfl rfl after.sending after.receiving⟩
  | send sent =>
      intro isOpen
      cases sent with
      | nothing empty => exact ⟨task, inv⟩
      | accepted count answered bufInv left =>
          exact ⟨task, inv.frame rfl rfl bufInv inv.receiving⟩
      | failed bufInv => cases isOpen
  | toCgi child sent =>
      intro isOpen
      cases sent with
      | nothing empty => exact ⟨task, inv⟩
      | accepted count bufInv left =>
          have linked := inv.child
          rw [child] at linked
          refine ⟨task, inv.live, inv.valid, inv.resting, ?_, inv.sending, inv.receiving⟩
          refine ⟨linked.1, ?_, linked.2.2⟩
          rintro _ ⟨⟩
          exact bufInv
      | failed bufInv refused => cases isOpen
  | fromCgi child piped =>
      intro isOpen
      cases piped with
      | full => exact ⟨task, inv⟩
      | failed => cases isOpen
      | ended live =>
          cases live.symm.trans inv.live
          refine ⟨_, rfl, ?_, trivial, nofun, inv.sending, inv.receiving⟩
          exact ⟨inv.valid.response, inv.valid.parseSize, inv.valid.tags, trivial⟩
      | piped taken puts =>
          have sending := puts.inv
          obtain ⟨sendingBuffer, rfl⟩ := puts.frame
          exact ⟨task, inv.frame rfl rfl sending inv.receiving⟩
  | noChild => exact fun _ => ⟨task, inv⟩
  | others => exact fun _ => ⟨task, inv⟩

theorem sessionStep_inv {cfg : Config} {s t : Session} {event : PeerEvent} (inv : s.Inv)
    (stepped : sessionStep cfg s event = .ok t) : t.Inv := by
  cases isOpen : s.closed with
  | true =>
      rw [sessionStep_closed isOpen] at stepped
      cases stepped
      exact inv
  | false =>
      obtain ⟨task, valid⟩ := inv isOpen
      exact (sessionStep_cases isOpen valid stepped).inv valid

theorem createHttpTask_inv : createHttpTask.Inv := resetHttpTask_inv rfl

theorem freshSession_inv {slot : Peer} (vacant : Vacant slot) (request : Ptr RequestCell)
    (newClientSock : Nat) (clientAddr : Address) (conn : Nat) :
    (freshSession request slot newClientSock clientAddr conn).Inv := by
  intro _
  exact ⟨createHttpTask, rfl, createHttpTask_inv, trivial, vacant.idle.childOf nofun,
    vacant.sending, vacant.receiving⟩

theorem sessionRun_inv {cfg : Config} {events : List PeerEvent} {s t : Session} (inv : s.Inv)
    (ran : sessionRun cfg events s = .ok t) : t.Inv :=
  Run.run_invariant (fun _ _ _ kept _ stepped => sessionStep_inv kept stepped) inv
    (fun _ _ => trivial) ran

theorem sessionRun_keeps {cfg : Config} {P : Session → Prop} {permit : PeerEvent → Prop}
    (keeps : ∀ {s t : Session} {task : HttpTask} {event : PeerEvent}, s.closed = false →
      s.peer.Inv task → P s → permit event → StepCases cfg s task event t → P t)
    {events : List PeerEvent} {s t : Session} (inv : s.Inv) (start : P s)
    (permitted : ∀ event ∈ events, permit event) (ran : sessionRun cfg events s = .ok t) :
    P t := by
  have step (s : Session) (event : PeerEvent) (t : Session) (kept : s.Inv ∧ P s)
      (permitted : permit event) (stepped : sessionStep cfg s event = .ok t) : t.Inv ∧ P t := by
    refine ⟨sessionStep_inv kept.1 stepped, ?_⟩
    cases isOpen : s.closed with
    | true =>
        rw [sessionStep_closed isOpen] at stepped
        cases stepped
        exact kept.2
    | false =>
        obtain ⟨task, valid⟩ := kept.1 isOpen
        exact keeps isOpen valid kept.2 permitted (sessionStep_cases isOpen valid stepped)
  exact (Run.run_invariant step ⟨inv, start⟩ permitted ran).2

end Liso
