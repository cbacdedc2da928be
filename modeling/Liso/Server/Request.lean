import Liso.Server.Session

/-! The one global `request`, seen from one connection: which steps look at it, which
change it, and whose it is while a request is underway. -/

namespace Liso

def PeerEvent.own : PeerEvent → Bool
  | .others _ => false
  | _ => true

def headerComplete (task : HttpTask) (peer : Peer) : Bool :=
  match Matcher.cutAfter terminator
      (task.parseBuf.read task.parseBufIdx ++ peer.receivingBuffer.content) with
  | some (block, _) => block.length ≤ bufDataMaxsize
  | none => false

namespace Session

def takes (s : Session) (event : PeerEvent) : Bool :=
  match s.closed, event, s.peer.httpTask with
  | false, .call _, .live task => task.state = .recvHeader && headerComplete task s.peer
  | _, _, _ => false

/-- The header of a request was taken, and the request is not finished. -/
def underway (s : Session) : Bool :=
  match s.closed, s.peer.httpTask with
  | false, .live task => task.state ≠ .recvHeader
  | _, _ => false

end Session

structure Through (cfg : Config) (s : Session) (event : PeerEvent) : Prop where
  same : ∀ request, sessionStep cfg { s with request } event =
    (sessionStep cfg s event).map fun t => { t with request }
  idle : ∀ t, sessionStep cfg s event = .ok t → t.underway = false

private theorem recvHeaderState_request (cfg : Config) {task : HttpTask} {peer : Peer}
    {start : Ptr RequestCell} (inv : Handling.Inv ⟨start, task, peer⟩)
    (state : task.state = .recvHeader) :
    (∃ code next left, (code ≠ .closeConnImmediately → next.state = .recvHeader) ∧
      ∀ request, recvHeaderState cfg ⟨request, task, peer⟩ =
        .ok (.returns code ⟨request, next, left⟩)) ∨
    headerComplete task peer = true ∧ ∀ request,
      recvHeaderState cfg ⟨request, task, peer⟩ = recvHeaderState cfg ⟨start, task, peer⟩ := by
  obtain ⟨text, status, next, left, scanning, fresh, ran, read⟩ := inv.headerRead state
  cases status with
  | emptyRecvBuf =>
      refine .inl ⟨.keepConn, next, { peer with receivingBuffer := left }, fun _ => ?_, ?_⟩
      · cases read
        exact state
      · intro request
        rw [recvHeaderState, if_neg fresh]
        simp only [ran]
  | parserBufOverflow =>
      refine .inl ⟨.closeConnImmediately, next, { peer with receivingBuffer := left }, ?_, ?_⟩
      · exact fun other => absurd rfl other
      · intro request
        rw [recvHeaderState, if_neg fresh]
        simp only [ran]
  | ready =>
      refine .inr ⟨?_, fun request => ?_⟩
      · cases read with
        | ready size block whole cut short left =>
            rw [headerComplete, scanning.read, whole, cut]
            exact decide_eq_true short
      · simp only [recvHeaderState, if_neg fresh, ran]

section Request

variable {cfg : Config} {s : Session} {task : HttpTask}

theorem sessionStep_call (cfg : Config) (os : Os) (s : Session) (isOpen : s.closed = false)
    (live : s.peer.httpTask = .live task) (notWaiting : task.state ≠ .processingCgi)
    (more : task.state ≠ .finished) :
    sessionStep cfg s (.call os) =
      match httpPass cfg os ⟨s.request, task, s.peer⟩ with
      | .error fault => .error fault
      | .ok (.returns code h) =>
          .ok (afterCall code h.request { h.peer with httpTask := .live h.task })
      | .ok (.again h) =>
          match httpLoop cfg os 6 h with
          | none => .error .diverges
          | some (.error fault) => .error fault
          | some (.ok (code, h)) =>
              .ok (afterCall code h.request { h.peer with httpTask := .live h.task }) := by
  have first : httpLoop cfg os 7 ⟨s.request, task, s.peer⟩ =
      match httpPass cfg os ⟨s.request, task, s.peer⟩ with
      | .error fault => some (.error fault)
      | .ok (.returns code h) => some (.ok (code, h))
      | .ok (.again h) => httpLoop cfg os 6 h := if_neg more
  unfold sessionStep handleHttp
  rw [if_neg (by simp [isOpen])]
  simp only [live, first]
  rw [if_neg notWaiting]
  cases httpPass cfg os ⟨s.request, task, s.peer⟩ with
  | error fault => rfl
  | ok pass =>
      cases pass with
      | returns code h => rfl
      | again h =>
          simp only
          cases httpLoop cfg os 6 h with
          | none => rfl
          | some result => cases result <;> rfl

private theorem call_header (cfg : Config) (s : Session) {os : Os} (isOpen : s.closed = false)
    (live : s.peer.httpTask = .live task) (state : task.state = .recvHeader) :
    sessionStep cfg s (.call os) =
      match recvHeaderState cfg ⟨s.request, task, s.peer⟩ with
      | .error fault => .error fault
      | .ok (.returns code h) =>
          .ok (afterCall code h.request { h.peer with httpTask := .live h.task })
      | .ok (.again h) =>
          match httpLoop cfg os 6 h with
          | none => .error .diverges
          | some (.error fault) => .error fault
          | some (.ok (code, h)) =>
              .ok (afterCall code h.request { h.peer with httpTask := .live h.task }) := by
  have pass : httpPass cfg os ⟨s.request, task, s.peer⟩ =
      recvHeaderState cfg ⟨s.request, task, s.peer⟩ := by
    unfold httpPass
    simp only [state]
  rw [sessionStep_call cfg os s isOpen live (by simp [state]) (by simp [state]), pass]

private theorem underway_after {t : Session} (live : t.peer.httpTask = .live task)
    (state : t.closed = false → task.state = .recvHeader) : t.underway = false := by
  unfold Session.underway
  rw [live]
  cases isOpen : t.closed with
  | true => rfl
  | false => simp [state isOpen]

private theorem call_request {os : Os} (isOpen : s.closed = false) (inv : s.peer.Inv task)
    (state : task.state = .recvHeader) :
    Through cfg s (.call os) ∨ s.takes (.call os) = true ∧ ∀ request,
      sessionStep cfg { s with request } (.call os) = sessionStep cfg s (.call os) := by
  have start : Handling.Inv ⟨s.request, task, s.peer⟩ := ⟨inv.valid, inv.sending, inv.receiving⟩
  rcases recvHeaderState_request cfg start state with
    ⟨code, next, left, stays, same⟩ | ⟨complete, same⟩
  · have stepped (request : Ptr RequestCell) :
        sessionStep cfg { s with request } (.call os) =
          .ok (afterCall code request { left with httpTask := .live next }) := by
      rw [call_header cfg { s with request } isOpen inv.live state, same]
    refine .inl ⟨fun request => ?_, fun t here => ?_⟩
    · rw [stepped request, stepped s.request]
      cases code <;> rfl
    · cases (stepped s.request).symm.trans here
      have after : (afterCall code s.request { left with httpTask := .live next }).peer.httpTask =
          .live next := by cases code <;> rfl
      refine underway_after after fun isOpen => stays ?_
      rintro rfl
      cases isOpen
  · refine .inr ⟨?_, fun request => ?_⟩
    · simp [Session.takes, isOpen, inv.live, state, complete]
    · rw [call_header cfg { s with request } isOpen inv.live state,
        call_header cfg s isOpen inv.live state, same]

private theorem step_through (cfg : Config) (s : Session) {event : PeerEvent}
    (own : event.own = true) (noCall : ∀ os, event ≠ .call os) (request : Ptr RequestCell) :
    sessionStep cfg { s with request } event =
      (sessionStep cfg s event).map fun t => { t with request } := by
  have child (act : Except Fault (ExitStatus × Peer)) :
      withChild { s with request } act = (withChild s act).map fun t => { t with request } := by
    unfold withChild
    cases s.peer.cgiExecutor with
    | null => rfl
    | freed => rfl
    | live executor => cases act <;> rfl
  unfold sessionStep
  obtain ⟨current, peer, closed⟩ := s
  cases closed with
  | true => rfl
  | false =>
      cases event with
      | deliver piece => rfl
      | recv answer => rfl
      | call os => exact absurd rfl (noCall os)
      | send answer =>
          simp only [Bool.false_eq_true, if_false]
          cases sendToPeer peer answer <;> rfl
      | toCgi answer => exact child _
      | fromCgi answer => exact child _
      | others request => cases own

private theorem step_idle {t : Session} {event : PeerEvent} (own : event.own = true)
    (noCall : ∀ os, event ≠ .call os) (inv : s.peer.Inv task) (state : task.state = .recvHeader)
    (step : StepCases cfg s task event t) (idle : s.underway = false) : t.underway = false := by
  have noChild (executor : CgiExecutor) : s.peer.cgiExecutor ≠ .live executor :=
    inv.child.idle (by simp [state]) executor
  cases step with
  | deliver received =>
      exact underway_after (received.httpTask.trans inv.live) fun _ => state
  | recv received => exact underway_after (received.httpTask.trans inv.live) fun _ => state
  | call => exact absurd rfl (noCall _)
  | send sent => cases sent <;> exact underway_after inv.live fun _ => state
  | toCgi child sent => exact absurd child (noChild _)
  | fromCgi child piped => exact absurd child (noChild _)
  | noChild => exact idle
  | others => cases own

theorem sessionStep_request {event : PeerEvent} (valid : s.Inv) (own : event.own = true)
    (idle : s.underway = false) : Through cfg s event ∨ s.takes event = true ∧ ∀ request,
      sessionStep cfg { s with request } event = sessionStep cfg s event := by
  by_cases closed : s.closed = true
  · refine .inl ⟨fun request => ?_, fun t stepped => ?_⟩
    · have still : ({ s with request } : Session).closed = true := closed
      rw [sessionStep_closed still, sessionStep_closed closed]
      rfl
    · rw [sessionStep_closed closed] at stepped
      cases stepped
      exact idle
  · have isOpen : s.closed = false := by simpa using closed
    obtain ⟨task, inv⟩ := valid isOpen
    have state : task.state = .recvHeader := by
      simpa [Session.underway, isOpen, inv.live] using idle
    by_cases call : ∃ os, event = .call os
    · obtain ⟨os, rfl⟩ := call
      exact call_request isOpen inv state
    · rw [not_exists] at call
      refine .inl ⟨step_through cfg s own call, fun t stepped => ?_⟩
      exact step_idle own call inv state (sessionStep_cases isOpen inv stepped) idle

end Request

/-- A request that is underway is there for the task to come back to: the latest one parsed for
this connection. -/
def OwnRequest (conn : Nat) (request : Ptr RequestCell) (task : HttpTask) : Prop :=
  task.state ≠ .recvHeader →
    ∃ cell, request = .live cell ∧ cell.conn = conn ∧ cell.req = task.requests

section Own

variable {cfg : Config} {os : Os} {h next : Handling}

private theorem OwnRequest.keeps {conn : Nat} {request : Ptr RequestCell} {task after : HttpTask}
    (own : OwnRequest conn request task) (state : task.state ≠ .recvHeader)
    (same : after.requests = task.requests) : OwnRequest conn request after := by
  intro _
  rw [same]
  exact own state

theorem PassCases.own {pass : Pass} (own : OwnRequest h.peer.conn h.request h.task)
    (result : PassCases cfg os h pass) (stays : ∀ next, pass ≠ .returns .closeConnImmediately next) :
    OwnRequest h.peer.conn pass.handling.request pass.handling.task := by
  cases result with
  | headerShort state scanning read =>
      cases read
      exact fun other => absurd state other
  | headerLong => exact absurd rfl (stays _)
  | headerBad => exact absurd rfl (stays _)
  | headerGood state scanning read whole good took =>
      cases read
      exact fun _ => ⟨_, rfl, rfl, took.requests.symm⟩
  | bodyShort state part read =>
      cases read
      exact own.keeps (by simp [state]) rfl
  | bodyWhole state part read =>
      cases read
      exact own.keeps (by simp [state]) rfl
  | generated state written => exact own.keeps (by simp [state]) written.requests
  | headSent state sent =>
      obtain ⟨responseBuf, rfl, _⟩ := sent.left
      exact own.keeps (by simp [state]) rfl
  | cgiStarted state live cgi started => exact own.keeps (by simp [state]) rfl
  | staticHead state live static method found =>
      obtain ⟨cell, isLive, conn, req⟩ := own (by simp [state])
      cases live.symm.trans isLive
      refine fun _ => ⟨_, rfl, conn, req.trans ?_⟩
      cases found with
      | missing => rfl
      | unopened path present written => exact written.requests.symm
      | opened path present written => exact written.requests.symm
  | staticPost state live static post => exact own.keeps (by simp [state]) rfl
  | fileWaits state opened streamed => exact own.keeps (by simp [state]) rfl
  | fileFails => exact absurd rfl (stays _)
  | fileDone state opened streamed => exact own.keeps (by simp [state]) rfl

theorem httpLoop_own {conn fuel : Nat} {code : Code} (inv : h.Inv) (same : h.peer.conn = conn)
    (own : OwnRequest conn h.request h.task)
    (ran : httpLoop cfg os fuel h = some (.ok (code, next)))
    (stays : code ≠ .closeConnImmediately) : OwnRequest conn next.request next.task := by
  revert stays
  refine httpLoop_rule (P := fun h => h.peer.conn = conn ∧ OwnRequest conn h.request h.task)
    (Q := fun code h => code ≠ .closeConnImmediately → OwnRequest conn h.request h.task)
    ?_ ?_ ?_ inv ⟨same, own⟩ ran
  · rintro h next valid ⟨rfl, own⟩ result
    obtain ⟨events, moves⟩ := result.moves_again valid
    exact ⟨moves.conn, result.own own fun _ => Pass.noConfusion⟩
  · rintro h code next valid ⟨rfl, own⟩ result stays
    apply result.own own
    rintro _ ⟨⟩
    exact stays rfl
  · intro h code next valid _ state done _
    rcases finishRequest_cases done with ⟨rfl, ⟨_, rfl⟩ | ⟨_, _, rfl⟩⟩
    · exact fun other => absurd rfl other
    · exact fun other => absurd rfl other

end Own

structure Session.Owns (conn : Nat) (s : Session) : Prop where
  number : s.peer.conn = conn
  own : s.closed = false → ∀ task, s.peer.httpTask = .live task → OwnRequest conn s.request task

section Steps

variable {cfg : Config} {s t : Session} {task : HttpTask} {event : PeerEvent} {conn : Nat}

private theorem Session.Owns.keeps {peer : Peer} {closed : Bool} (owns : s.Owns conn)
    (isOpen : s.closed = false) (same : peer.conn = s.peer.conn)
    (kept : peer.httpTask = s.peer.httpTask) :
    Session.Owns conn ⟨s.request, peer, closed⟩ where
  number := same.trans owns.number
  own := fun _ task live => owns.own isOpen task (kept.symm.trans live)

theorem StepCases.owns (own : event.own = true) (isOpen : s.closed = false)
    (inv : s.peer.Inv task) (owns : s.Owns conn) (step : StepCases cfg s task event t) :
    t.Owns conn := by
  cases step with
  | deliver received => cases received <;> exact owns.keeps isOpen rfl rfl
  | recv received => cases received <;> exact owns.keeps isOpen rfl rfl
  | @call os code h called effect valid =>
      have before := owns.own isOpen task inv.live
      have number : h.peer.conn = conn := effect.conn.trans owns.number
      have after : code ≠ .closeConnImmediately → OwnRequest conn h.request h.task := by
        intro stays
        rcases handleHttp_cases inv.live called with
          ⟨waiting, _, same, peer⟩ | ⟨notWaiting, next, same, peer, ran⟩
        · have live := congrArg Peer.httpTask peer
          rw [inv.live] at live
          cases live
          rwa [same]
        · have start : Handling.Inv ⟨s.request, task, s.peer⟩ :=
            ⟨inv.valid, inv.sending, inv.receiving⟩
          have live := congrArg Peer.httpTask peer
          simp only [Ptr.live.injEq] at live
          rw [same, live]
          exact httpLoop_own start owns.number before ran stays
      cases code with
      | closeConnImmediately => exact ⟨number, nofun⟩
      | closeConn =>
          refine ⟨number, ?_⟩
          rintro _ _ ⟨⟩
          exact after nofun
      | keepConn =>
          refine ⟨number, ?_⟩
          rintro _ _ ⟨⟩
          exact after nofun
  | send sent => cases sent <;> exact owns.keeps isOpen rfl rfl
  | toCgi child sent => cases sent <;> exact owns.keeps isOpen rfl rfl
  | fromCgi child piped =>
      cases piped with
      | full => exact owns.keeps isOpen rfl rfl
      | failed => exact owns.keeps isOpen rfl rfl
      | ended live =>
          cases live.symm.trans inv.live
          have running := inv.child
          rw [child] at running
          have before := owns.own isOpen task inv.live
          refine ⟨owns.number, ?_⟩
          rintro _ _ ⟨⟩
          exact before.keeps (by simp [running.1]) rfl
      | piped taken puts =>
          obtain ⟨sendingBuffer, rfl⟩ := puts.frame
          exact owns.keeps isOpen rfl rfl
  | noChild => exact owns
  | others => cases own

theorem sessionStep_owns (own : event.own = true) (valid : s.Inv) (owns : s.Owns conn)
    (stepped : sessionStep cfg s event = .ok t) : t.Owns conn := by
  cases isOpen : s.closed with
  | true =>
      rw [sessionStep_closed isOpen] at stepped
      cases stepped
      exact owns
  | false =>
      obtain ⟨task, inv⟩ := valid isOpen
      exact (sessionStep_cases isOpen inv stepped).owns own isOpen inv owns

end Steps

section Agreement

variable {cfg : Config} {s t : Session} {event : PeerEvent}

theorem sessionStep_agrees {request : Ptr RequestCell} (valid : s.Inv) (own : event.own = true)
    (same : s.underway = true → request = s.request) :
    (∀ fault, sessionStep cfg s event = .error fault →
      sessionStep cfg { s with request } event = .error fault) ∧
    ∀ t, sessionStep cfg s event = .ok t → ∃ after,
      sessionStep cfg { s with request } event = .ok { t with request := after } ∧
        (t.underway = true → after = t.request) := by
  by_cases underway : s.underway = true
  · cases same underway
    exact ⟨fun _ failed => failed, fun t stepped => ⟨t.request, stepped, fun _ => rfl⟩⟩
  · rcases sessionStep_request valid own (by simpa using underway) with
      through | ⟨_, independent⟩
    · refine ⟨fun fault failed => ?_, fun t stepped => ⟨request, ?_, ?_⟩⟩
      · rw [through.same, failed]
        rfl
      · rw [through.same, stepped]
        rfl
      · rw [through.idle t stepped]
        exact nofun
    · refine ⟨fun fault failed => ?_, fun t stepped => ⟨t.request, ?_, fun _ => rfl⟩⟩
      · rw [independent, failed]
      · rw [independent, stepped]

theorem sessionStep_quiet (valid : s.Inv) (own : event.own = true) (idle : s.underway = false)
    (noTake : s.takes event = false) (stepped : sessionStep cfg s event = .ok t) :
    t.request = s.request ∧ t.underway = false := by
  rcases sessionStep_request valid own idle with through | ⟨taken, _⟩
  · refine ⟨?_, through.idle t stepped⟩
    have still := through.same s.request
    rw [stepped] at still
    have whole : t = { t with request := s.request } := Except.ok.inj still
    have same := congrArg Session.request whole
    exact same
  · cases noTake.symm.trans taken

end Agreement

end Liso
