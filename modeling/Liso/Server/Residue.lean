import Liso.Http.Alike
import Liso.Server.Order
import Liso.Server.Checks

/-! A request late on a connection against the same request on a fresh one: what
the earlier requests leave behind in the task and the buffers does not show. -/

namespace Liso

/-- `send_to_peer` only takes bytes off the sending buffer, when and as many as the client lets. -/
def PeerEvent.drains : PeerEvent → Bool
  | .send _ => true
  | _ => false

/-- The sending buffer takes all that the step puts, no send closes the connection, and no other
connection is served. -/
def Session.undisturbed (cfg : Config) (s : Session) (event : PeerEvent) : Bool :=
  s.closed ||
    match event with
    | .call os =>
        match s.peer.httpTask with
        | .live task =>
            task.state = .processingCgi || callRoom cfg os 7 ⟨s.request, task, s.peer⟩
        | _ => true
    | .send answer => (sessionStep cfg s (.send answer)).toOption.any fun t => !t.closed
    | .fromCgi answer =>
        !bufFull s.peer.sendingBuffer &&
          (answer.getD []).length ≤ bufAvailable s.peer.sendingBuffer
    | .others _ => false
    | _ => true

/-- The step needs no more bytes of the client than there are, and gets none. -/
def Session.contents (cfg : Config) (s : Session) (event : PeerEvent) : Bool :=
  s.closed ||
    match event with
    | .deliver _ => false
    | .recv _ => false
    | .call os =>
        match s.peer.httpTask with
        | .live task => !callWaits cfg os 7 ⟨s.request, task, s.peer⟩
        | _ => true
    | _ => true

/-- Both connections are closed, or they look alike to the next call. -/
structure Twins (extra : Bytes) (s t : Session) : Prop where
  inv : s.Inv
  invToo : t.Inv
  closed : t.closed = s.closed
  alike : s.closed = false → ∃ a b, s.peer.httpTask = .live a ∧ t.peer.httpTask = .live b ∧
    Alike extra ⟨s.request, a, s.peer⟩ ⟨t.request, b, t.peer⟩

def ShownAlike (extra : Bytes) (p q : Peer) (s t : Session) : Prop :=
  Twins extra s t ∧ ShowSame p s.peer q t.peer

structure Open (extra : Bytes) (s t : Session) (a b : HttpTask) : Prop where
  isOpen : s.closed = false
  isOpenToo : t.closed = false
  inv : s.peer.Inv a
  invToo : t.peer.Inv b
  alike : Alike extra ⟨s.request, a, s.peer⟩ ⟨t.request, b, t.peer⟩

section Steps

variable {cfg : Config} {extra : Bytes} {s t : Session} {a b : HttpTask}

theorem Twins.open_cases (twins : Twins extra s t) (isOpen : s.closed = false) :
    ∃ a b, Open extra s t a b := by
  obtain ⟨a, b, live, liveToo, alike⟩ := twins.alike isOpen
  have isOpenToo := twins.closed.trans isOpen
  obtain ⟨task, inv⟩ := twins.inv isOpen
  obtain ⟨other, invToo⟩ := twins.invToo isOpenToo
  cases live.symm.trans inv.live
  cases liveToo.symm.trans invToo.live
  exact ⟨a, b, isOpen, isOpenToo, inv, invToo, alike⟩

structure Moved (extra : Bytes) (s t s' t' : Session) : Prop where
  closed : t'.closed = s'.closed
  alike : s'.closed = false → ∃ a b, s'.peer.httpTask = .live a ∧ t'.peer.httpTask = .live b ∧
    Alike extra ⟨s'.request, a, s'.peer⟩ ⟨t'.request, b, t'.peer⟩
  same : ShowSame s.peer s'.peer t.peer t'.peer

private theorem Open.unchanged (twins : Open extra s t a b) {closed closedToo : Bool}
    (ends : closedToo = closed) : Moved extra s t { s with closed } { t with closed := closedToo } :=
  ⟨ends, fun _ => ⟨a, b, twins.inv.live, twins.invToo.live, twins.alike⟩, .quiet rfl rfl⟩

private theorem Open.received (twins : Open [] s t a b) (piece : Bytes)
    (fits : s.peer.receivingBuffer.content.length + piece.length ≤ bufDataMaxsize) :
    ∃ buf bufToo, bufWrite s.peer.receivingBuffer piece = ((piece.length : Int), buf) ∧
      bufWrite t.peer.receivingBuffer piece = ((piece.length : Int), bufToo) ∧
      ∀ closed closedToo : Bool, closedToo = closed → Moved [] s t
        { s with peer := { s.peer with receivingBuffer := buf }.record [.received piece], closed }
        { t with
          peer := { t.peer with receivingBuffer := bufToo }.record [.received piece]
          closed := closedToo } := by
  have alike := twins.alike
  have content := alike.receiving
  simp only [List.append_nil] at content
  obtain ⟨buf, wrote, _, left⟩ := twins.inv.receiving.write_fits piece fits
  obtain ⟨bufToo, wroteToo, _, leftToo⟩ :=
    twins.invToo.receiving.write_fits piece (by rw [content]; exact fits)
  refine ⟨buf, bufToo, wrote, wroteToo, fun closed closedToo ends => ⟨ends, fun _ => ?_, ?_⟩⟩
  · refine ⟨a, b, twins.inv.live, twins.invToo.live, alike.task, ?_, alike.addres, alike.request,
      alike.child⟩
    change bufToo.content = buf.content ++ []
    rw [left, leftToo, content, List.append_nil]
  · exact ⟨_, _, rfl, rfl, rfl⟩

private theorem deliver_moved (twins : Open [] s t a b) (piece : Bytes) :
    Moved [] s t { s with peer := deliver s.peer piece } { t with peer := deliver t.peer piece } := by
  have ends : t.closed = s.closed := twins.isOpenToo.trans twins.isOpen.symm
  have content := twins.alike.receiving
  simp only [List.append_nil] at content
  by_cases fits : s.peer.receivingBuffer.content.length + piece.length ≤ bufDataMaxsize
  · obtain ⟨buf, bufToo, wrote, wroteToo, moved⟩ := twins.received piece fits
    have counted : (piece.length : Int) ≥ 0 := Int.natCast_nonneg _
    simp only [deliver, wrote, wroteToo, if_pos counted]
    exact moved s.closed t.closed ends
  · have failed : ¬ (-1 : Int) ≥ 0 := by decide
    have excess := twins.inv.receiving.write_over piece (by omega)
    have excessToo := twins.invToo.receiving.write_over piece (by rw [content]; omega)
    simp only [deliver, excess, excessToo, if_neg failed]
    exact twins.unchanged ends

private theorem receiveFromPeer_moved (twins : Open [] s t a b) (answer : RecvAnswer) :
    ∃ status peer peerToo, receiveFromPeer s.peer answer = (status, peer) ∧
      receiveFromPeer t.peer answer = (status, peerToo) ∧
      ∀ closed, Moved [] s t { s with peer, closed } { t with peer := peerToo, closed } := by
  have content := twins.alike.receiving
  simp only [List.append_nil] at content
  have available : bufAvailable t.peer.receivingBuffer = bufAvailable s.peer.receivingBuffer := by
    rw [twins.inv.receiving.available_content, twins.invToo.receiving.available_content, content]
  cases answer with
  | wouldBlock =>
      have full : bufFull t.peer.receivingBuffer = bufFull s.peer.receivingBuffer := by
        rw [bufFull, bufFull, available]
      simp only [receiveFromPeer, full]
      by_cases noRoom : bufFull s.peer.receivingBuffer = true
      · simp only [if_pos noRoom]
        exact ⟨_, _, _, rfl, rfl, fun _ => twins.unchanged rfl⟩
      · simp only [if_neg noRoom]
        exact ⟨_, _, _, rfl, rfl, fun _ => twins.unchanged rfl⟩
  | error => exact ⟨_, _, _, rfl, rfl, fun _ => twins.unchanged rfl⟩
  | shutdown => exact ⟨_, _, _, rfl, rfl, fun _ => twins.unchanged rfl⟩
  | bytes first more =>
      simp only [receiveFromPeer, available]
      generalize taken : (first :: more).take (bufAvailable s.peer.receivingBuffer) = data
      cases data with
      | nil => exact ⟨_, _, _, rfl, rfl, fun _ => twins.unchanged rfl⟩
      | cons c rest =>
          have fits : s.peer.receivingBuffer.content.length + (c :: rest).length ≤
              bufDataMaxsize := by
            have bound := twins.inv.receiving.content_fits
            rw [← taken, List.length_take, twins.inv.receiving.available_content]
            omega
          obtain ⟨buf, bufToo, wrote, wroteToo, moved⟩ := twins.received (c :: rest) fits
          simp only [wrote, wroteToo]
          split
          · exact ⟨_, _, _, rfl, rfl, fun _ => moved _ _ rfl⟩
          · exact ⟨_, _, _, rfl, rfl, fun _ => moved _ _ rfl⟩

private theorem afterCall_moved (code : Code) {g h : Handling}
    (alike : code ≠ .closeConnImmediately → Alike extra g h)
    (same : ShowSame s.peer g.peer t.peer h.peer) :
    Moved extra s t
      (afterCall code g.request { g.peer with httpTask := .live g.task })
      (afterCall code h.request { h.peer with httpTask := .live h.task }) := by
  have told : ShowSame s.peer ({ g.peer with httpTask := .live g.task }.record [.returned code])
      t.peer ({ h.peer with httpTask := .live h.task }.record [.returned code]) :=
    same.trans ⟨_, _, rfl, rfl, rfl⟩
  have after (stays : code ≠ .closeConnImmediately) (peer peerToo : Peer) 
      (frame : ∃ closeConn trace, peer = { g.peer with httpTask := .live g.task, closeConn, trace })
      (frameToo : ∃ closeConn trace,
        peerToo = { h.peer with httpTask := .live h.task, closeConn, trace }) :
      ∃ a b, peer.httpTask = .live a ∧ peerToo.httpTask = .live b ∧
        Alike extra ⟨g.request, a, peer⟩ ⟨h.request, b, peerToo⟩ := by
    obtain ⟨_, _, rfl⟩ := frame
    obtain ⟨_, _, rfl⟩ := frameToo
    have alike := alike stays
    exact ⟨_, _, rfl, rfl, alike.task, alike.receiving, alike.addres, alike.request, alike.child⟩
  cases code with
  | closeConnImmediately => exact ⟨rfl, nofun, told⟩
  | closeConn => exact ⟨rfl, fun _ => after nofun _ _ ⟨_, _, rfl⟩ ⟨_, _, rfl⟩, told⟩
  | keepConn => exact ⟨rfl, fun _ => after nofun _ _ ⟨_, _, rfl⟩ ⟨_, _, rfl⟩, told⟩

private theorem handleHttp_moved (twins : Open extra s t a b) (os : Os)
    (enough : extra = [] ∨ callWaits cfg os 7 ⟨s.request, a, s.peer⟩ = false)
    (room : a.state ≠ .processingCgi → callRoom cfg os 7 ⟨s.request, a, s.peer⟩ = true)
    (roomToo : b.state ≠ .processingCgi → callRoom cfg os 7 ⟨t.request, b, t.peer⟩ = true) :
    (∃ fault, sessionStep cfg s (.call os) = .error fault ∧
      sessionStep cfg t (.call os) = .error fault) ∨
    ∃ s' t', sessionStep cfg s (.call os) = .ok s' ∧ sessionStep cfg t (.call os) = .ok t' ∧
      Moved extra s t s' t' := by
  have state : b.state = a.state := twins.alike.task.state
  simp only [sessionStep, twins.isOpen, twins.isOpenToo, handleHttp, twins.inv.live,
    twins.invToo.live, state, Bool.false_eq_true, if_false]
  by_cases waiting : a.state = .processingCgi
  · simp only [if_pos waiting]
    have called := afterCall_moved .keepConn (fun _ => twins.alike)
      (.quiet rfl rfl : ShowSame s.peer s.peer t.peer t.peer)
    have kept : ({ s.peer with httpTask := .live a } : Peer) = s.peer := by rw [← twins.inv.live]
    have keptToo : ({ t.peer with httpTask := .live b } : Peer) = t.peer := by
      rw [← twins.invToo.live]
    dsimp only at called
    rw [kept, keptToo] at called
    exact .inr ⟨_, _, rfl, rfl, called⟩
  · simp only [if_neg waiting]
    have called : SameCall extra ⟨s.request, a, s.peer⟩ ⟨t.request, b, t.peer⟩
        (httpLoop cfg os 7 ⟨s.request, a, s.peer⟩) (httpLoop cfg os 7 ⟨t.request, b, t.peer⟩) :=
      httpLoop_together ⟨twins.inv.valid, twins.inv.sending, twins.inv.receiving⟩
        ⟨twins.invToo.valid, twins.invToo.sending, twins.invToo.receiving⟩ twins.alike enough
        (room waiting) (roomToo (state ▸ waiting))
    generalize httpLoop cfg os 7 ⟨s.request, a, s.peer⟩ = answer at called
    generalize httpLoop cfg os 7 ⟨t.request, b, t.peer⟩ = answerToo at called
    cases called with
    | diverges => exact .inl ⟨_, rfl, rfl⟩
    | fails => exact .inl ⟨_, rfl, rfl⟩
    | returns alike same => exact .inr ⟨_, _, rfl, rfl, afterCall_moved _ alike same⟩

private theorem sendToCgiProcess_nothing {client : Peer} {executor : CgiExecutor}
    (inv : executor.Inv) (live : client.cgiExecutor = .live executor) (empty : executor.pending = [])
    (answer : WriteAnswer) : sendToCgiProcess client answer = .ok (.success, client) := by
  unfold sendToCgiProcess
  rw [live]
  simp only [Ptr.deref, ok_bind]
  cases buffer : executor.cgiBuffer with
  | none => rfl
  | some cgiBuf =>
      rw [CgiExecutor.pending, buffer] at empty
      simp only [if_pos ((inv cgiBuf buffer).refines.empty_iff.mpr empty)]
      rfl

private theorem sendToCgiProcess_moved (twins : Open extra s t a b) {executor other : CgiExecutor}
    (live : s.peer.cgiExecutor = .live executor) (liveToo : t.peer.cgiExecutor = .live other)
    (answer : WriteAnswer) :
    ∃ status peer peerToo, sendToCgiProcess s.peer answer = .ok (status, peer) ∧
      sendToCgiProcess t.peer answer = .ok (status, peerToo) ∧
      Moved extra s t { s with peer, closed := status = .failure }
        { t with peer := peerToo, closed := status = .failure } := by
  have inv : executor.Inv := by
    have child := twins.inv.child
    rw [live] at child
    exact child.2.1
  have invToo : other.Inv := by
    have child := twins.invToo.child
    rw [liveToo] at child
    exact child.2.1
  have alike := twins.alike
  have pending : other.pending = executor.pending := by
    have child := alike.child
    simp only [live, liveToo] at child
    cases child with
    | live pending => exact pending
  by_cases empty : executor.pending = []
  · exact ⟨_, _, _, sendToCgiProcess_nothing inv live empty answer,
      sendToCgiProcess_nothing invToo liveToo (pending.trans empty) answer,
      twins.unchanged rfl⟩
  · obtain ⟨⟨status, peer⟩, ran, sent⟩ := sendToCgiProcess_sent inv live answer
    obtain ⟨⟨statusToo, peerToo⟩, ranToo, sentToo⟩ := sendToCgiProcess_sent invToo liveToo answer
    have fed {executor other : CgiExecutor} {events eventsToo : List Event}
        (left : other.pending = executor.pending) (silent : Trace.shown events = [])
        (silentToo : Trace.shown eventsToo = []) (closed : Bool) :
        Moved extra s t
          { s with peer := { s.peer with cgiExecutor := .live executor }.record events, closed }
          { t with peer := { t.peer with cgiExecutor := .live other }.record eventsToo, closed } :=
      ⟨rfl, fun _ => ⟨a, b, twins.inv.live, twins.invToo.live, alike.task, alike.receiving,
        alike.addres, alike.request, .live left⟩, ⟨_, _, rfl, rfl, silentToo.trans silent.symm⟩⟩
    refine ⟨status, peer, peerToo, ran, ?_⟩
    cases sent with
    | nothing none => exact absurd none empty
    | accepted count bufInv left =>
        cases sentToo with
        | nothing none => exact absurd (pending.symm.trans none) empty
        | accepted _ bufInvToo leftToo =>
            refine ⟨ranToo, fed ?_ rfl rfl _⟩
            exact leftToo.trans ((congrArg (List.drop count) pending).trans left.symm)
        | failed bufInvToo refused => exact absurd rfl (refused count)
    | failed bufInv refused =>
        cases sentToo with
        | nothing none => exact absurd (pending.symm.trans none) empty
        | accepted count => exact absurd rfl (refused count)
        | failed bufInvToo refusedToo =>
            exact ⟨ranToo, rfl, nofun, .quiet rfl rfl⟩

private theorem pipeFromCgi_moved (twins : Open extra s t a b) {executor other : CgiExecutor}
    (live : s.peer.cgiExecutor = .live executor) (liveToo : t.peer.cgiExecutor = .live other)
    (answer : Option Bytes) (free : bufFull s.peer.sendingBuffer = false)
    (freeToo : bufFull t.peer.sendingBuffer = false)
    (room : (answer.getD []).length ≤ bufAvailable s.peer.sendingBuffer)
    (roomToo : (answer.getD []).length ≤ bufAvailable t.peer.sendingBuffer) :
    ∃ status peer peerToo, pipeFromCgiProcessToClient s.peer answer = .ok (status, peer) ∧
      pipeFromCgiProcessToClient t.peer answer = .ok (status, peerToo) ∧
      Moved extra s t { s with peer, closed := status = .failure }
        { t with peer := peerToo, closed := status = .failure } := by
  have alike := twins.alike
  unfold pipeFromCgiProcessToClient
  rw [if_neg (by simp [free]), if_neg (by simp [freeToo])]
  match answer with
  | none => exact ⟨_, _, _, rfl, rfl, twins.unchanged rfl⟩
  | some [] =>
      simp only [twins.inv.live, twins.invToo.live, live, liveToo, Ptr.deref, freeCgiExecutor,
        ok_bind, pure_ok]
      refine ⟨_, _, _, rfl, rfl, rfl, fun _ => ⟨_, _, rfl, rfl, ?_⟩, ⟨_, _, rfl, rfl, rfl⟩⟩
      obtain ⟨_, method, last, code, length, response⟩ := alike.task.toSameFields
      refine ⟨⟨⟨rfl, method, last, code, length, response⟩, by simp, by simp, by simp, ?_⟩,
        alike.receiving, alike.addres, fun _ => alike.request ?_, .null⟩
      · rintro (impossible | ⟨impossible, _⟩) <;> cases impossible
      · have child := twins.inv.child
        rw [live] at child
        simp [child.1]
  | some (first :: more) =>
      simp only [Option.getD_some] at room roomToo
      simp only [List.take_of_length_le room, List.take_of_length_le roomToo]
      have puts {p : Peer} (sending : p.sendingBuffer.Inv)
          (room : (first :: more).length ≤ bufAvailable p.sendingBuffer) (req : Nat) :
          Puts (p.record [.cgiRead (first :: more)]) ((first :: more).map (⟨·, req⟩))
            (((first :: more).map (⟨·, req⟩)).foldl Peer.put
              (p.record [.cgiRead (first :: more)])) := by
        have inv : (p.record [.cgiRead (first :: more)]).sendingBuffer.Inv := sending
        apply Puts.fold inv _
        have fits := sending.content_fits
        rw [sending.available_content] at room
        rw [List.length_map]
        change p.sendingBuffer.content.length + _ ≤ _
        omega
      have putsS := puts twins.inv.sending room (executorReq s.peer)
      have putsT := puts twins.invToo.sending roomToo (executorReq t.peer)
      have same : ShowSame s.peer _ t.peer _ :=
        ShowSame.trans ⟨_, _, rfl, rfl, rfl⟩ (ShowSame.puts putsS putsT (by simp))
      refine ⟨_, _, _, rfl, rfl, rfl, fun _ => ⟨a, b, ?_, ?_, ?_⟩, same⟩
      all_goals
        obtain ⟨sendingS, shapeS⟩ := putsS.frame
        obtain ⟨sendingT, shapeT⟩ := putsT.frame
        simp only [shapeS, shapeT]
      · exact twins.inv.live
      · exact twins.invToo.live
      · exact ⟨alike.task, alike.receiving, alike.addres, alike.request, alike.child⟩

private theorem Twins.together {event : PeerEvent} {s' t' : Session} (twins : Twins extra s t)
    (stepped : sessionStep cfg s event = .ok s') (steppedToo : sessionStep cfg t event = .ok t')
    (moved : Moved extra s t s' t') :
    Run.Alongside (ShownAlike extra s.peer t.peer) (sessionStep cfg s event)
      (sessionStep cfg t event) :=
  .inr ⟨s', t', stepped, steppedToo, ⟨sessionStep_inv twins.inv stepped,
    sessionStep_inv twins.invToo steppedToo, moved.closed, moved.alike⟩, moved.same⟩

private theorem Twins.children (twins : Twins extra s t) (pair : Open extra s t a b)
    {event : PeerEvent} {act actToo : Except Fault (ExitStatus × Peer)}
    (step : sessionStep cfg s event = withChild s act)
    (stepToo : sessionStep cfg t event = withChild t actToo)
    (acts : ∀ executor other, s.peer.cgiExecutor = .live executor →
      t.peer.cgiExecutor = .live other → ∃ status peer peerToo, act = .ok (status, peer) ∧
        actToo = .ok (status, peerToo) ∧
        Moved extra s t { s with peer, closed := status = .failure }
          { t with peer := peerToo, closed := status = .failure }) :
    Run.Alongside (ShownAlike extra s.peer t.peer) (sessionStep cfg s event)
      (sessionStep cfg t event) := by
  have child := pair.alike.child
  simp only at child
  unfold withChild at step stepToo
  cases executor : s.peer.cgiExecutor with
  | null =>
      cases other : t.peer.cgiExecutor with
      | null =>
          simp only [executor] at step
          simp only [other] at stepToo
          exact twins.together step stepToo
            (pair.unchanged (pair.isOpenToo.trans pair.isOpen.symm))
      | live _ => rw [executor, other] at child; cases child
      | freed => rw [executor, other] at child; cases child
  | freed =>
      cases other : t.peer.cgiExecutor with
      | null => rw [executor, other] at child; cases child
      | live _ => rw [executor, other] at child; cases child
      | freed =>
          simp only [executor] at step
          simp only [other] at stepToo
          exact .inl ⟨_, step, stepToo⟩
  | live running =>
      cases other : t.peer.cgiExecutor with
      | null => rw [executor, other] at child; cases child
      | freed => rw [executor, other] at child; cases child
      | live runningToo =>
          obtain ⟨status, peer, peerToo, ran, ranToo, moved⟩ := acts _ _ executor other
          simp only [executor, ran] at step
          simp only [other, ranToo] at stepToo
          exact twins.together step stepToo moved

theorem Twins.step {event : PeerEvent} (twins : Twins extra s t) (served : event.drains = false)
    (enough : extra = [] ∨ s.contents cfg event = true) (room : s.undisturbed cfg event = true)
    (roomToo : t.undisturbed cfg event = true) :
    Run.Alongside (ShownAlike extra s.peer t.peer) (sessionStep cfg s event)
      (sessionStep cfg t event) := by
  cases isOpen : s.closed with
  | true =>
      have closedToo := twins.closed.trans isOpen
      refine twins.together (sessionStep_closed isOpen) (sessionStep_closed closedToo)
        ⟨twins.closed, fun other => ?_, .quiet rfl rfl⟩
      cases isOpen.symm.trans other
  | false =>
      obtain ⟨a, b, pair⟩ := twins.open_cases isOpen
      have isOpenToo := pair.isOpenToo
      simp only [Session.undisturbed, isOpen, Bool.false_or] at room
      simp only [Session.undisturbed, isOpenToo, Bool.false_or] at roomToo
      simp only [Session.contents, isOpen, Bool.false_or] at enough
      have simple {s : Session} (isOpen : s.closed = false) {answer : Except Fault Session}
          (step : sessionStep cfg s event = if s.closed then .ok s else answer) :
          sessionStep cfg s event = answer := by rw [step, isOpen]; rfl
      cases event with
      | send answer => cases served
      | others request => cases room
      | deliver piece =>
          obtain rfl : extra = [] := enough.resolve_right (by simp)
          exact twins.together (simple isOpen rfl) (simple isOpenToo rfl)
            (deliver_moved pair piece)
      | recv answer =>
          obtain rfl : extra = [] := enough.resolve_right (by simp)
          obtain ⟨status, peer, peerToo, ran, ranToo, moved⟩ := receiveFromPeer_moved pair answer
          refine twins.together ?_ ?_ (moved (status = .failure))
          · rw [simple isOpen rfl]
            simp only [ran]
          · rw [simple isOpenToo rfl]
            simp only [ranToo]
      | call os =>
          rw [pair.inv.live] at room enough
          rw [pair.invToo.live] at roomToo
          simp only [Bool.or_eq_true, decide_eq_true_eq, Bool.not_eq_true'] at room roomToo enough
          rcases handleHttp_moved pair os enough (fun idle => room.resolve_left idle)
              (fun idle => roomToo.resolve_left idle) with failed | ⟨s', t', ran, ranToo, moved⟩
          · exact .inl failed
          · exact twins.together ran ranToo moved
      | toCgi answer =>
          refine twins.children pair (simple isOpen rfl) (simple isOpenToo rfl)
            fun executor other live liveToo => ?_
          exact sendToCgiProcess_moved pair live liveToo answer
      | fromCgi answer =>
          simp only [Bool.and_eq_true, Bool.not_eq_true', decide_eq_true_eq] at room roomToo
          refine twins.children pair (simple isOpen rfl) (simple isOpenToo rfl)
            fun executor other live liveToo => ?_
          exact pipeFromCgi_moved pair live liveToo answer room.1 roomToo.1 room.2 roomToo.2

private theorem drained {event : PeerEvent} (isOpen : s.closed = false) (inv : s.peer.Inv a)
    (drains : event.drains = true) (room : s.undisturbed cfg event = true) :
    ∃ s' events, sessionStep cfg s event = .ok s' ∧ s'.closed = false ∧ s'.request = s.request ∧
      Trace.shown events = [] ∧ ∃ sendingBuffer,
        s'.peer = { s.peer with sendingBuffer, trace := s.peer.trace ++ events } := by
  cases event with
  | send answer =>
      obtain ⟨⟨status, peer⟩, ran, sent⟩ := sendToPeer_sent inv.sending inv.live answer
      have step : sessionStep cfg s (.send answer) =
          .ok { s with peer, closed := status = .failure } := by
        simp only [sessionStep, isOpen, Bool.false_eq_true, if_false, ran]
      rw [Session.undisturbed, isOpen, step] at room
      have stays : ({ s with peer, closed := status = .failure } : Session).closed = false := by
        simpa [Except.toOption] using room
      cases sent with
      | nothing empty =>
          refine ⟨_, [], step, stays, rfl, rfl, s.peer.sendingBuffer, ?_⟩
          rw [List.append_nil]
      | accepted count answered bufInv left => exact ⟨_, _, step, stays, rfl, rfl, _, rfl⟩
      | failed bufInv => cases stays
  | deliver | recv | call | toCgi | fromCgi | others => cases drains

private theorem Twins.left {event : PeerEvent} (twins : Twins extra s t)
    (drains : event.drains = true) (room : s.undisturbed cfg event = true) :
    ∃ s', sessionStep cfg s event = .ok s' ∧ ShownAlike extra s.peer t.peer s' t := by
  cases isOpen : s.closed with
  | true => exact ⟨s, sessionStep_closed isOpen, twins, .quiet rfl rfl⟩
  | false =>
      obtain ⟨a, b, pair⟩ := twins.open_cases isOpen
      obtain ⟨s', events, step, stays, request, silent, sendingBuffer, shape⟩ :=
        drained isOpen pair.inv drains room
      have alike := pair.alike
      refine ⟨s', step, ⟨sessionStep_inv twins.inv step, twins.invToo,
        pair.isOpenToo.trans stays.symm, fun _ => ⟨a, b, ?_, pair.invToo.live, ?_⟩⟩,
        ⟨events, [], ?_, (List.append_nil _).symm, silent.symm⟩⟩
      · rw [shape]
        exact pair.inv.live
      · rw [shape, request]
        exact ⟨alike.task, alike.receiving, alike.addres, alike.request, alike.child⟩
      · rw [shape]

private theorem Twins.right {event : PeerEvent} (twins : Twins extra s t)
    (drains : event.drains = true) (room : t.undisturbed cfg event = true) :
    ∃ t', sessionStep cfg t event = .ok t' ∧ ShownAlike extra s.peer t.peer s t' := by
  cases isOpen : s.closed with
  | true => exact ⟨t, sessionStep_closed (twins.closed.trans isOpen), twins, .quiet rfl rfl⟩
  | false =>
      obtain ⟨a, b, pair⟩ := twins.open_cases isOpen
      obtain ⟨t', events, step, stays, request, silent, sendingBuffer, shape⟩ :=
        drained pair.isOpenToo pair.invToo drains room
      have alike := pair.alike
      refine ⟨t', step, ⟨twins.inv, sessionStep_inv twins.invToo step, stays.trans isOpen.symm,
        fun _ => ⟨a, b, pair.inv.live, ?_, ?_⟩⟩,
        ⟨[], events, (List.append_nil _).symm, ?_, silent⟩⟩
      · rw [shape]
        exact pair.invToo.live
      · rw [shape, request]
        exact ⟨alike.task, alike.receiving, alike.addres, alike.request, alike.child⟩
      · rw [shape]

theorem Twins.run {guard : Session → PeerEvent → Bool} (twins : Twins extra s t)
    (enough : ∀ s event, guard s event = true →
      s.undisturbed cfg event = true ∧ (extra = [] ∨ s.contents cfg event = true))
    {events others : List PeerEvent}
    (same : others.filter (fun event => !event.drains) = events.filter fun event => !event.drains)
    (room : Run.guarded (sessionStep cfg) guard events s = true)
    (roomToo : Run.guarded (sessionStep cfg) (Session.undisturbed cfg) others t = true) :
    Run.Alongside (ShownAlike extra s.peer t.peer) (sessionRun cfg events s)
      (sessionRun cfg others t) := by
  refine Run.run_alongside ?_ ?_ ?_ (⟨twins, .quiet rfl rfl⟩ : ShownAlike extra s.peer t.peer s t)
    same room roomToo
  · rintro s' t' event ⟨twins, shown⟩ served now nowToo
    obtain ⟨roomy, whole⟩ := enough s' event now
    rcases twins.step served whole roomy nowToo with
      failed | ⟨next, nextToo, stepped, steppedToo, after, more⟩
    · exact .inl failed
    · exact .inr ⟨next, nextToo, stepped, steppedToo, after, shown.trans more⟩
  · rintro s' t' event ⟨twins, shown⟩ drains now
    obtain ⟨next, stepped, after, more⟩ := twins.left drains (enough s' event now).1
    exact ⟨next, stepped, after, shown.trans more⟩
  · rintro s' t' event ⟨twins, shown⟩ drains now
    obtain ⟨next, stepped, after, more⟩ := twins.right drains now
    exact ⟨next, stepped, after, shown.trans more⟩

end Steps

/-- The last request is complete, and no byte was taken of the next one. -/
def Session.between (s : Session) : Bool :=
  !s.closed &&
    match s.peer.httpTask with
    | .live task => task.state = .recvHeader && task.parseBufIdx = 0
    | _ => false

section Between

variable {cfg : Config} {s t : Session}

private theorem Session.between_task (inv : s.Inv) (between : s.between = true) :
    s.closed = false ∧ ∃ task, s.peer.Inv task ∧ task.state = .recvHeader ∧ Scanning task [] := by
  unfold Session.between at between
  rw [Bool.and_eq_true, Bool.not_eq_true'] at between
  obtain ⟨task, valid⟩ := inv between.1
  rw [valid.live] at between
  simp only [Bool.and_eq_true, decide_eq_true_eq] at between
  obtain ⟨isOpen, state, index⟩ := between
  have ready := valid.valid.ready
  simp only [HttpTask.Ready, state] at ready
  obtain ⟨_, _, _, _, _, text, scanning⟩ := ready
  have none := scanning.read
  rw [index, Block.read_zero] at none
  subst none
  exact ⟨isOpen, task, valid, state, scanning⟩

private theorem between_twins (inv : s.Inv) (invToo : t.Inv) (between : s.between = true)
    (betweenToo : t.between = true)
    (content : t.peer.receivingBuffer.content = s.peer.receivingBuffer.content)
    (addres : t.peer.addres = s.peer.addres)
    (child : SameChild s.peer.cgiExecutor t.peer.cgiExecutor) : Twins [] s t := by
  obtain ⟨isOpen, a, valid, state, scanning⟩ := s.between_task inv between
  obtain ⟨isOpenToo, b, validToo, stateToo, scanningToo⟩ := t.between_task invToo betweenToo
  refine ⟨inv, invToo, isOpenToo.trans isOpen.symm, fun _ => ⟨a, b, valid.live, validToo.live, ?_⟩⟩
  have ready := valid.valid.ready
  have readyToo := validToo.valid.ready
  simp only [HttpTask.Ready, state] at ready
  simp only [HttpTask.Ready, stateToo] at readyToo
  obtain ⟨code, last, method, length, empty, _⟩ := ready
  obtain ⟨codeToo, lastToo, methodToo, lengthToo, emptyToo, _⟩ := readyToo
  have fields : SameFields a b :=
    ⟨stateToo.trans state.symm, methodToo.trans method.symm, lastToo.trans last.symm,
      codeToo.trans code.symm, lengthToo.trans length.symm, by simp [responseHead, empty, emptyToo]⟩
  refine ⟨⟨fields, fun _ => ⟨[], scanning, scanningToo⟩, ?_, ?_, ?_⟩,
    content.trans (List.append_nil _).symm, addres, fun other => absurd state other, child⟩
  · simp [state]
  · simp [state]
  · simp [state]

private theorem sessionRun_dangling {events : List PeerEvent} (inv : s.Inv)
    (dangling : s.peer.cgiExecutor = .freed) (ran : sessionRun cfg events s = .ok t) :
    t.peer.cgiExecutor = .freed := by
  have keeps {s t : Session} {task : HttpTask} {event : PeerEvent}
      (dangling : s.peer.cgiExecutor = .freed) (step : StepCases cfg s task event t) :
      t.peer.cgiExecutor = .freed := by
    cases step with
    | deliver received => cases received <;> exact dangling
    | recv received => cases received <;> exact dangling
    | @call os code h called effect valid =>
        have kept : h.peer.cgiExecutor = .freed := by
          cases effect with
          | moved events moves => exact moves.executor.trans dangling
          | started events middle moves start task =>
              cases start.vacant.symm.trans (moves.executor.trans dangling)
        cases code <;> exact kept
    | send sent => cases sent <;> exact dangling
    | toCgi child sent => cases child.symm.trans dangling
    | fromCgi child piped => cases child.symm.trans dangling
    | noChild => exact dangling
    | others => exact dangling
  exact sessionRun_keeps (fun _ _ dangling _ step => keeps dangling step) inv dangling
    (fun _ _ => trivial) ran

private theorem between_child {slot : Peer} {request : Ptr RequestCell} {newClientSock : Nat}
    {clientAddr : Address} {conn : Nat} {past : List PeerEvent} (vacant : Vacant slot)
    (ran : sessionRun cfg past (freshSession request slot newClientSock clientAddr conn) = .ok s)
    (between : s.between = true) : SameChild s.peer.cgiExecutor slot.cgiExecutor := by
  have start := freshSession_inv vacant request newClientSock clientAddr conn
  cases child : slot.cgiExecutor with
  | live running => exact absurd child (vacant.idle running)
  | freed =>
      rw [sessionRun_dangling start child ran]
      exact .freed
  | null =>
      obtain ⟨_, task, valid, state, _⟩ := s.between_task (sessionRun_inv start ran) between
      have ordered := sessionRun_ordered start (freshSession_ordered child _ _ _ _) ran
      obtain ⟨same, live, link⟩ := ordered.linked
      cases live.symm.trans valid.live
      have idle : s.peer.cgiExecutor = .null := by
        by_contra running
        cases state.symm.trans (link.mp running)
      rw [idle]
      exact .null

private theorem fresh_delivered (cfg : Config) {slot : Peer} (vacant : Vacant slot)
    (request : Ptr RequestCell) (newClientSock : Nat) (clientAddr : Address) (conn : Nat)
    {unread : Bytes} (fits : unread.length ≤ bufDataMaxsize) :
    ∃ t, sessionStep cfg (freshSession request slot newClientSock clientAddr conn)
        (.deliver unread) = .ok t ∧ t.between = true ∧ t.peer.receivingBuffer.content = unread ∧
      t.peer.addres = clientAddr ∧ t.peer.cgiExecutor = slot.cgiExecutor ∧
      t.peer.trace = (freshSession request slot newClientSock clientAddr conn).peer.trace ++
        [.received unread] := by
  have whole : slot.receivingBuffer.content.length + unread.length ≤ bufDataMaxsize := by
    rw [vacant.nothingReceived]
    simpa using fits
  obtain ⟨buf, wrote, _, content⟩ := vacant.receiving.write_fits unread whole
  have counted : (unread.length : Int) ≥ 0 := Int.natCast_nonneg _
  have delivered : deliver (acceptInto slot newClientSock clientAddr conn) unread =
      { acceptInto slot newClientSock clientAddr conn with receivingBuffer := buf }.record
        [.received unread] := by
    have same : (acceptInto slot newClientSock clientAddr conn).receivingBuffer =
      slot.receivingBuffer := rfl
    simp only [deliver, same, wrote, if_pos counted]
  refine ⟨⟨request, deliver (acceptInto slot newClientSock clientAddr conn) unread, false⟩, rfl,
    ?_⟩
  rw [delivered]
  refine ⟨rfl, ?_, rfl, rfl, rfl⟩
  rw [vacant.nothingReceived] at content
  exact content

/-- Whatever was handled on a connection before, from one request to the next it goes on as a
fresh connection that gets the same bytes: the same bytes are put, the same files opened and
closed, and the same codes returned. -/
theorem no_residue {slot other : Peer} (vacant : Vacant slot) (vacantToo : Vacant other)
    (child : other.cgiExecutor = slot.cgiExecutor) (request requestToo : Ptr RequestCell)
    (newClientSock newClientSockToo : Nat) (clientAddr : Address) (conn connToo : Nat)
    (past : List PeerEvent)
    (ran : sessionRun cfg past (freshSession request slot newClientSock clientAddr conn) = .ok s)
    (between : s.between = true) (events others : List PeerEvent)
    (same : others.filter (fun event => !event.drains) = events.filter fun event => !event.drains)
    (room : Run.guarded (sessionStep cfg) (Session.undisturbed cfg) events s = true)
    (roomToo : Run.guarded (sessionStep cfg) (Session.undisturbed cfg)
      (.deliver s.peer.receivingBuffer.content :: others)
      (freshSession requestToo other newClientSockToo s.peer.addres connToo) = true) :
    Run.Alongside
      (fun t u => u.closed = t.closed ∧ ShowSame s.peer t.peer
        (freshSession requestToo other newClientSockToo s.peer.addres connToo).peer u.peer)
      (sessionRun cfg events s)
      (sessionRun cfg (.deliver s.peer.receivingBuffer.content :: others)
        (freshSession requestToo other newClientSockToo s.peer.addres connToo)) := by
  have inv := sessionRun_inv (freshSession_inv vacant request newClientSock clientAddr conn) ran
  obtain ⟨_, task, valid, _⟩ := s.between_task inv between
  obtain ⟨first, step, betweenToo, content, addres, executor, trace⟩ :=
    fresh_delivered cfg vacantToo requestToo newClientSockToo s.peer.addres connToo
      valid.receiving.content_fits
  have invToo := sessionStep_inv
    (freshSession_inv vacantToo requestToo newClientSockToo s.peer.addres connToo) step
  have childToo : SameChild s.peer.cgiExecutor first.peer.cgiExecutor := by
    rw [executor, child]
    exact between_child vacant ran between
  have twins := between_twins inv invToo between betweenToo content addres childToo
  have together := twins.run (fun _ _ now => ⟨now, .inl rfl⟩) same room
    ((Run.guarded_cons roomToo).2 first step)
  have onward : sessionRun cfg (.deliver s.peer.receivingBuffer.content :: others)
      (freshSession requestToo other newClientSockToo s.peer.addres connToo) =
        sessionRun cfg others first := Run.run_cons_of_ok step others
  rw [onward]
  refine together.mono fun t u shown => ⟨shown.1.closed, ?_⟩
  exact ShowSame.trans ⟨[], _, (List.append_nil _).symm, trace, rfl⟩ shown.2

def bodyThenGet : List PeerEvent :=
  [.deliver (str "POST / HTTP/1.1\r\nContent-Length: 1\r\n\r\nxGET /a.html HTTP/1.1\r\n\r\n"),
   .call (sampleOs true)]

theorem no_residue_bodyThenGet : ∃ s, sessionRun sampleConfig bodyThenGet sampleStart = .ok s ∧
    Run.Alongside
      (fun t u => u.closed = t.closed ∧ ShowSame s.peer t.peer
        (freshSession .null createPeer 5 s.peer.addres 1).peer u.peer)
      (sessionRun sampleConfig [.send (.accepted 9000), .call (sampleOs true)] s)
      (sessionRun sampleConfig [.deliver s.peer.receivingBuffer.content, .call (sampleOs true)]
        (freshSession .null createPeer 5 s.peer.addres 1)) := by
  have met : ((sessionRun sampleConfig bodyThenGet sampleStart).map fun s =>
      (s.between,
        Run.guarded (sessionStep sampleConfig) (Session.undisturbed sampleConfig)
          [.send (.accepted 9000), .call (sampleOs true)] s,
        Run.guarded (sessionStep sampleConfig) (Session.undisturbed sampleConfig)
          [.deliver s.peer.receivingBuffer.content, .call (sampleOs true)]
          (freshSession .null createPeer 5 s.peer.addres 1))) = .ok (true, true, true) := by
    decide +kernel
  cases ran : sessionRun sampleConfig bodyThenGet sampleStart with
  | error fault =>
      rw [ran] at met
      cases met
  | ok s =>
      rw [ran] at met
      have met := Except.ok.inj met
      simp only [Prod.mk.injEq] at met
      obtain ⟨between, room, roomToo⟩ := met
      exact ⟨s, rfl, no_residue createPeer_vacant createPeer_vacant rfl .null .null 5 5
        ⟨str "1.2.3.4", 80⟩ 0 1 bodyThenGet ran between _ _ rfl room roomToo⟩

end Between

end Liso
