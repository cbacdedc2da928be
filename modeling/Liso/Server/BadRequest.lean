import Liso.Server.Loop
import Liso.Server.Request
import Liso.Server.Streams

/-! A header that cannot be handled: it is not parsed, or it is too long. -/

namespace Liso

/-- What waits begins with a header that `parse` refuses, or that the parser buffer cannot hold. -/
def BadHeader (cfg : Config) (task : HttpTask) (peer : Peer) : Prop :=
  let waiting := task.parseBuf.read task.parseBufIdx ++ peer.receivingBuffer.content
  match Matcher.cutAfter terminator waiting with
  | some (block, _) => block.length ≤ bufDataMaxsize → cfg.parse block = .ok none
  | none => bufDataMaxsize ≤ waiting.length

/-- After the call, the connection is not closed before a 400 response was put after all earlier
output, and all of it sent. -/
def AnswersBad (cfg : Config) (os : Os) (s : Session) : Prop :=
  ∀ t, sessionStep cfg s (.call os) = .ok t → ∀ more u, sessionRun cfg more t = .ok u →
    u.closed = true → ∃ req,
      Trace.puts u.peer.trace =
        Trace.puts s.peer.trace ++ (nonbodyHead badRequestNum).map (⟨·, req⟩) ∧
      Trace.sent u.peer.trace = Trace.puts u.peer.trace

structure Dropped (s t : Session) : Prop where
  closed : t.closed = true
  puts : Trace.puts t.peer.trace = Trace.puts s.peer.trace
  sent : Trace.sent t.peer.trace = Trace.sent s.peer.trace
  socket : t.peer.socket = s.peer.socket

section Header

variable {cfg : Config} {os : Os} {s : Session} {task : HttpTask}

private theorem recvHeaderState_bad {h : Handling} (inv : h.Inv)
    (state : h.task.state = .recvHeader) (bad : BadHeader cfg h.task h.peer) :
    ∃ next events, recvHeaderState cfg h = .ok (.returns .closeConnImmediately next) ∧
      next.peer.trace = h.peer.trace ++ events ∧ next.peer.socket = h.peer.socket ∧
      Trace.puts events = [] ∧ Trace.sent events = [] := by
  obtain ⟨text, status, next, left, scanning, fresh, ran, read⟩ := inv.headerRead state
  rw [BadHeader, scanning.read] at bad
  rw [recvHeaderState, if_neg fresh]
  simp only [ran]
  cases read with
  | emptyRecvBuf unfinished inv empty =>
      simp only [Matcher.cutAfter_none unfinished.clear] at bad
      exact absurd unfinished.short (Nat.not_lt_of_le bad)
  | parserBufOverflow whole clear full inv =>
      exact ⟨_, [], rfl, (List.append_nil _).symm, rfl, rfl, rfl⟩
  | @ready block parseBuf parseBufIdx left size read whole cut short inv =>
      simp only [whole, cut] at bad
      have refused : cfg.parse (parseBuf.read parseBufIdx) = .ok none := by
        rw [read]
        exact bad short
      simp only [refused]
      exact ⟨_, [_, _], rfl, List.append_assoc .., rfl, rfl, rfl⟩

private theorem call_bad (cfg : Config) (os : Os) (isOpen : s.closed = false)
    (inv : s.peer.Inv task) (state : task.state = .recvHeader)
    (bad : BadHeader cfg task s.peer) :
    ∃ t, sessionStep cfg s (.call os) = .ok t ∧ Dropped s t := by
  have start : Handling.Inv ⟨s.request, task, s.peer⟩ := ⟨inv.valid, inv.sending, inv.receiving⟩
  obtain ⟨next, events, ran, trace, socket, puts, sent⟩ := recvHeaderState_bad start state bad
  have pass : httpPass cfg os ⟨s.request, task, s.peer⟩ =
      recvHeaderState cfg ⟨s.request, task, s.peer⟩ := by
    unfold httpPass
    simp only [state]
  have stepped := sessionStep_call cfg os s isOpen inv.live (by simp [state]) (by simp [state])
  rw [pass, ran] at stepped
  refine ⟨_, stepped, rfl, ?_, ?_, socket⟩
  · calc
      Trace.puts (next.peer.trace ++ [.returned _]) = Trace.puts next.peer.trace := by
        rw [Trace.puts_append]
        exact List.append_nil _
      _ = Trace.puts s.peer.trace := by rw [trace, Trace.puts_append, puts, List.append_nil]
  · calc
      Trace.sent (next.peer.trace ++ [.returned _]) = Trace.sent next.peer.trace := by
        rw [Trace.sent_append]
        exact List.append_nil _
      _ = Trace.sent s.peer.trace := by rw [trace, Trace.sent_append, sent, List.append_nil]

end Header

theorem closeClientConnection_discards {client next : Peer}
    (closed : closeClientConnection client = .ok next) :
    next.socket = none ∧ next.sendingBuffer.content = [] ∧
      Trace.puts next.trace = Trace.puts client.trace ∧
      Trace.sent next.trace = Trace.sent client.trace := by
  obtain ⟨_, _, rfl⟩ := closeClientConnection_ok.mp closed
  refine ⟨rfl, rfl, ?_, ?_⟩
  · change Trace.puts (_ ++ _) = _
    rw [Trace.puts_append]
    cases client.socket <;> exact List.append_nil _
  · change Trace.sent (_ ++ _) = _
    rw [Trace.sent_append]
    cases client.socket <;> exact List.append_nil _

/-- A header that cannot be handled is never answered: the connection is closed at once, and the
bytes that wait in its sending buffer are discarded. -/
theorem bad_request_not_answered (cfg : Config) {slot : Peer} (vacant : Vacant slot)
    (request : Ptr RequestCell) (newClientSock : Nat) (clientAddr : Address) (conn : Nat)
    (events : List PeerEvent) (s : Session)
    (ran : sessionRun cfg events (freshSession request slot newClientSock clientAddr conn) =
      .ok s)
    (isOpen : s.closed = false) (task : HttpTask) (live : s.peer.httpTask = .live task)
    (state : task.state = .recvHeader) (bad : BadHeader cfg task s.peer) (os : Os) :
    ¬ AnswersBad cfg os s ∧ (∃ t, sessionStep cfg s (.call os) = .ok t ∧ Dropped s t) ∧
      ∀ served, serveHttp cfg os s.request s.peer = .ok served →
        served.closed = true ∧ served.client.socket = none ∧
          served.client.sendingBuffer.content = [] ∧
          Trace.puts served.client.trace = Trace.puts s.peer.trace ∧
          Trace.puts served.client.trace =
            Trace.sent served.client.trace ++ s.peer.sendingBuffer.content := by
  have start := freshSession_inv vacant request newClientSock clientAddr conn
  obtain ⟨same, inv⟩ := sessionRun_inv start ran isOpen
  cases inv.live.symm.trans live
  have streams := sessionRun_streams_open start
    (freshSession_streams vacant request newClientSock clientAddr conn) ran isOpen
  obtain ⟨t, stepped, dropped⟩ := call_bad cfg os isOpen inv state bad
  refine ⟨fun answers => ?_, ⟨t, stepped, dropped⟩, fun served ends => ?_⟩
  · obtain ⟨req, put, _⟩ := answers t stepped [] t rfl dropped.closed
    have length := congrArg List.length (dropped.puts.symm.trans put)
    have some : (nonbodyHead badRequestNum).length > 0 := by decide
    rw [List.length_append, List.length_map] at length
    omega
  · unfold sessionStep at stepped
    rw [if_neg (by simp [isOpen])] at stepped
    unfold serveHttp at ends
    cases called : handleHttp cfg os s.request s.peer with
    | error fault =>
        simp only [called] at stepped
        cases stepped
    | ok result =>
        obtain ⟨code, after, client⟩ := result
        simp only [called] at stepped ends
        cases stepped
        rw [if_pos dropped.closed, hangUp] at ends
        cases closing : closeClientConnection (afterCall code after client).peer with
        | error fault =>
            simp only [closing] at ends
            cases ends
        | ok next =>
            simp only [closing] at ends
            cases ends
            obtain ⟨socket, empty, puts, sent⟩ := closeClientConnection_discards closing
            refine ⟨rfl, socket, empty, puts.trans dropped.puts, ?_⟩
            rw [puts, sent, dropped.puts, dropped.sent]
            exact streams.out.symm

def badEvents : List PeerEvent :=
  [.deliver (str "PUT / HTTP/1.1\r\n\r\nBAD\r\n\r\n"), .call (sampleOs true)]

def waitingHeader (s : Session) : Option Bytes :=
  match s.peer.httpTask with
  | .live task =>
      if task.state = .recvHeader then
        some (task.parseBuf.read task.parseBufIdx ++ s.peer.receivingBuffer.content)
      else none
  | _ => none

theorem bad_request_not_answered_pipelined : ∃ s,
    sessionRun sampleConfig badEvents sampleStart = .ok s ∧
      ¬ AnswersBad sampleConfig (sampleOs true) s := by
  have reached : (sessionRun sampleConfig badEvents sampleStart).map
      (fun s => (s.closed, waitingHeader s)) = .ok (false, some (str "BAD\r\n\r\n")) := by
    decide +kernel
  have refused : parse (str "BAD\r\n\r\n") = .ok none := by decide +kernel
  have cut : Matcher.cutAfter terminator (str "BAD\r\n\r\n") = some (str "BAD\r\n\r\n", []) := by
    decide +kernel
  cases ran : sessionRun sampleConfig badEvents sampleStart with
  | error fault =>
      rw [ran] at reached
      cases reached
  | ok s =>
      rw [ran] at reached
      obtain ⟨isOpen, waiting⟩ := Prod.mk.inj (Except.ok.inj reached)
      unfold waitingHeader at waiting
      cases live : s.peer.httpTask with
      | null => simp [live] at waiting
      | freed => simp [live] at waiting
      | live task =>
          simp only [live, Option.ite_none_right_eq_some, Option.some.injEq] at waiting
          obtain ⟨state, text⟩ := waiting
          have bad : BadHeader sampleConfig task s.peer := by
            simp only [BadHeader, text, cut]
            exact fun _ => refused
          exact ⟨s, rfl, (bad_request_not_answered sampleConfig createPeer_vacant .null 5
            ⟨str "1.2.3.4", 80⟩ 0 badEvents s ran isOpen task live state bad (sampleOs true)).1⟩

/-- The answer to the first request is discarded with the connection. -/
theorem answers_bad_false : ¬ ∀ s, sessionRun sampleConfig badEvents sampleStart = .ok s →
    AnswersBad sampleConfig (sampleOs true) s := by
  intro answers
  have put : ((sessionRun sampleConfig badEvents sampleStart).map
      fun s => (Trace.puts s.peer.trace).map OutByte.val) =
      .ok (nonbodyHead notImplementedNum) := by decide +kernel
  have dropped : ((sessionRun sampleConfig (badEvents ++ [.call (sampleOs true)]) sampleStart).map
      fun t => (t.closed, (Trace.puts t.peer.trace).map OutByte.val)) =
      .ok (true, nonbodyHead notImplementedNum) := by decide +kernel
  cases ran : sessionRun sampleConfig (badEvents ++ [.call (sampleOs true)]) sampleStart with
  | error fault =>
      rw [ran] at dropped
      cases dropped
  | ok t =>
      obtain ⟨s, reached, last⟩ := Run.run_append_ok.mp ran
      obtain ⟨next, stepped, ended⟩ := Run.run_cons_ok.mp last
      cases ended
      rw [ran] at dropped
      rw [sessionRun, reached] at put
      obtain ⟨closed, same⟩ := Prod.mk.inj (Except.ok.inj dropped)
      obtain ⟨req, all, _⟩ := answers s reached t stepped [] t rfl closed
      have whole := congrArg (List.length ∘ List.map OutByte.val) all
      have before := congrArg List.length (Except.ok.inj put)
      have after := congrArg List.length same
      have some : (nonbodyHead badRequestNum).length > 0 := by decide
      simp only [Function.comp_apply, List.map_append, List.length_append, List.length_map]
        at whole before after
      omega

end Liso
