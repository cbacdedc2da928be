import Liso.Http.Faults
import Liso.Http.Framing
import Liso.Server.Session

/-! Request framing over whole connections: however the input is cut, the requests
taken from it are those of the whole stream. -/

namespace Liso

def Session.Framing (cfg : Config) (s : Session) : Prop :=
  ∃ part, Liso.Framing cfg s.peer part ∧ splitRequests cfg part = [] ∧
    (s.closed = false → ∀ task, s.peer.httpTask = .live task → Unfinished cfg task part)

section Steps

variable {cfg : Config} {s t : Session} {task : HttpTask} {event : PeerEvent}

private theorem Framing.receives {p q : Peer} {part : Bytes} (framing : Framing cfg p part)
    (received : Receives p q) : Framing cfg q part := by
  cases received with
  | nothing => exact framing
  | bytes inv content =>
      refine ⟨?_, ?_⟩
      · rw [Peer.record, Trace.received_append, Trace.framed_append, framing.account, content]
        simp [Trace.received, Trace.framed, Event.receivedBytes, Event.framedRequest]
      · intro pair member
        apply framing.framed pair
        simpa [Peer.record, Trace.framed, Event.framedRequest] using member

private theorem Session.Framing.keeps {peer : Peer} {closed : Bool}
    (isOpen : s.closed = false) (framing : s.Framing cfg)
    (kept : ∀ part, Liso.Framing cfg s.peer part → Liso.Framing cfg peer part)
    (same : peer.httpTask = s.peer.httpTask) : Session.Framing cfg { s with peer, closed } := by
  obtain ⟨part, framing, incomplete, unfinished⟩ := framing
  refine ⟨part, kept part framing, incomplete, fun _ task live => ?_⟩
  exact unfinished isOpen task (same.symm.trans live)

theorem StepCases.framing (isOpen : s.closed = false) (inv : s.peer.Inv task)
    (framing : s.Framing cfg) (step : StepCases cfg s task event t) : t.Framing cfg := by
  cases step with
  | deliver received =>
      exact framing.keeps isOpen (fun _ old => old.receives received) received.httpTask
  | recv received =>
      exact framing.keeps isOpen (fun _ old => old.receives received) received.httpTask
  | @call os code h called effect valid =>
      obtain ⟨part, old, incomplete, unfinished⟩ := framing
      have started := unfinished isOpen task inv.live
      rcases handleHttp_cases inv.live called with
        ⟨waiting, rfl, _, same⟩ | ⟨notWaiting, next, _, same, ran⟩
      · rw [same]
        refine ⟨part, old.still rfl rfl rfl rfl, incomplete, fun _ _ live => ?_⟩
        exact unfinished isOpen _ live
      · have start : Handling.Inv ⟨s.request, task, s.peer⟩ :=
          ⟨inv.valid, inv.sending, inv.receiving⟩
        obtain ⟨rest, framing, none, goesOn⟩ := httpLoop_framing start old started ran
        rw [same]
        have told : Liso.Framing cfg (afterCall code h.request
            { next.peer with httpTask := .live next.task }).peer rest := by
          cases code <;> exact framing.still rfl rfl rfl rfl
        refine ⟨rest, told, none, ?_⟩
        cases code with
        | closeConnImmediately => exact nofun
        | closeConn =>
            rintro _ _ ⟨⟩
            exact goesOn nofun
        | keepConn =>
            rintro _ _ ⟨⟩
            exact goesOn nofun
  | send sent =>
      cases sent with
      | nothing empty => exact framing.keeps isOpen (fun _ old => old) rfl
      | accepted count answered bufInv left =>
          exact framing.keeps isOpen (fun _ old => old.still rfl rfl rfl rfl) rfl
      | failed bufInv =>
          exact framing.keeps isOpen (fun _ old => old.still (List.append_nil _).symm rfl rfl rfl) rfl
  | toCgi child sent =>
      cases sent with
      | nothing empty => exact framing.keeps isOpen (fun _ old => old) rfl
      | accepted count bufInv left =>
          exact framing.keeps isOpen (fun _ old => old.still rfl rfl rfl rfl) rfl
      | failed bufInv refused =>
          exact framing.keeps isOpen (fun _ old => old.still (List.append_nil _).symm rfl rfl rfl) rfl
  | fromCgi child piped =>
      cases piped with
      | full => exact framing.keeps isOpen (fun _ old => old) rfl
      | failed => exact framing.keeps isOpen (fun _ old => old) rfl
      | ended live =>
          cases live.symm.trans inv.live
          have running := inv.child
          rw [child] at running
          obtain ⟨part, old, incomplete, unfinished⟩ := framing
          have none := unfinished isOpen task inv.live
          rw [Unfinished.none (by simp [running.1]) (by simp [running.1])] at none
          refine ⟨part, old.still rfl rfl rfl rfl, incomplete, ?_⟩
          rintro _ _ ⟨⟩
          exact none
      | piped taken puts =>
          refine framing.keeps isOpen (fun _ old => ?_) ?_
          · refine Framing.puts ?_ puts
            exact old.still rfl rfl rfl rfl
          · obtain ⟨sendingBuffer, rfl⟩ := puts.frame
            rfl
  | noChild => exact framing
  | others => exact framing

theorem sessionStep_receives {fault : Fault} (valid : s.Inv)
    (failed : sessionStep cfg s event = .error fault) (receiving : fault.ofReceiving = true) :
    ∃ block, cfg.parse block = .error fault := by
  cases isOpen : s.closed with
  | true =>
      rw [sessionStep_closed isOpen] at failed
      cases failed
  | false =>
      obtain ⟨task, inv⟩ := valid isOpen
      have child {act : Except Fault (ExitStatus × Peer)}
          (runs : ∀ executor, s.peer.cgiExecutor = .live executor → ∃ result, act = .ok result) :
          Spares (withChild s act) := by
        unfold withChild
        cases running : s.peer.cgiExecutor with
        | null => exact .ok _
        | freed => exact .error rfl
        | live executor =>
            obtain ⟨result, rfl⟩ := runs executor running
            exact .ok _
      unfold sessionStep at failed
      rw [if_neg (by simp [isOpen])] at failed
      cases event with
      | deliver piece => cases failed
      | recv answer => cases failed
      | call os =>
          simp only at failed
          split at failed
          · next called =>
              cases failed
              refine handleHttp_receives (fun other live => ?_) called receiving
              cases live.symm.trans inv.live
              exact ⟨inv.valid, inv.sending, inv.receiving⟩
          · cases failed
      | send answer =>
          obtain ⟨result, ran, _⟩ := sendToPeer_sent inv.sending inv.live answer
          simp only [ran] at failed
          cases failed
      | toCgi answer =>
          rw [child (fun executor live => ?_) fault failed] at receiving
          · cases receiving
          · have linked := inv.child
            rw [live] at linked
            obtain ⟨result, ran, _⟩ := sendToCgiProcess_sent linked.2.1 live answer
            exact ⟨result, ran⟩
      | fromCgi answer =>
          rw [child (fun executor live => ?_) fault failed] at receiving
          · cases receiving
          · obtain ⟨result, ran, _⟩ :=
              pipeFromCgiProcessToClient_piped inv.sending inv.live live answer
            exact ⟨result, ran⟩
      | others request => cases failed

end Steps

/-- A header block is parsed when it fits the parse buffer, and the connection is closed when it
does not, as soon as enough of it was received. -/
def HeaderSettled (task : HttpTask) (s next : Session) : Prop :=
  let waiting := task.parseBuf.read task.parseBufIdx ++ s.peer.receivingBuffer.content
  match Matcher.cutAfter terminator waiting with
  | some (block, _) =>
      if block.length ≤ bufDataMaxsize then
        .parsed (task.requests + 1) block ∈ next.peer.trace
      else next.closed = true
  | none => next.closed = decide (bufDataMaxsize ≤ waiting.length)

private theorem HeaderSettled.accepted {task : HttpTask} {s next : Session} {block rest : Bytes}
    (cut : Matcher.cutAfter terminator
      (task.parseBuf.read task.parseBufIdx ++ s.peer.receivingBuffer.content) = some (block, rest))
    (short : block.length ≤ bufDataMaxsize)
    (parsed : .parsed (task.requests + 1) block ∈ next.peer.trace) :
    HeaderSettled task s next := by
  simp only [HeaderSettled, cut]
  rwa [if_pos short]

private theorem HeaderSettled.parsed {task after : HttpTask} {s next : Session}
    {text block : Bytes} {left : Cbuf UInt8} (scanning : Scanning task text)
    (read : HeaderRead task text s.peer.receivingBuffer (.ready, after, left))
    (isBlock : after.parseBuf.read after.parseBufIdx = block)
    (parsed : .parsed (after.requests + 1) block ∈ next.peer.trace) :
    HeaderSettled task s next := by
  cases read with
  | ready size same whole cut short inv =>
      cases same.symm.trans isBlock
      have found := cut left.content
      rw [← whole, ← scanning.read] at found
      exact .accepted found short parsed

private theorem HeaderSettled.refused {task : HttpTask} {s next : Session} {front rest : Bytes}
    (whole : task.parseBuf.read task.parseBufIdx ++ s.peer.receivingBuffer.content = front ++ rest)
    (clear : Matcher.Clear terminator front) (full : front.length = bufDataMaxsize)
    (closed : next.closed = true) : HeaderSettled task s next := by
  simp only [HeaderSettled, whole, closed]
  cases cut : Matcher.cutAfter terminator (front ++ rest) with
  | none => simp [full]
  | some pair =>
      obtain ⟨block, more⟩ := pair
      obtain ⟨same, ends⟩ := Matcher.cutAfter_some block more cut
      have long : ¬ block.length ≤ bufDataMaxsize := by
        intro short
        rw [← full] at short
        exact clear block (List.prefix_of_prefix_length_le ⟨more, same.symm⟩
          (List.prefix_append front rest) short) ends
      simp [long]

private theorem afterCall_trace (code : Code) (request : Ptr RequestCell) (peer : Peer) :
    (afterCall code request peer).peer.trace = peer.trace ++ [.returned code] := by
  cases code <;> rfl

private theorem PassCases.settles_returned {cfg : Config} {os : Os} {s : Session} {task : HttpTask}
    {code : Code} {last : Handling} (state : task.state = .recvHeader)
    (result : PassCases cfg os ⟨s.request, task, s.peer⟩ (.returns code last)) :
    HeaderSettled task s
      (afterCall code last.request { last.peer with httpTask := .live last.task }) := by
  cases result with
  | headerShort _ scanning read =>
      cases read with
      | emptyRecvBuf next inv empty =>
          have none := Matcher.cutAfter_none next.clear
          have short := next.short
          rw [← scanning.read] at none short
          simp only [HeaderSettled, none]
          exact (decide_eq_false (Nat.not_le_of_gt short)).symm
  | headerLong _ scanning read =>
      cases read with
      | parserBufOverflow whole clear full inv =>
          rw [← scanning.read] at whole
          exact .refused whole clear full rfl
  | headerBad _ scanning read isBlock bad =>
      refine .parsed scanning read isBlock ?_
      rw [afterCall_trace]
      simp [Handling.receive, Peer.record]
  | bodyShort other => cases state.symm.trans other
  | cgiStarted other => cases state.symm.trans other
  | fileWaits other => cases state.symm.trans other
  | fileFails other => cases state.symm.trans other

private theorem PassCases.settles_again {cfg : Config} {os : Os} {s : Session} {task : HttpTask}
    {fuel : Nat} {code : Code} {middle last : Handling} (state : task.state = .recvHeader)
    (start : Handling.Inv ⟨s.request, task, s.peer⟩)
    (result : PassCases cfg os ⟨s.request, task, s.peer⟩ (.again middle))
    (ran : httpLoop cfg os fuel middle = some (.ok (code, last))) :
    HeaderSettled task s
      (afterCall code last.request { last.peer with httpTask := .live last.task }) := by
  obtain ⟨events, trace⟩ := (httpLoop_effect (result.valid start) ran).extends
  cases result with
  | headerGood _ scanning read isBlock good took =>
      refine .parsed scanning read isBlock ?_
      rw [afterCall_trace, trace]
      simp [Handling.receive, Peer.record]
  | bodyWhole other => cases state.symm.trans other
  | generated other => cases state.symm.trans other
  | headSent other => cases state.symm.trans other
  | staticHead other => cases state.symm.trans other
  | staticPost other => cases state.symm.trans other
  | fileDone other => cases state.symm.trans other

theorem call_settles_header {cfg : Config} {s next : Session} {task : HttpTask} {os : Os}
    (isOpen : s.closed = false) (inv : s.peer.Inv task) (state : task.state = .recvHeader)
    (stepped : sessionStep cfg s (.call os) = .ok next) : HeaderSettled task s next := by
  unfold sessionStep at stepped
  rw [if_neg (by simp [isOpen])] at stepped
  cases called : handleHttp cfg os s.request s.peer with
  | error fault =>
      simp only [called] at stepped
      cases stepped
  | ok result =>
      obtain ⟨code, after, peer⟩ := result
      simp only [called, Except.ok.injEq] at stepped
      rcases handleHttp_cases inv.live called with ⟨waiting, _⟩ | ⟨_, last, rfl, rfl, ran⟩
      · cases state.symm.trans waiting
      subst stepped
      have start : Handling.Inv ⟨s.request, task, s.peer⟩ :=
        ⟨inv.valid, inv.sending, inv.receiving⟩
      rw [httpLoop, if_neg (by simp [state])] at ran
      cases passed : httpPass cfg os ⟨s.request, task, s.peer⟩ with
      | error fault =>
          simp only [passed] at ran
          cases ran
      | ok pass =>
          have result := httpPass_cases start passed
          simp only [passed] at ran
          cases pass with
          | returns stopped middle =>
              cases ran
              exact result.settles_returned state
          | again middle => exact result.settles_again state start ran

theorem freshSession_framing {cfg : Config} {slot : Peer} (vacant : Vacant slot)
    (request : Ptr RequestCell) (newClientSock : Nat) (clientAddr : Address) (conn : Nat) :
    (freshSession request slot newClientSock clientAddr conn).Framing cfg := by
  refine ⟨[], ⟨?_, nofun⟩, splitRequests_none rfl, ?_⟩
  · exact vacant.nothingReceived.symm
  · rintro _ _ ⟨⟩
    obtain ⟨_, _, _, _, _, text, scanning⟩ := createHttpTask_inv.ready
    have none : text = [] := scanning.read.symm
    rwa [none] at scanning

theorem sessionRun_framing {cfg : Config} {events : List PeerEvent} {s t : Session} (inv : s.Inv)
    (framing : s.Framing cfg) (ran : sessionRun cfg events s = .ok t) : t.Framing cfg :=
  sessionRun_keeps (fun isOpen valid framing _ step => step.framing isOpen valid framing) inv
    framing (fun _ _ => trivial) ran

/-- The requests taken from the input are the first ones of the whole stream, and all of them
once nothing waits; no byte is skipped or used twice, and the next header is settled by its
length. -/
structure FramesRequests (cfg : Config) (s : Session) : Prop where
  first : Trace.framed s.peer.trace <+: splitRequests cfg (Trace.received s.peer.trace)
  all : s.peer.receivingBuffer.content = [] →
    Trace.framed s.peer.trace = splitRequests cfg (Trace.received s.peer.trace)
  account : ∃ part, Trace.received s.peer.trace =
    ((Trace.framed s.peer.trace).map wire).flatten ++ (part ++ s.peer.receivingBuffer.content)
  short : ∀ pair ∈ Trace.framed s.peer.trace, pair.1.length ≤ bufDataMaxsize
  header : s.closed = false → ∀ task, s.peer.httpTask = .live task → task.state = .recvHeader →
    Trace.received s.peer.trace = ((Trace.framed s.peer.trace).map wire).flatten ++
        (task.parseBuf.read task.parseBufIdx ++ s.peer.receivingBuffer.content) ∧
      ∀ os next, sessionStep cfg s (.call os) = .ok next → HeaderSettled task s next

/-- However the input of a connection is cut into pieces, its requests are those of the reference
splitter, and no byte is stored outside the arrays for header and body. -/
theorem requests_framed (cfg : Config) {slot : Peer} (vacant : Vacant slot)
    (request : Ptr RequestCell) (newClientSock : Nat) (clientAddr : Address) (conn : Nat)
    (events : List PeerEvent) :
    (∀ s, sessionRun cfg events (freshSession request slot newClientSock clientAddr conn) = .ok s →
      FramesRequests cfg s) ∧
    ∀ fault, sessionRun cfg events (freshSession request slot newClientSock clientAddr conn) =
        .error fault → fault.ofReceiving = true → ∃ block, cfg.parse block = .error fault := by
  have start := freshSession_inv vacant request newClientSock clientAddr conn
  constructor
  · intro s ran
    have inv := sessionRun_inv start ran
    obtain ⟨part, framing, incomplete, unfinished⟩ :=
      sessionRun_framing start (freshSession_framing vacant request newClientSock clientAddr conn) ran
    have split (rest : Bytes) := splitRequests_framed framing.framed rest
    refine ⟨?_, fun consumed => ?_, ⟨part, framing.account⟩, ?_, ?_⟩
    · rw [framing.account, split]
      exact List.prefix_append _ _
    · symm
      calc
        splitRequests cfg (Trace.received s.peer.trace) =
            Trace.framed s.peer.trace ++
              splitRequests cfg (part ++ s.peer.receivingBuffer.content) := by
          rw [framing.account, split]
        _ = Trace.framed s.peer.trace ++ splitRequests cfg part := by
          rw [consumed, List.append_nil]
        _ = Trace.framed s.peer.trace := by rw [incomplete, List.append_nil]
    · exact fun pair member => (framing.framed pair member).short
    · intro isOpen task live state
      obtain ⟨same, valid⟩ := inv isOpen
      cases live.symm.trans valid.live
      have scanning := unfinished isOpen task live
      simp only [Unfinished, state] at scanning
      refine ⟨?_, fun os next stepped => call_settles_header isOpen valid state stepped⟩
      rw [scanning.read]
      exact framing.account
  · intro fault failed receiving
    obtain ⟨front, event, back, t, _, reached, stuck⟩ := Run.run_error failed
    exact sessionStep_receives (sessionRun_inv start reached) stuck receiving

def cutEvents : List PeerEvent :=
  [.deliver (str "POST / HTTP/1.1\r\nContent-Length: 3\r\n\r"), .call (sampleOs true),
   .deliver (str "\nab"), .call (sampleOs true), .deliver (str "cPUT / HTTP/1.1\r\n\r\n"),
   .call (sampleOs true), .call (sampleOs true)]

theorem requests_framed_cut : ∃ s, sessionRun sampleConfig cutEvents sampleStart = .ok s ∧
    splitRequests sampleConfig (Trace.received s.peer.trace) =
      [(str "POST / HTTP/1.1\r\nContent-Length: 3\r\n\r\n", some (str "abc")),
       (str "PUT / HTTP/1.1\r\n\r\n", none)] := by
  have taken : ((sessionRun sampleConfig cutEvents sampleStart).map
      fun s => (Trace.framed s.peer.trace, s.peer.receivingBuffer.content)) =
      .ok ([(str "POST / HTTP/1.1\r\nContent-Length: 3\r\n\r\n", some (str "abc")),
        (str "PUT / HTTP/1.1\r\n\r\n", none)], []) := by
    decide +kernel
  cases ran : sessionRun sampleConfig cutEvents sampleStart with
  | error fault =>
      rw [ran] at taken
      cases taken
  | ok s =>
      rw [ran] at taken
      have pairs := Prod.mk.inj (Except.ok.inj taken)
      have frames := (requests_framed sampleConfig createPeer_vacant .null 5 ⟨str "1.2.3.4", 80⟩ 0
        cutEvents).1 s ran
      exact ⟨s, rfl, (frames.all pairs.2).symm.trans pairs.1⟩

end Liso
