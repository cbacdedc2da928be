import Liso.Server.Request
import Liso.Server.Streams

/-! The body of a CGI request on its way to the child: from the receiving buffer to the
array of the task, from there to the executor's buffer, and from there to the pipe. -/

namespace Liso

def lastFramed (peer : Peer) : Option (Bytes × Option Bytes) := (Trace.framed peer.trace).getLast?

def HasBody (h : Handling) : Prop :=
  match h.task.state with
  | .recvBody => ∃ cell, h.request = .live cell ∧ cell.request.httpMethod = str "POST"
  | .checkCgi => ∃ cell, h.request = .live cell ∧ ∀ block body,
      lastFramed h.peer = some (block, some body) →
        cell.request.httpMethod = str "POST" ∧ postBodyBytes h.task = some body
  | _ => True

/-- What was buffered for a child that runs is what its buffer takes of the last body. -/
def Buffered (peer : Peer) : Prop :=
  ∀ executor, peer.cgiExecutor = .live executor → ∀ block body,
    lastFramed peer = some (block, some body) →
      (Trace.cgiStream peer.trace).1 = (cgiBufferOf body).2

theorem lastFramed_keeps {p q : Peer} {events : List Event} (trace : q.trace = p.trace ++ events)
    (quiet : Trace.framed events = []) : lastFramed q = lastFramed p := by
  rw [lastFramed, trace, Trace.framed_append, quiet, List.append_nil, lastFramed]

theorem lastFramed_framed (peer : Peer) (front : List Event) (block : Bytes)
    (body : Option Bytes) :
    lastFramed (peer.record (front ++ [.framed block body])) = some (block, body) := by
  rw [lastFramed, Peer.record, Trace.framed_append, Trace.framed_append, ← List.append_assoc]
  exact List.getLast?_concat

theorem cgiBufferOf_long {body : Bytes} (long : bufDataMaxsize < body.length) :
    (cgiBufferOf body).2 = [] := by
  have positive : body.length > 0 := Nat.zero_lt_of_lt long
  have excess := (Cbuf.reset_inv (cbufMemory (0 : UInt8))).write_over body (by simpa using long)
  have failed : ¬ (-1 : Int) ≥ 0 := by decide
  rw [cgiBufferOf, if_pos positive]
  simp only [excess, if_neg failed]

theorem cgiBufferOf_whole {body : Bytes} (some : body ≠ []) :
    (cgiBufferOf body).2 = body ↔ body.length ≤ bufDataMaxsize := by
  by_cases fits : body.length ≤ bufDataMaxsize
  · have positive : body.length > 0 := List.length_pos_iff.mpr some
    have counted : (body.length : Int) ≥ 0 := Int.natCast_nonneg _
    obtain ⟨next, wrote, _, _⟩ :=
      (Cbuf.reset_inv (cbufMemory (0 : UInt8))).write_fits body (by simpa using fits)
    rw [cgiBufferOf, if_pos positive]
    simp only [wrote, if_pos counted]
    exact iff_of_true trivial fits
  · rw [cgiBufferOf_long (Nat.lt_of_not_le fits)]
    exact iff_of_false (fun same => some same.symm) fits

section Passes

variable {cfg : Config} {os : Os} {h next : Handling}

private theorem cgiBody_post {task : HttpTask} {request : Request} {body fed : Bytes}
    (post : request.httpMethod = str "POST") (stored : postBodyBytes task = some body)
    (bodied : cgiBody task request = .ok fed) : fed = body := by
  obtain ⟨block, isBlock, rfl⟩ := Option.map_eq_some_iff.mp stored
  simp only [cgiBody, isBlock] at bodied
  split at bodied
  · cases bodied
    rfl
  · next noBytes =>
      have empty : task.bodyBytesNum = 0 := by
        have few := not_and.mp noBytes post
        omega
      cases bodied
      rw [empty, Block.read_zero]

private theorem PassCases.hasBody (hasBody : HasBody h)
    (result : PassCases cfg os h (.again next)) : HasBody next := by
  cases result with
  | headerGood state scanning read whole good took =>
      cases took with
      | fetch method named =>
          refine ⟨_, rfl, fun block body last => ?_⟩
          cases (lastFramed_framed _ [.parsed _ _] _ none).symm.trans last
      | refuse post noBody => trivial
      | body bodied =>
          have post := bodyLength_post (Option.ne_none_iff_exists'.mpr ⟨_, bodied⟩)
          exact ⟨_, rfl, post⟩
      | unknown other => trivial
  | bodyWhole state part read =>
      simp only [HasBody, state] at hasBody
      obtain ⟨cell, live, post⟩ := hasBody
      refine ⟨cell, live, fun block body last => ⟨post, ?_⟩⟩
      have same := Option.some.inj ((lastFramed_framed _ [] _ _).symm.trans last)
      exact congrArg Prod.snd same
  | generated state written => trivial
  | @headSent ret after peer state sent =>
      unfold HasBody
      rcases afterHead_cases after with body | finished
      · simp [body]
      · simp [finished]
  | staticHead state live static method found =>
      unfold HasBody
      dsimp only
      split_ifs <;> trivial
  | staticPost state live static post => trivial
  | fileDone state opened streamed => trivial

private theorem PassCases.buffered {code : Code} (idle : Idle h.peer.cgiExecutor)
    (hasBody : HasBody h) (result : PassCases cfg os h (.returns code next)) :
    Buffered next.peer ∧ (next.task.state = .recvBody → HasBody next) := by
  have vacant {peer : Peer} (same : peer.cgiExecutor = h.peer.cgiExecutor) : Buffered peer :=
    fun executor live => absurd (same.symm.trans live) (idle executor)
  cases result with
  | headerShort state scanning read =>
      refine ⟨vacant rfl, fun other => ?_⟩
      cases read
      cases state.symm.trans other
  | headerLong state scanning read =>
      refine ⟨vacant rfl, fun other => ?_⟩
      cases read
      cases state.symm.trans other
  | headerBad state scanning read =>
      refine ⟨vacant rfl, fun other => ?_⟩
      cases read
      cases state.symm.trans other
  | bodyShort state part read =>
      refine ⟨vacant rfl, fun _ => ?_⟩
      cases read
      simpa only [HasBody, state] using hasBody
  | @cgiStarted cell peer state live cgi started fed =>
      refine ⟨fun executor running block body last => ?_, nofun⟩
      obtain ⟨bytes, child, bodied, isChild, pending⟩ := fed
      obtain ⟨_, _, _, shape⟩ := started.started
      simp only [HasBody, state] at hasBody
      obtain ⟨same, isLive, carried⟩ := hasBody
      cases isLive.symm.trans live
      have trace := congrArg Peer.trace shape
      obtain ⟨post, stored⟩ := carried block body ((lastFramed_keeps trace rfl).symm.trans last)
      cases cgiBody_post post stored bodied
      have sameChild := congrArg Peer.cgiExecutor shape
      cases sameChild.symm.trans isChild
      rw [← pending]
      dsimp only
      rw [trace]
      simp [Trace.cgiStream, Peer.record, pipeEvents, Trace.cgiStep]
  | fileWaits state opened streamed =>
      refine ⟨vacant streamed.executor, fun other => ?_⟩
      cases state.symm.trans other
  | fileFails state opened streamed =>
      refine ⟨vacant streamed.executor, fun other => ?_⟩
      cases state.symm.trans other

private theorem httpLoop_buffered {fuel : Nat} {code : Code} (inv : h.Inv)
    (idle : Idle h.peer.cgiExecutor) (hasBody : HasBody h)
    (ran : httpLoop cfg os fuel h = some (.ok (code, next))) :
    Buffered next.peer ∧ (next.task.state = .recvBody → HasBody next) := by
  refine httpLoop_rule (P := fun h => Idle h.peer.cgiExecutor ∧ HasBody h)
    (Q := fun _ next => Buffered next.peer ∧ (next.task.state = .recvBody → HasBody next))
    ?_ ?_ ?_ inv ⟨idle, hasBody⟩ ran
  · rintro h next valid ⟨idle, hasBody⟩ result
    refine ⟨?_, result.hasBody hasBody⟩
    obtain ⟨events, moves⟩ := result.moves_again valid
    have same : next.peer.cgiExecutor = h.peer.cgiExecutor := moves.executor
    rwa [same]
  · rintro h code next valid ⟨idle, hasBody⟩ result
    exact result.buffered idle hasBody
  · rintro h code next valid ⟨idle, _⟩ finished done
    rcases finishRequest_cases done with ⟨rfl, ⟨_, rfl⟩ | ⟨_, _, rfl⟩⟩
    · exact ⟨fun executor live => absurd live (idle executor), nofun⟩
    · exact ⟨fun executor live => absurd live (idle executor), nofun⟩

end Passes

structure Feeds (s : Session) : Prop where
  awaited : s.closed = false → ∀ task, s.peer.httpTask = .live task →
    task.state = .recvBody → HasBody ⟨s.request, task, s.peer⟩
  child : Buffered s.peer

section Session

variable {cfg : Config} {s t : Session} {task : HttpTask} {event : PeerEvent}

private theorem Buffered.keeps {p q : Peer} {events : List Event} (buffered : Buffered p)
    (trace : q.trace = p.trace ++ events) (quiet : Trace.framed events = [])
    (stream : (Trace.cgiStream q.trace).1 = (Trace.cgiStream p.trace).1)
    (child : ∀ executor, q.cgiExecutor = .live executor →
      ∃ before, p.cgiExecutor = .live before) : Buffered q := by
  intro executor running block body last
  obtain ⟨before, live⟩ := child executor running
  rw [lastFramed_keeps trace quiet] at last
  rw [stream]
  exact buffered before live block body last

private theorem Feeds.keeps {peer : Peer} {closed : Bool} {events : List Event} (feeds : Feeds s)
    (isOpen : s.closed = false) (kept : peer.httpTask = s.peer.httpTask)
    (trace : peer.trace = s.peer.trace ++ events) (quiet : Trace.framed events = [])
    (stream : (Trace.cgiStream peer.trace).1 = (Trace.cgiStream s.peer.trace).1)
    (child : ∀ executor, peer.cgiExecutor = .live executor →
      ∃ before, s.peer.cgiExecutor = .live before) : Feeds ⟨s.request, peer, closed⟩ where
  awaited := by
    intro _ task live state
    have before := feeds.awaited isOpen task (kept.symm.trans live) state
    simpa only [HasBody, state] using before
  child := feeds.child.keeps trace quiet stream child

private theorem Feeds.received {peer : Peer} {closed : Bool} (feeds : Feeds s)
    (isOpen : s.closed = false) (received : Receives s.peer peer) :
    Feeds ⟨s.request, peer, closed⟩ := by
  have same (executor : CgiExecutor) (live : s.peer.cgiExecutor = .live executor) :
      ∃ before, s.peer.cgiExecutor = .live before := ⟨executor, live⟩
  cases received with
  | nothing => exact feeds.keeps isOpen rfl (List.append_nil _).symm rfl rfl same
  | bytes inv content =>
      refine feeds.keeps isOpen rfl rfl rfl ?_ same
      simp [Peer.record, Trace.cgiStream, Trace.cgiStep]

private theorem Feeds.called {request : Ptr RequestCell} {peer : Peer} (code : Code)
    (live : peer.httpTask = .live task) (buffered : Buffered peer)
    (awaited : task.state = .recvBody → HasBody ⟨request, task, peer⟩) :
    Feeds (afterCall code request peer) := by
  have returned : Buffered (peer.record [.returned code]) := by
    refine buffered.keeps rfl rfl ?_ fun executor live => ⟨executor, live⟩
    simp [Peer.record, Trace.cgiStream, Trace.cgiStep]
  have waits {next : Peer} (same : next.httpTask = peer.httpTask) (after : HttpTask)
      (isLive : next.httpTask = .live after) (state : after.state = .recvBody) :
      HasBody ⟨request, after, next⟩ := by
    cases isLive.symm.trans (same.trans live)
    simpa only [HasBody, state] using awaited state
  cases code with
  | closeConnImmediately => exact ⟨by simp [afterCall], returned⟩
  | closeConn => exact ⟨fun _ => waits rfl, returned⟩
  | keepConn => exact ⟨fun _ => waits rfl, returned⟩

theorem StepCases.feeds (own : event.own = true) (isOpen : s.closed = false)
    (inv : s.peer.Inv task) (feeds : Feeds s) (step : StepCases cfg s task event t) : Feeds t := by
  have same (executor : CgiExecutor) (live : s.peer.cgiExecutor = .live executor) :
      ∃ before, s.peer.cgiExecutor = .live before := ⟨executor, live⟩
  cases step with
  | deliver got => exact feeds.received isOpen got
  | recv got => exact feeds.received isOpen got
  | @call os code h called effect valid =>
      rcases handleHttp_cases inv.live called with
        ⟨waiting, _, same, unchanged⟩ | ⟨notWaiting, last, same, shape, ran⟩
      · rw [unchanged]
        refine .called code inv.live feeds.child fun state => ?_
        cases waiting.symm.trans state
      · have start : HasBody ⟨s.request, task, s.peer⟩ := by
          have resting := inv.resting
          unfold HttpTask.Resting at resting
          cases state : task.state with
          | recvBody => exact feeds.awaited isOpen task inv.live state
          | checkCgi =>
              rw [state] at resting
              exact resting.elim
          | _ => simp only [HasBody, state]
        obtain ⟨buffered, awaited⟩ := httpLoop_buffered
          ⟨inv.valid, inv.sending, inv.receiving⟩ (inv.child.idle notWaiting) start ran
        rw [same, shape]
        refine .called code rfl buffered fun state => ?_
        simpa only [HasBody, state] using awaited state
  | send sent =>
      cases sent with
      | nothing empty => exact feeds.keeps isOpen rfl (List.append_nil _).symm rfl rfl same
      | accepted count answered bufInv left =>
          refine feeds.keeps isOpen rfl rfl rfl ?_ same
          simp [Peer.record, Trace.cgiStream, Trace.cgiStep]
      | failed bufInv => exact feeds.keeps isOpen rfl (List.append_nil _).symm rfl rfl same
  | toCgi child sent =>
      cases sent with
      | nothing empty => exact feeds.keeps isOpen rfl (List.append_nil _).symm rfl rfl same
      | accepted count bufInv left =>
          refine feeds.keeps isOpen rfl rfl rfl ?_ fun _ _ => ⟨_, child⟩
          simp [Peer.record, Trace.cgiStream, Trace.cgiStep]
      | failed bufInv refused =>
          exact feeds.keeps isOpen rfl (List.append_nil _).symm rfl rfl fun _ _ => ⟨_, child⟩
  | @fromCgi _ executor _ _ child piped =>
      cases piped with
      | full => exact feeds.keeps isOpen rfl (List.append_nil _).symm rfl rfl same
      | failed => exact feeds.keeps isOpen rfl (List.append_nil _).symm rfl rfl same
      | ended live =>
          refine ⟨?_, ?_⟩
          · rintro _ _ ⟨⟩ state
            cases state
          · intro _ impossible
            cases impossible
      | @piped bytes data next taken puts =>
          obtain ⟨sendingBuffer, rfl⟩ := puts.frame
          refine feeds.keeps isOpen rfl (List.append_assoc ..) ?_ ?_ same
          · rw [Trace.framed_append, Trace.framed_map_put]
            rfl
          · simp only [Peer.record]
            rw [Trace.cgiStream_map_put]
            simp [Trace.cgiStream, Trace.cgiStep]
  | noChild => exact feeds
  | others => cases own

end Session

theorem freshSession_feeds {slot : Peer} (vacant : Vacant slot) (request : Ptr RequestCell)
    (newClientSock : Nat) (clientAddr : Address) (conn : Nat) :
    Feeds (freshSession request slot newClientSock clientAddr conn) where
  awaited := by
    rintro _ _ ⟨⟩ state
    cases state
  child := fun executor running => absurd running (vacant.idle executor)

theorem cgi_body_buffered {cfg : Config} {slot : Peer} (vacant : Vacant slot)
    {request : Ptr RequestCell} {newClientSock : Nat} {clientAddr : Address} {conn : Nat}
    {events : List PeerEvent} (own : ∀ event ∈ events, event.own = true)
    (short : ∀ event ∈ events, ShortWrite event) {s : Session}
    (ran : sessionRun cfg events (freshSession request slot newClientSock clientAddr conn) =
      .ok s)
    {executor : CgiExecutor} (running : s.peer.cgiExecutor = .live executor) {block body : Bytes}
    (last : lastFramed s.peer = some (block, some body)) :
    (Trace.cgiStream s.peer.trace).2 ++ executor.pending = (cgiBufferOf body).2 := by
  have start := freshSession_inv vacant request newClientSock clientAddr conn
  have streams := sessionRun_streams short start
    (freshSession_streams vacant request newClientSock clientAddr conn) ran
  have feeds : Feeds s := sessionRun_keeps
    (fun isOpen valid kept permitted step => step.feeds permitted isOpen valid kept) start
    (freshSession_feeds vacant request newClientSock clientAddr conn) own ran
  rw [streams.child executor running]
  exact feeds.child executor running block body last

/-- Once its buffer is empty, a child has got the whole body of its request if and only if that is
no longer than the buffer. -/
theorem cgi_body_delivered_iff (cfg : Config) {slot : Peer} (vacant : Vacant slot)
    (request : Ptr RequestCell) (newClientSock : Nat) (clientAddr : Address) (conn : Nat)
    (events : List PeerEvent) (own : ∀ event ∈ events, event.own = true)
    (short : ∀ event ∈ events, ShortWrite event) (s : Session)
    (ran : sessionRun cfg events (freshSession request slot newClientSock clientAddr conn) =
      .ok s)
    (executor : CgiExecutor) (running : s.peer.cgiExecutor = .live executor)
    (empty : executor.pending = []) (earlier : List (Bytes × Option Bytes)) (block body : Bytes)
    (last : Trace.framed s.peer.trace = earlier ++ [(block, some body)]) (some : body ≠ []) :
    (Trace.cgiStream s.peer.trace).2 = body ↔ body.length ≤ bufDataMaxsize := by
  have isLast : lastFramed s.peer = .some (block, .some body) := by
    rw [lastFramed, last]
    exact List.getLast?_concat
  have written := cgi_body_buffered vacant own short ran running isLast
  rw [empty, List.append_nil] at written
  rw [written]
  exact cgiBufferOf_whole some

def shortBodyHead : Bytes := str "POST /cgi/x HTTP/1.1\r\nContent-Length: 4\r\n\r\n"

def shortBodyEvents : List PeerEvent :=
  [.deliver (shortBodyHead ++ str "a"), .call (sampleOs true),
   .deliver (str "bcd"), .call (sampleOs true), .toCgi (.accepted 3), .toCgi (.accepted 8)]

def fedWhole : Ptr CgiExecutor → Bool
  | .live executor => executor.pending = []
  | _ => false

theorem cgi_body_delivered_iff_short : ∃ s,
    sessionRun sampleConfig shortBodyEvents sampleStart = .ok s ∧
      (Trace.cgiStream s.peer.trace).2 = str "abcd" := by
  have reached : (sessionRun sampleConfig shortBodyEvents sampleStart).map (fun s =>
      fedWhole s.peer.cgiExecutor &&
        Trace.framed s.peer.trace = [(shortBodyHead, some (str "abcd"))]) = .ok true := by
    decide +kernel
  have own : ∀ event ∈ shortBodyEvents, event.own = true := by
    simp [shortBodyEvents, PeerEvent.own]
  have short : ∀ event ∈ shortBodyEvents, ShortWrite event := by
    simp [shortBodyEvents, ShortWrite]
  cases ran : sessionRun sampleConfig shortBodyEvents sampleStart with
  | error fault =>
      rw [ran] at reached
      cases reached
  | ok s =>
      rw [ran] at reached
      have both := Except.ok.inj reached
      rw [Bool.and_eq_true, decide_eq_true_eq] at both
      cases child : s.peer.cgiExecutor with
      | null => simp [child, fedWhole] at both
      | freed => simp [child, fedWhole] at both
      | live executor =>
          simp only [child, fedWhole, decide_eq_true_eq] at both
          exact ⟨s, rfl, (cgi_body_delivered_iff sampleConfig createPeer_vacant .null 5
            ⟨str "1.2.3.4", 80⟩ 0 shortBodyEvents own short s ran executor child both.1 []
            shortBodyHead (str "abcd") both.2 (by decide)).mpr (by decide)⟩

section Arrival

variable {cfg : Config} {os : Os} {h : Handling} {text : Bytes}

private theorem recvBodyState_short (receiving : h.peer.receivingBuffer.Inv)
    (part : BodyPart h.task text)
    (missing : (text ++ h.peer.receivingBuffer.content).length < h.task.bodyBytesNum) :
    ∃ postBody postBodyIdx receivingBuffer,
      recvBodyState h = .ok (.returns .keepConn ⟨h.request,
        { h.task with postBody, postBodyIdx }, { h.peer with receivingBuffer }⟩) ∧
      BodyPart { h.task with postBody, postBodyIdx } (text ++ h.peer.receivingBuffer.content) ∧
      receivingBuffer.content = [] := by
  obtain ⟨result, ran, read⟩ := recvBodyLoop_read part receiving part.missing
  simp only [recvBodyState, ran]
  cases read with
  | short part missing left empty => exact ⟨_, _, _, rfl, part, empty⟩
  | whole part full split left =>
      have same := congrArg List.length split
      simp only [List.length_append, full] at same missing
      omega

private theorem recvBodyState_whole (receiving : h.peer.receivingBuffer.Inv)
    (part : BodyPart h.task text)
    (whole : (text ++ h.peer.receivingBuffer.content).length = h.task.bodyBytesNum) :
    ∃ postBody postBodyIdx receivingBuffer,
      postBodyBytes { h.task with postBody, postBodyIdx } =
        some (text ++ h.peer.receivingBuffer.content) ∧
      recvBodyState h = .ok (.again ⟨h.request,
        { h.task with state := .checkCgi, postBody, postBodyIdx },
        ({ h.peer with receivingBuffer } : Peer).record
          [.framed (h.task.parseBuf.read h.task.parseBufIdx)
            (some (text ++ h.peer.receivingBuffer.content))]⟩) := by
  obtain ⟨result, ran, read⟩ := recvBodyLoop_read part receiving part.missing
  simp only [recvBodyState, ran]
  cases read with
  | short part missing left empty => exact absurd whole (Nat.ne_of_lt missing)
  | @whole body postBody postBodyIdx left part full split inv =>
      have none : left.content = [] := by
        have same := congrArg List.length split
        simp only [List.length_append, full] at same whole
        exact List.eq_nil_of_length_eq_zero (by omega)
      have bytes : postBodyBytes { h.task with postBody, postBodyIdx } =
          some (text ++ h.peer.receivingBuffer.content) := by
        obtain ⟨block, isBlock, size, stored⟩ := part.stored
        have index := part.index
        rw [split, none, List.append_nil, ← stored, index, full]
        exact congrArg (Option.map _) isBlock
      refine ⟨postBody, postBodyIdx, left, bytes, ?_⟩
      rw [← bytes]

private theorem startCgi_starts {request : Request} {param : CgiParam} {body : Bytes}
    (built : buildCgiParam cfg.cgiScripts request h.peer.addres = .ok param)
    (bodied : cgiBody h.task request = .ok body) (vacant : h.peer.cgiExecutor = .null)
    (forks : os.stdinPipe ≠ none ∧ os.stdoutPipe ≠ none ∧ os.fork = true) :
    ∃ code next executor events, startCgi cfg os h request =
        .ok (.returns code ⟨h.request, { h.task with state := .processingCgi }, next⟩) ∧
      next.cgiExecutor = .live executor ∧ next.trace = h.peer.trace ++ events ∧
      Trace.framed events = [] := by
  obtain ⟨stdin, stdout, fork⟩ := forks
  obtain ⟨stdinPipe, hasStdin⟩ := Option.ne_none_iff_exists'.mp stdin
  obtain ⟨stdoutPipe, hasStdout⟩ := Option.ne_none_iff_exists'.mp stdout
  have same : cgiBody { h.task with state := .processingCgi } request = .ok body := bodied
  simp only [startCgi, built, same, ok_bind, startCgiScript, vacant, hasStdin, hasStdout, fork,
    if_true, pure_ok]
  exact ⟨_, _, _, _, rfl, rfl, rfl, rfl⟩

end Arrival

section Calls

variable {s : Session} {task : HttpTask} {text : Bytes}

private theorem httpPass_recvBody {cfg : Config} {os : Os} {h : Handling}
    (state : h.task.state = .recvBody) :
    httpPass cfg os h = recvBodyState h := by
  unfold httpPass
  simp only [state]

private structure Awaits (s t : Session) : Prop where
  isOpen : t.closed = false
  request : t.request = s.request
  executor : t.peer.cgiExecutor = s.peer.cgiExecutor
  addres : t.peer.addres = s.peer.addres
  framed : Trace.framed t.peer.trace = Trace.framed s.peer.trace

private theorem Awaits.trans {s t u : Session} (first : Awaits s t) (second : Awaits t u) :
    Awaits s u where
  isOpen := second.isOpen
  request := second.request.trans first.request
  executor := second.executor.trans first.executor
  addres := second.addres.trans first.addres
  framed := second.framed.trans first.framed

private theorem step_deliver (cfg : Config) {piece : Bytes} (isOpen : s.closed = false)
    (inv : s.peer.Inv task)
    (empty : s.peer.receivingBuffer.content = []) (fits : piece.length ≤ bufDataMaxsize) :
    ∃ t, sessionStep cfg s (.deliver piece) = .ok t ∧ Awaits s t ∧ t.peer.Inv task ∧
      t.peer.receivingBuffer.content = piece := by
  have received := (deliver_receives inv.receiving piece).inv inv
  obtain ⟨receivingBuffer, delivered, _, content⟩ := deliver_fits inv.receiving
    (show s.peer.receivingBuffer.content.length + piece.length ≤ bufDataMaxsize by
      rw [empty, List.length_nil]
      omega)
  rw [empty, List.nil_append] at content
  rw [delivered] at received
  have stepped : sessionStep cfg s (.deliver piece) = .ok { s with
      peer := { s.peer with receivingBuffer }.record [.received piece] } := by
    unfold sessionStep
    rw [if_neg (by simp [isOpen])]
    simp only [delivered]
  refine ⟨_, stepped, ⟨isOpen, rfl, rfl, rfl, ?_⟩, received, content⟩
  exact (Trace.framed_append _ _).trans (List.append_nil _)

private theorem call_bodyShort (cfg : Config) (os : Os) (isOpen : s.closed = false)
    (inv : s.peer.Inv task)
    (state : task.state = .recvBody) (part : BodyPart task text)
    (missing : (text ++ s.peer.receivingBuffer.content).length < task.bodyBytesNum) :
    ∃ t postBody postBodyIdx, sessionStep cfg s (.call os) = .ok t ∧ Awaits s t ∧
      t.peer.Inv { task with postBody, postBodyIdx } ∧
      BodyPart { task with postBody, postBodyIdx } (text ++ s.peer.receivingBuffer.content) ∧
      t.peer.receivingBuffer.content = [] := by
  have start : BodyPart (Handling.task ⟨s.request, task, s.peer⟩) text := part
  obtain ⟨postBody, postBodyIdx, left, ran, part, empty⟩ :=
    recvBodyState_short inv.receiving start missing
  have stepped := sessionStep_call cfg os s isOpen inv.live (by simp [state])
    (by simp [state])
  rw [httpPass_recvBody state, ran] at stepped
  obtain ⟨after, valid⟩ := sessionStep_inv (fun _ => ⟨task, inv⟩) stepped rfl
  cases valid.live
  refine ⟨_, postBody, postBodyIdx, stepped, ⟨rfl, rfl, rfl, rfl, ?_⟩, valid, part, empty⟩
  exact (Trace.framed_append _ _).trans (List.append_nil _)

private theorem call_bodyWhole (cfg : Config) (os : Os) {cell : RequestCell} {param : CgiParam}
    (isOpen : s.closed = false) (inv : s.peer.Inv task) (state : task.state = .recvBody)
    (part : BodyPart task text)
    (whole : (text ++ s.peer.receivingBuffer.content).length = task.bodyBytesNum)
    (live : s.request = .live cell) (cgi : isCgi cell.request.httpUri = true)
    (built : buildCgiParam cfg.cgiScripts cell.request s.peer.addres = .ok param)
    (vacant : s.peer.cgiExecutor = .null)
    (forks : os.stdinPipe ≠ none ∧ os.stdoutPipe ≠ none ∧ os.fork = true) :
    ∃ t executor, sessionStep cfg s (.call os) = .ok t ∧ t.peer.cgiExecutor = .live executor ∧
      Trace.framed t.peer.trace = Trace.framed s.peer.trace ++
        [(task.parseBuf.read task.parseBufIdx,
          some (text ++ s.peer.receivingBuffer.content))] := by
  have start : BodyPart (Handling.task ⟨s.request, task, s.peer⟩) text := part
  obtain ⟨postBody, postBodyIdx, left, bytes, ran⟩ :=
    recvBodyState_whole inv.receiving start whole
  rw [sessionStep_call cfg os s isOpen inv.live (by simp [state]) (by simp [state]),
    httpPass_recvBody state, ran]
  generalize complete : (⟨s.request, { task with state := .checkCgi, postBody, postBodyIdx },
    ({ s.peer with receivingBuffer := left } : Peer).record
      [.framed (task.parseBuf.read task.parseBufIdx)
        (some (text ++ s.peer.receivingBuffer.content))]⟩ : Handling) = h
  have bodied : ∃ body, cgiBody h.task cell.request = .ok body := by
    obtain ⟨block, isBlock, _⟩ := Option.map_eq_some_iff.mp bytes
    have stored : h.task.postBody = some block := by
      rw [← complete]
      exact isBlock
    unfold cgiBody
    split
    · rw [stored]
      exact ⟨_, rfl⟩
    · exact ⟨_, rfl⟩
  obtain ⟨body, bodied⟩ := bodied
  have free : h.peer.cgiExecutor = .null := by
    rw [← complete]
    exact vacant
  have made : buildCgiParam cfg.cgiScripts cell.request h.peer.addres = .ok param := by
    rw [← complete]
    exact built
  obtain ⟨code, next, executor, events, started, running, trace, quiet⟩ :=
    startCgi_starts made bodied free forks
  have pass : httpPass cfg os h =
      .ok (.returns code ⟨h.request, { h.task with state := .processingCgi }, next⟩) := by
    have state : h.task.state = .checkCgi := by rw [← complete]
    have request : h.request = .live cell := by
      rw [← complete]
      exact live
    unfold httpPass
    simp only [state, checkCgiState, request, Ptr.deref, cgi, if_true]
    rw [started, request]
  have loop : httpLoop cfg os 6 h =
      some (.ok (code, ⟨h.request, { h.task with state := .processingCgi }, next⟩)) := by
    have more : h.task.state ≠ .finished := by
      rw [← complete]
      simp
    rw [httpLoop, if_neg more, pass]
  simp only [loop]
  have framed : Trace.framed next.trace = Trace.framed s.peer.trace ++
      [(task.parseBuf.read task.parseBufIdx,
        some (text ++ s.peer.receivingBuffer.content))] := by
    calc
      Trace.framed next.trace = Trace.framed h.peer.trace := by
        rw [trace, Trace.framed_append, quiet, List.append_nil]
      _ = _ := by
        rw [← complete]
        exact Trace.framed_append _ _
  refine ⟨_, executor, rfl, ?_, ?_⟩
  · cases code <;> exact running
  · rw [← framed]
    have returned (peer : Peer) : Trace.framed (peer.record [.returned code]).trace =
        Trace.framed peer.trace := (Trace.framed_append _ _).trans (List.append_nil _)
    cases code <;> exact returned _

end Calls

def longBodyHead : Bytes := str "POST /cgi/x HTTP/1.1\r\nContent-Length: 8193\r\n\r\n"

def fullPiece : Bytes := List.replicate bufDataMaxsize 0x61

def longBodyEvents : List PeerEvent :=
  [.deliver longBodyHead, .call (sampleOs true)] ++
    [.deliver fullPiece, .call (sampleOs true), .deliver (str "a"), .call (sampleOs true)]

def awaitsBody (cfg : Config) (length : Nat) (s : Session) : Bool :=
  match s.peer.httpTask, s.request, s.peer.cgiExecutor with
  | .live task, .live cell, .null =>
      !s.closed && task.state = .recvBody && task.bodyBytesNum = length && task.postBodyIdx = 0 &&
        isCgi cell.request.httpUri &&
        (buildCgiParam cfg.cgiScripts cell.request s.peer.addres).isOk &&
        s.peer.receivingBuffer.content = [] && Trace.framed s.peer.trace = []
  | _, _, _ => false

private theorem awaitsBody_cases {cfg : Config} {length : Nat} {s : Session}
    (waiting : awaitsBody cfg length s = true) :
    ∃ task cell param, s.peer.httpTask = .live task ∧ s.request = .live cell ∧
      s.peer.cgiExecutor = .null ∧ s.closed = false ∧ task.state = .recvBody ∧
      task.bodyBytesNum = length ∧ task.postBodyIdx = 0 ∧ isCgi cell.request.httpUri = true ∧
      buildCgiParam cfg.cgiScripts cell.request s.peer.addres = .ok param ∧
      s.peer.receivingBuffer.content = [] ∧ Trace.framed s.peer.trace = [] := by
  unfold awaitsBody at waiting
  split at waiting
  · next task cell live isLive vacant =>
      simp only [Bool.and_eq_true, Bool.not_eq_true', decide_eq_true_eq] at waiting
      obtain ⟨⟨⟨⟨⟨⟨⟨isOpen, state⟩, number⟩, index⟩, cgi⟩, built⟩, nothing⟩, unframed⟩ := waiting
      cases made : buildCgiParam cfg.cgiScripts cell.request s.peer.addres with
      | error fault =>
          rw [made] at built
          cases built
      | ok param =>
          exact ⟨task, cell, param, live, isLive, vacant, isOpen, state, number, index, cgi, made,
            nothing, unframed⟩
  · cases waiting

private theorem longBody_arrives {cfg : Config} {os : Os} {s : Session} {byte : UInt8}
    (inv : s.Inv) (waiting : awaitsBody cfg (bufDataMaxsize + 1) s = true)
    (forks : os.stdinPipe ≠ none ∧ os.stdoutPipe ≠ none ∧ os.fork = true) {piece : Bytes}
    (full : piece.length = bufDataMaxsize) :
    ∃ t executor block,
      sessionRun cfg [.deliver piece, .call os, .deliver [byte], .call os] s = .ok t ∧
        t.peer.cgiExecutor = .live executor ∧
        Trace.framed t.peer.trace = [(block, some (piece ++ [byte]))] := by
  obtain ⟨task, cell, param, live, isLive, vacant, isOpen, state, number, index, cgi, built,
    nothing, unframed⟩ := awaitsBody_cases waiting
  obtain ⟨same, valid⟩ := inv isOpen
  cases valid.live.symm.trans live
  have part : BodyPart task [] := by
    have ready := valid.valid.ready
    simp only [HttpTask.Ready, state] at ready
    obtain ⟨_, _, text, part⟩ := ready
    have none : text = [] := List.eq_nil_of_length_eq_zero (part.index.symm.trans index)
    rwa [none] at part
  obtain ⟨s1, first, moved, firstInv, content⟩ :=
    step_deliver cfg isOpen valid nothing (Nat.le_of_eq full)
  obtain ⟨s2, postBody, postBodyIdx, second, more, secondInv, partly, empty⟩ :=
    call_bodyShort cfg os moved.isOpen firstInv state part (by
      rw [List.nil_append, number, content, full]
      exact Nat.lt_succ_self _)
  rw [List.nil_append, content] at partly
  have one : [byte].length ≤ bufDataMaxsize := by
    rw [List.length_singleton]
    decide
  obtain ⟨s3, third, last, thirdInv, rest⟩ := step_deliver cfg more.isOpen secondInv empty one
  have waits := (moved.trans more).trans last
  obtain ⟨t, executor, fourth, running, framed⟩ :=
    call_bodyWhole cfg os waits.isOpen thirdInv state partly (by
      rw [rest, List.length_append, full]
      exact number.symm) (waits.request.trans isLive) cgi (by rw [waits.addres]; exact built)
      (waits.executor.trans vacant) forks
  refine ⟨t, executor, task.parseBuf.read task.parseBufIdx, ?_, running, ?_⟩
  · exact Run.run_cons_ok.mpr ⟨_, first, Run.run_cons_ok.mpr ⟨_, second,
      Run.run_cons_ok.mpr ⟨_, third, Run.run_cons_ok.mpr ⟨_, fourth, rfl⟩⟩⟩⟩
  · rw [framed, waits.framed, unframed, rest]
    rfl

/-- None of a body of one byte more than the buffer holds gets to the child. -/
theorem cgi_body_not_delivered : ∃ s executor block,
    sessionRun sampleConfig longBodyEvents sampleStart = .ok s ∧
      s.peer.cgiExecutor = .live executor ∧ executor.pending = [] ∧
      Trace.framed s.peer.trace = [(block, some (fullPiece ++ str "a"))] ∧
      (Trace.cgiStream s.peer.trace).2 ≠ fullPiece ++ str "a" := by
  have begun : (sessionRun sampleConfig [.deliver longBodyHead, .call (sampleOs true)]
      sampleStart).map (awaitsBody sampleConfig (bufDataMaxsize + 1)) = .ok true := by
    decide +kernel
  have full : fullPiece.length = bufDataMaxsize := List.length_replicate
  have forks : (sampleOs true).stdinPipe ≠ none ∧ (sampleOs true).stdoutPipe ≠ none ∧
      (sampleOs true).fork = true := ⟨by simp [sampleOs], by simp [sampleOs], rfl⟩
  have own : ∀ event ∈ longBodyEvents, event.own = true := by
    simp [longBodyEvents, PeerEvent.own]
  have short : ∀ event ∈ longBodyEvents, ShortWrite event := by
    simp [longBodyEvents, ShortWrite]
  cases taken : sessionRun sampleConfig [.deliver longBodyHead, .call (sampleOs true)]
      sampleStart with
  | error fault =>
      rw [taken] at begun
      cases begun
  | ok s =>
      rw [taken] at begun
      have inv := sessionRun_inv (freshSession_inv createPeer_vacant _ _ _ _) taken
      obtain ⟨t, executor, block, later, running, framed⟩ :=
        longBody_arrives inv (Except.ok.inj begun) forks full
      have ran : sessionRun sampleConfig longBodyEvents sampleStart = .ok t :=
        Run.run_append_ok.mpr ⟨s, taken, later⟩
      have last : lastFramed t.peer = some (block, some (fullPiece ++ str "a")) := by
        rw [lastFramed, framed]
        rfl
      have dropped : (cgiBufferOf (fullPiece ++ str "a")).2 = [] := by
        apply cgiBufferOf_long
        rw [List.length_append, full]
        exact Nat.lt_succ_self _
      have nothing := cgi_body_buffered createPeer_vacant own short ran running last
      rw [dropped, List.append_eq_nil_iff] at nothing
      refine ⟨t, executor, block, ran, running, nothing.2, framed, ?_⟩
      rw [nothing.1]
      exact (List.append_ne_nil_of_right_ne_nil _ (by decide)).symm

end Liso
