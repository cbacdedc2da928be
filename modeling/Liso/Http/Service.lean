import Liso.Http.Outcomes
import Liso.Http.Replies

/-! What a connection is for: a service that takes its requests one after the other and gives each
of them its reply, and how far the task is with the reply to the latest one. -/

namespace Liso

namespace Trace

/-- At some time the client had left the whole of a sending buffer unsent. -/
def Backlogged (trace : List Event) : Prop :=
  ∃ past, past <+: trace ∧ (puts past).length = (sent past).length + bufDataMaxsize

theorem Backlogged.append {front : List Event} (backlogged : Backlogged front)
    (back : List Event) : Backlogged (front ++ back) := by
  obtain ⟨past, first, full⟩ := backlogged
  exact ⟨past, first.trans (List.prefix_append _ _), full⟩

end Trace

/-- What is still sent of a file: its end is sent as well, if it is reached. -/
def File.remaining (file : File) : Bytes :=
  if file.fails then file.rest else file.rest ++ [eofChar]

/-- The replies without a child: a head, and the file that comes after it. -/
inductive StaticReply (cfg : Config) (request : Request) : Bytes → Bytes → Prop
  | bare {os : Os} {code : Int} {head : Bytes} (outcome : HeadOutcome cfg os request code head)
      (noFile : code = okNum → request.httpMethod ≠ str "GET")
      (static : isCgi request.httpUri = true → code = lengthRequireNum ∨ code = notImplementedNum) :
      StaticReply cfg request head []
  | file {os : Os} {fullpath : Bytes} {changed : Request} {facts : Described} {file : File}
      (get : request.httpMethod = str "GET") (static : isCgi request.httpUri = false)
      (path : makeFullPath cfg.wwwDir request = .ok (fullpath, changed))
      (present : os.access fullpath = true)
      (described : describe os (loweredPath fullpath) = .ok facts)
      (hasFile : os.fopen (loweredPath fullpath) = some file) :
      StaticReply cfg request (getHead os facts fullpath (asksClose request)) file.remaining

def Promised (cfg : Config) (block head rest : Bytes) : Prop :=
  ∃ request, cfg.parse block = .ok (some request) ∧ StaticReply cfg request head rest

def ForChild (cfg : Config) (block : Bytes) : Prop :=
  ∃ request, cfg.parse block = .ok (some request) ∧ isCgi request.httpUri = true ∧
    (fetches request = true ∨ bodyLength cfg request ≠ none)

/-- The reply to a request, and what its child wrote if it has one. Unless `whole` a head may lack
its end. -/
inductive Reply (cfg : Config) (whole : Prop) : Bytes × Option Bytes → List Bytes → Bytes → Prop
  | static {block head rest front : Bytes} {body : Option Bytes}
      (promised : Promised cfg block head rest) (part : front <+: head)
      (uncut : whole → front = head) : Reply cfg whole (block, body) [] (front ++ rest)
  | child {block output : Bytes} {body : Option Bytes} (forChild : ForChild cfg block) :
      Reply cfg whole (block, body) [output] output

/-- The requests that were taken, what the children of some of them wrote, and the replies. -/
inductive Service (cfg : Config) (whole : Prop) :
    List (Bytes × Option Bytes) → List Bytes → List Bytes → Prop
  | start : Service cfg whole [] [] []
  | answer {frames : List (Bytes × Option Bytes)} {frame : Bytes × Option Bytes}
      {children child replies : List Bytes} {reply : Bytes}
      (earlier : Service cfg whole frames children replies)
      (answers : Reply cfg whole frame child reply) :
      Service cfg whole (frames ++ [frame]) (children ++ child) (replies ++ [reply])

section Service

variable {cfg : Config} {whole always : Prop} {frames : List (Bytes × Option Bytes)}
  {children replies : List Bytes}

theorem Reply.mono {frame : Bytes × Option Bytes} {child : List Bytes} {reply : Bytes}
    (answers : Reply cfg whole frame child reply) (weaken : always → whole) :
    Reply cfg always frame child reply := by
  cases answers with
  | static promised part uncut => exact .static promised part (uncut ∘ weaken)
  | child forChild => exact .child forChild

theorem Service.mono (service : Service cfg whole frames children replies)
    (weaken : always → whole) : Service cfg always frames children replies := by
  induction service with
  | start => exact .start
  | answer earlier answers ih => exact .answer ih (answers.mono weaken)

end Service

def Chosen (cfg : Config) (task : HttpTask) (request : Request) : Prop :=
  task.methodType = .post ∧ bodyLength cfg request ≠ none ∨
    (task.methodType = .get ∨ task.methodType = .head) ∧
      request.httpMethod = (if task.methodType = .get then str "GET" else str "HEAD") ∧
      task.lastRequest = asksClose request

def AtHand (cfg : Config) (request : Ptr RequestCell) (task : HttpTask) (block : Bytes) : Prop :=
  ∃ cell, request = .live cell ∧ cfg.parse block = .ok (some cell.request) ∧
    Chosen cfg task cell.request ∧ task.responseBuf.content = []

def Followed (task : HttpTask) (rest : Bytes) : Prop :=
  afterHead task = .finished ∧ rest = [] ∨
    afterHead task = .sendBody ∧ ∃ file, task.fp = .live file ∧ rest = file.remaining

/-- How far the task is with the latest request: whether it was completed, what its child wrote and
what was put for it. -/
def Underway (cfg : Config) (whole : Prop) (request : Ptr RequestCell) (task : HttpTask)
    (pending : List (Bytes × Option Bytes)) (child : List Bytes) (current : Bytes) : Prop :=
  match task.state with
  | .recvBody =>
      (pending = [] ∧ child = [] ∧ current = []) ∧
        AtHand cfg request task (task.parseBuf.read task.parseBufIdx)
  | .checkCgi =>
      (child = [] ∧ current = []) ∧ ∃ block body, pending = [(block, body)] ∧
        AtHand cfg request task block
  | .generateHeader =>
      (child = [] ∧ current = []) ∧ ∃ block body, pending = [(block, body)] ∧
        Promised cfg block (responseHead task ++ nonbodyHead task.responseCode) []
  | .sendHeader =>
      (child = [] ∧ current = []) ∧ ∃ block body rest, pending = [(block, body)] ∧
        Promised cfg block (responseHead task) rest ∧ Followed task rest
  | .sendBody =>
      child = [] ∧ ∃ block body front past file, pending = [(block, body)] ∧
        current = front ++ past ∧ task.fp = .live file ∧
        ∃ head, Promised cfg block head (past ++ file.remaining) ∧ front <+: head ∧
          (whole → front = head)
  | .processingCgi =>
      ∃ block body, pending = [(block, body)] ∧ child = [current] ∧ ForChild cfg block
  | _ =>
      pending = [] ∧ child = [] ∧ current = [] ∨
        ∃ frame, pending = [frame] ∧ Reply cfg whole frame child current

section Underway

variable {cfg : Config} {whole always : Prop} {request after : Ptr RequestCell}
  {task next : HttpTask} {pending frames : List (Bytes × Option Bytes)}
  {child children replies : List Bytes} {current : Bytes}

theorem Underway.mono (underway : Underway cfg whole request task pending child current)
    (weaken : always → whole) : Underway cfg always request task pending child current := by
  have idle (done : pending = [] ∧ child = [] ∧ current = [] ∨
      ∃ frame, pending = [frame] ∧ Reply cfg whole frame child current) :
      pending = [] ∧ child = [] ∧ current = [] ∨
        ∃ frame, pending = [frame] ∧ Reply cfg always frame child current :=
    done.imp_right fun ⟨frame, isFrame, answers⟩ => ⟨frame, isFrame, answers.mono weaken⟩
  cases state : task.state with
  | recvHeader =>
      simp only [Underway, state] at underway ⊢
      exact idle underway
  | finished =>
      simp only [Underway, state] at underway ⊢
      exact idle underway
  | sendBody =>
      simp only [Underway, state] at underway ⊢
      obtain ⟨none, block, body, front, past, file, isFrame, bytes, live, head, promised, part,
        uncut⟩ := underway
      exact ⟨none, block, body, front, past, file, isFrame, bytes, live, head, promised, part,
        uncut ∘ weaken⟩
  | recvBody => simpa only [Underway, state] using underway
  | checkCgi => simpa only [Underway, state] using underway
  | generateHeader => simpa only [Underway, state] using underway
  | sendHeader => simpa only [Underway, state] using underway
  | processingCgi => simpa only [Underway, state] using underway

theorem Underway.between (between : task.Between) :
    Underway cfg whole request task pending child current ↔
      pending = [] ∧ child = [] ∧ current = [] ∨
        ∃ frame, pending = [frame] ∧ Reply cfg whole frame child current := by
  rcases between with state | state <;> simp only [Underway, state]

theorem Underway.keeps (underway : Underway cfg whole request task pending child current)
    (between : task.Between) (later : next.Between) :
    Underway cfg whole after next pending child current :=
  (Underway.between later).mpr ((Underway.between between).mp underway)

/-- Between two calls what was put for the latest request begins its reply, and is all of it
unless a file is being sent. -/
theorem Underway.ahead (underway : Underway cfg whole request task pending child current)
    (resting : task.Resting) (service : Service cfg whole frames children replies) :
    ∃ bytes, Service cfg whole (frames ++ pending) (children ++ child) (replies ++ bytes) ∧
      current <+: bytes.flatten ∧ (task.state ≠ .sendBody → current = bytes.flatten) := by
  have nothing (none : pending = [] ∧ child = [] ∧ current = []) :
      ∃ bytes, Service cfg whole (frames ++ pending) (children ++ child) (replies ++ bytes) ∧
        current <+: bytes.flatten ∧ (task.state ≠ .sendBody → current = bytes.flatten) := by
    obtain ⟨rfl, rfl, rfl⟩ := none
    refine ⟨[], ?_, List.prefix_rfl, fun _ => rfl⟩
    simpa only [List.append_nil] using service
  have done {frame : Bytes × Option Bytes} (isFrame : pending = [frame])
      (answers : Reply cfg whole frame child current) :
      ∃ bytes, Service cfg whole (frames ++ pending) (children ++ child) (replies ++ bytes) ∧
        current <+: bytes.flatten ∧ (task.state ≠ .sendBody → current = bytes.flatten) := by
    subst isFrame
    refine ⟨[current], .answer service answers, ?_⟩
    rw [List.flatten_singleton]
    exact ⟨List.prefix_rfl, fun _ => rfl⟩
  cases state : task.state with
  | recvHeader =>
      rcases (Underway.between (.inl state)).mp underway with none | ⟨frame, isFrame, answers⟩
      · exact state ▸ nothing none
      · exact state ▸ done isFrame answers
  | finished =>
      rcases (Underway.between (.inr state)).mp underway with none | ⟨frame, isFrame, answers⟩
      · exact state ▸ nothing none
      · exact state ▸ done isFrame answers
  | recvBody =>
      simp only [Underway, state] at underway
      exact state ▸ nothing underway.1
  | sendBody =>
      simp only [Underway, state] at underway
      obtain ⟨rfl, block, body, front, past, file, rfl, rfl, live, head, promised, part, uncut⟩ :=
        underway
      refine ⟨[front ++ (past ++ file.remaining)],
        .answer service (.static promised part uncut), ?_, fun other => absurd rfl other⟩
      rw [List.flatten_singleton, ← List.append_assoc]
      exact List.prefix_append _ _
  | processingCgi =>
      simp only [Underway, state] at underway
      obtain ⟨block, body, isFrame, isChild, forChild⟩ := underway
      subst isChild
      exact state ▸ done isFrame (.child forChild)
  | checkCgi => simp [HttpTask.Resting, state] at resting
  | generateHeader => simp [HttpTask.Resting, state] at resting
  | sendHeader => simp [HttpTask.Resting, state] at resting

end Underway

inductive Serving (cfg : Config) (request : Ptr RequestCell) (task : HttpTask)
    (trace : List Event) : Prop
  | account {frames pending : List (Bytes × Option Bytes)} {children child replies : List Bytes}
      {current : Bytes} (service : Service cfg (¬ Trace.Backlogged trace) frames children replies)
      (underway : Underway cfg (¬ Trace.Backlogged trace) request task pending child current)
      (framed : Trace.framed trace = frames ++ pending)
      (wrote : Trace.children trace = children ++ child)
      (put : (Trace.puts trace).map OutByte.val = replies.flatten ++ current) :
      Serving cfg request task trace

section Serving

variable {cfg : Config} {request after : Ptr RequestCell} {task next : HttpTask}
  {trace events : List Event}

theorem Serving.goesOn (serving : Serving cfg request task trace)
    (onward : ∀ {pending child current},
      Underway cfg (¬ Trace.Backlogged (trace ++ events)) request task pending child current →
      ∃ grown, (∀ before, events.foldl Trace.childrenStep (before ++ child) = before ++ grown) ∧
        Underway cfg (¬ Trace.Backlogged (trace ++ events)) after next
          (pending ++ Trace.framed events) grown
          (current ++ (Trace.puts events).map OutByte.val)) :
    Serving cfg after next (trace ++ events) := by
  obtain @⟨_, _, children, _, _, _, service, underway, framed, wrote, put⟩ := serving
  have weaken : ¬ Trace.Backlogged (trace ++ events) → ¬ Trace.Backlogged trace :=
    fun free backlogged => free (backlogged.append events)
  obtain ⟨grown, folds, later⟩ := onward (underway.mono weaken)
  refine .account (service.mono weaken) later ?_ ?_ ?_
  · rw [Trace.framed_append, framed, List.append_assoc]
  · rw [Trace.children_append, wrote, folds]
  · rw [Trace.puts_append, List.map_append, put, List.append_assoc]

theorem Serving.passes (serving : Serving cfg request task trace)
    (passes : ∀ event ∈ events, event.ofPass = true)
    (onward : ∀ {pending child current},
      Underway cfg (¬ Trace.Backlogged (trace ++ events)) request task pending child current →
      Underway cfg (¬ Trace.Backlogged (trace ++ events)) after next
        (pending ++ Trace.framed events) child
        (current ++ (Trace.puts events).map OutByte.val)) :
    Serving cfg after next (trace ++ events) :=
  serving.goesOn fun underway => ⟨_, fun _ => Trace.children_ofPass passes _, onward underway⟩

theorem Serving.still (serving : Serving cfg request task trace)
    (onward : ∀ {whole pending child current},
      Underway cfg whole request task pending child current →
      Underway cfg whole after next pending child current) : Serving cfg after next trace := by
  obtain ⟨service, underway, framed, wrote, put⟩ := serving
  exact .account service (onward underway) framed wrote put

theorem Serving.settle (serving : Serving cfg request task trace) (between : task.Between) :
    ∃ replies, Service cfg (¬ Trace.Backlogged trace) (Trace.framed trace) (Trace.children trace)
      replies ∧ (Trace.puts trace).map OutByte.val = replies.flatten := by
  obtain @⟨_, _, _, _, replies, _, service, underway, framed, wrote, put⟩ := serving
  have resting : task.Resting := by rcases between with state | state <;>
    simp [HttpTask.Resting, state]
  have sent : task.state ≠ .sendBody := by rcases between with state | state <;> simp [state]
  obtain ⟨bytes, whole, _, same⟩ := underway.ahead resting service
  refine ⟨replies ++ bytes, ?_, ?_⟩
  · rw [framed, wrote]
    exact whole
  · rw [put, same sent, List.flatten_append]

theorem Serving.takes (serving : Serving cfg request task trace) (between : task.Between)
    (passes : ∀ event ∈ events, event.ofPass = true) (silent : Trace.puts events = [])
    (onward : ∀ whole, Underway cfg whole after next (Trace.framed events) [] []) :
    Serving cfg after next (trace ++ events) := by
  obtain ⟨replies, service, put⟩ := serving.settle between
  refine .account (service.mono fun free backlogged => free (backlogged.append events)) (onward _)
    (Trace.framed_append _ _) ?_ ?_
  · rw [Trace.children_append, Trace.children_ofPass passes, List.append_nil]
  · rw [Trace.puts_append, silent, List.append_nil, List.append_nil, put]

end Serving

def Flow (peer : Peer) : Prop :=
  Trace.puts peer.trace = Trace.sent peer.trace ++ peer.sendingBuffer.content

theorem Moves.flow {h next : Handling} {events : List Event} (moves : Moves h next events)
    (flow : Flow h.peer) : Flow next.peer := by
  unfold Flow at flow ⊢
  rw [moves.trace, moves.content, Trace.puts_append, Trace.sent_append,
    Trace.sent_ofPass moves.passes, List.append_nil, flow, List.append_assoc]

theorem CgiStarted.flow {client next : Peer} {req : Nat} (started : CgiStarted client req next)
    (flow : Flow client) : Flow next := by
  obtain ⟨executor, _, _, rfl⟩ := started.started
  unfold Flow at flow ⊢
  rw [Peer.record, Trace.puts_append, Trace.sent_append, flow]
  simp [Trace.puts, Trace.sent, pipeEvents, Event.putByte, Event.sentBytes]

theorem Flow.backlogged {peer : Peer} (flow : Flow peer)
    (full : peer.sendingBuffer.content.length = bufDataMaxsize) : Trace.Backlogged peer.trace := by
  have lengths := congrArg List.length flow
  rw [List.length_append, full] at lengths
  exact ⟨peer.trace, List.prefix_rfl, lengths⟩

section Passes

variable {cfg : Config} {os : Os} {whole : Prop} {task next : HttpTask} {request : Request}

private theorem markLastRequest_parse (task : HttpTask) (request : Request) :
    (markLastRequest task request).parseBuf = task.parseBuf ∧
      (markLastRequest task request).parseBufIdx = task.parseBufIdx := by
  unfold markLastRequest
  split <;> exact ⟨rfl, rfl⟩

private theorem Taken.begun (os : Os) (whole : Prop) (cell : RequestCell) {block : Bytes}
    (took : Taken cfg task cell.request next) (parsed : cfg.parse block = .ok (some cell.request))
    (isBlock : task.parseBuf.read task.parseBufIdx = block) (fresh : task.lastRequest = false)
    (empty : task.responseBuf.content = []) :
    Underway cfg whole (.live cell) next (if next.state = .recvBody then [] else [(block, none)])
      [] [] := by
  obtain ⟨last, buf⟩ := markLastRequest_fields task cell.request fresh
  obtain ⟨parseBuf, parseBufIdx⟩ := markLastRequest_parse task cell.request
  have blank : (markLastRequest task cell.request).responseBuf.content = [] := by rw [buf, empty]
  have refuses {code : Int} {task : HttpTask} (isCode : task.responseCode = code)
      (none : task.responseBuf.content = [])
      (outcome : HeadOutcome cfg os cell.request code (nonbodyHead code))
      (other : code = lengthRequireNum ∨ code = notImplementedNum) :
      Promised cfg block (responseHead task ++ nonbodyHead task.responseCode) [] := by
    refine ⟨cell.request, parsed, ?_⟩
    rw [isCode, responseHead, none]
    refine .bare outcome (fun fine => ?_) fun _ => other
    rcases other with rfl | rfl <;> cases fine
  cases took with
  | fetch method named =>
      exact ⟨⟨rfl, rfl⟩, block, none, rfl, cell, rfl, parsed, .inr ⟨method, named, last⟩, blank⟩
  | refuse post noBody =>
      exact ⟨⟨rfl, rfl⟩, block, none, rfl,
        refuses rfl blank (.refused post noBody) (.inl rfl)⟩
  | body hasBody =>
      refine ⟨⟨rfl, rfl, rfl⟩, cell, rfl, ?_, .inl ⟨rfl, by simp [hasBody]⟩, blank⟩
      change cfg.parse ((markLastRequest task cell.request).parseBuf.read
        (markLastRequest task cell.request).parseBufIdx) = _
      rw [parseBuf, parseBufIdx, isBlock]
      exact parsed
  | unknown other =>
      exact ⟨⟨rfl, rfl⟩, block, none, rfl,
        refuses rfl blank (.unknown other) (.inr rfl)⟩

private theorem GetHeader.underway {task next : HttpTask} {after : Ptr RequestCell} {code : Int}
    {changed : Request} {events : List Event} {block : Bytes} {body : Option Bytes}
    (found : GetHeader cfg os task request task.lastRequest (code, next, changed, events))
    (parsed : cfg.parse block = .ok (some request)) (chosen : Chosen cfg task request)
    (method : task.methodType = .get ∨ task.methodType = .head)
    (empty : task.responseBuf.content = []) (static : isCgi request.httpUri = false) :
    Underway cfg whole after
      { next with
        responseCode := code
        state := if code = okNum then .sendHeader else .generateHeader }
      [(block, body)] [] [] := by
  have blank : responseHead task = [] := by rw [responseHead, empty, List.map_nil]
  have plain {code : Int} : isCgi request.httpUri = true →
      code = lengthRequireNum ∨ code = notImplementedNum := by simp [static]
  obtain ⟨post, _⟩ | ⟨_, named, last⟩ := chosen
  · rw [post] at method
    rcases method with impossible | impossible <;> cases impossible
  have fetched : fetches request = true := by
    rcases method with same | same <;> simp [fetches, named, same]
  cases found with
  | missing path absent =>
      refine ⟨⟨rfl, rfl⟩, block, body, rfl, request, parsed, ?_⟩
      change StaticReply cfg request (responseHead task ++ nonbodyHead notFoundNum) []
      rw [blank, List.nil_append]
      exact .bare (.missing fetched path absent) (fun fine => absurd fine (by decide)) plain
  | unopened path present written described noFile =>
      have head := written.head
      rw [blank, List.nil_append, last] at head
      refine ⟨⟨rfl, rfl⟩, block, body, rfl, request, parsed, ?_⟩
      change StaticReply cfg request (responseHead next ++ nonbodyHead internalServerErrorNum) []
      rw [head]
      exact .bare (.unopened fetched path present described noFile)
        (fun fine => absurd fine (by decide)) plain
  | @opened fullpath _ middle facts file path present written described hasFile =>
      have head := written.head
      rw [blank, List.nil_append, last] at head
      obtain ⟨responseBuf, rfl⟩ := written.frame
      rcases method with get | other
      · refine ⟨⟨rfl, rfl⟩, block, body, file.remaining, rfl, ⟨request, parsed, ?_⟩, .inr ?_⟩
        · rw [get, if_pos rfl] at named
          change StaticReply cfg request (responseHead { task with responseBuf }) file.remaining
          rw [head]
          exact .file named static path present described hasFile
        · refine ⟨?_, _, rfl, rfl⟩
          simp [afterHead, errorCode, get, okNum, badRequestNum, notFoundNum, lengthRequireNum,
            internalServerErrorNum, notImplementedNum, httpVersionNotSupportedNum]
      · refine ⟨⟨rfl, rfl⟩, block, body, [], rfl, ⟨request, parsed, ?_⟩, .inl ⟨?_, rfl⟩⟩
        · have notGet : request.httpMethod ≠ str "GET" := by
            rw [named, other]
            decide
          change StaticReply cfg request (responseHead { task with responseBuf }) []
          rw [head]
          exact .bare (.opened fetched path present described hasFile) (fun _ => notGet) plain
        · simp [afterHead, other]

private theorem File.remaining_split {file : File} {front rest : Bytes}
    (split : file.rest = front ++ rest) :
    file.remaining = front ++ ({ file with rest } : File).remaining := by
  unfold File.remaining
  split <;> simp [split]

private theorem Serving.puts {peer put : Peer} {bytes : List OutByte} {tail : List Event}
    {ptr after : Ptr RequestCell} (serving : Serving cfg ptr task peer.trace)
    (puts : Puts peer bytes put) (closing : tail = [] ∨ ∃ fd, tail = [.closed fd])
    (onward : ∀ {pending child current},
      Underway cfg (¬ Trace.Backlogged (put.trace ++ tail)) ptr task pending child current →
      Underway cfg (¬ Trace.Backlogged (put.trace ++ tail)) after next pending child
        (current ++ bytes.map OutByte.val)) : Serving cfg after next (put.trace ++ tail) := by
  obtain ⟨sendingBuffer, rfl⟩ := puts.frame
  have quiet : Trace.framed tail = [] ∧ Trace.puts tail = [] ∧
      ∀ event ∈ tail, event.ofPass = true := by
    rcases closing with rfl | ⟨fd, rfl⟩
    · exact ⟨rfl, rfl, fun _ member => absurd member List.not_mem_nil⟩
    · exact ⟨rfl, rfl, by simp [Event.ofPass]⟩
  obtain ⟨framed, none, passes⟩ := quiet
  simp only [List.append_assoc] at onward ⊢
  refine serving.passes ?_ fun underway => ?_
  · intro event member
    rcases List.mem_append.mp member with before | later
    · exact Trace.ofPass_put bytes event before
    · exact passes event later
  · rw [Trace.framed_append, Trace.framed_map_put, framed, Trace.puts_append, Trace.puts_map_put,
      none, List.append_nil, List.append_nil, List.append_nil]
    exact onward underway

private theorem HeadSent.serving {ret : Option HttpState} {sent : HttpTask} {peer put : Peer}
    {ptr : Ptr RequestCell} (state : task.state = .sendHeader)
    (result : HeadSent task peer (ret, sent, put)) (flow : Flow put)
    (serving : Serving cfg ptr task peer.trace) :
    Serving cfg ptr { sent with state := afterHead sent } put.trace := by
  obtain ⟨front, puts, part, ⟨responseBuf, rfl⟩, uncut⟩ : ∃ front, Puts peer front put ∧
      front <+: task.responseBuf.content ∧ (∃ responseBuf, sent = { task with responseBuf }) ∧
      (¬ Trace.Backlogged put.trace → front = task.responseBuf.content) := by
    cases result with
    | whole inv empty puts => exact ⟨_, puts, List.prefix_rfl, ⟨_, rfl⟩, fun _ => rfl⟩
    | cut inv left shape puts full =>
        exact ⟨_, puts, ⟨_, shape.symm⟩, ⟨_, rfl⟩, fun free => absurd (flow.backlogged full) free⟩
  rw [← List.append_nil put.trace]
  refine serving.puts puts (.inl rfl) ?_
  rw [List.append_nil]
  intro pending child current underway
  simp only [Underway, state] at underway
  obtain ⟨⟨rfl, rfl⟩, block, body, rest, rfl, promised, follows⟩ := underway
  have first : front.map OutByte.val <+: responseHead task := part.map OutByte.val
  have same (free : ¬ Trace.Backlogged put.trace) :
      front.map OutByte.val = responseHead task := by rw [uncut free, responseHead]
  rcases follows with ⟨finished, rfl⟩ | ⟨sends, file, live, rfl⟩
  · have answers : Reply cfg (¬ Trace.Backlogged put.trace) (block, body) []
        (front.map OutByte.val ++ []) := .static promised first same
    rw [List.append_nil] at answers
    exact (Underway.between (.inr finished)).mpr (.inr ⟨_, rfl, answers⟩)
  · have sends : afterHead { task with responseBuf } = .sendBody := sends
    simp only [Underway, sends, true_and]
    exact ⟨block, body, front.map OutByte.val, [], file, rfl, (List.append_nil _).symm, live,
      responseHead task, promised, first, same⟩

private theorem FileStreamed.serving {file : File} {status : StreamStatus} {fp : Ptr File}
    {peer put : Peer} {ptr : Ptr RequestCell} (state : task.state = .sendBody)
    (opened : task.fp = .live file) (streamed : FileStreamed file peer (status, fp, put))
    (stays : status ≠ .error) (serving : Serving cfg ptr task peer.trace) :
    Serving cfg ptr { task with fp, state := if status = .done then .finished else .sendBody }
      put.trace := by
  have values (bytes : Bytes) : (bytes.map (⟨·, file.req⟩)).map OutByte.val = bytes := by
    simp [Function.comp_def]
  cases streamed with
  | error => exact absurd rfl stays
  | @notDone front rest _ split puts full =>
      rw [← List.append_nil put.trace]
      refine serving.puts puts (.inl rfl) ?_
      rw [List.append_nil, values]
      intro pending child current underway
      simp only [Underway, state] at underway
      obtain ⟨rfl, block, body, start, past, same, rfl, rfl, live, head, promised, part, uncut⟩ :=
        underway
      cases live.symm.trans opened
      rw [File.remaining_split split, ← List.append_assoc] at promised
      exact ⟨rfl, block, body, start, past ++ front, _, rfl, List.append_assoc _ _ _, rfl, head,
        promised, part, uncut⟩
  | done ends puts =>
      refine serving.puts puts (.inr ⟨file.fd, rfl⟩) ?_
      rw [values]
      intro pending child current underway
      simp only [Underway, state] at underway
      obtain ⟨rfl, block, body, start, past, same, rfl, rfl, live, head, promised, part, uncut⟩ :=
        underway
      cases live.symm.trans opened
      refine (Underway.between (.inr rfl)).mpr (.inr ⟨_, rfl, ?_⟩)
      have whole : file.remaining = file.rest ++ [eofChar] := by simp [File.remaining, ends]
      rw [List.append_assoc, ← whole]
      exact .static promised part uncut

section Pass

variable {h : Handling} {text : Bytes} {middle : HttpTask} {left : Cbuf UInt8}

private theorem HeaderRead.serving {block : Bytes} {taken : HttpTask} (os : Os) (inv : h.Inv)
    (state : h.task.state = .recvHeader)
    (serving : Serving cfg h.request h.task h.peer.trace)
    (read : HeaderRead h.task text h.peer.receivingBuffer (.ready, middle, left))
    (isBlock : middle.parseBuf.read middle.parseBufIdx = block)
    (good : cfg.parse block = .ok (some request))
    (took : Taken cfg { middle with requests := middle.requests + 1 } request taken) :
    Serving cfg (.live ⟨request, h.peer.conn, middle.requests + 1⟩) taken
      ((h.receive left).record (.parsed (middle.requests + 1) block ::
        if taken.state = .recvBody then [] else [.framed block none])).trace := by
  have ready := inv.task.ready
  simp only [HttpTask.Ready, state] at ready
  obtain ⟨_, fresh, _, _, empty, _⟩ := ready
  cases read with
  | ready size same joined cut short left =>
      refine serving.takes (.inl state) ?_ ?_ fun whole => ?_
      · split <;> simp [Event.ofPass]
      · split <;> rfl
      · have start := took.begun os whole ⟨request, h.peer.conn, h.task.requests + 1⟩ good
          isBlock fresh empty
        by_cases body : taken.state = .recvBody
        · rw [if_pos body] at start ⊢
          exact start
        · rw [if_neg body] at start ⊢
          exact start

private theorem BodyRead.serving (state : h.task.state = .recvBody)
    (serving : Serving cfg h.request h.task h.peer.trace)
    (read : BodyRead h.task text h.peer.receivingBuffer (true, middle, left)) :
    Serving cfg h.request { middle with state := .checkCgi } ((h.receive left).record
      [.framed (middle.parseBuf.read middle.parseBufIdx) (postBodyBytes middle)]).trace := by
  cases read with
  | whole part full split inv =>
      refine serving.passes (by simp [Event.ofPass]) fun underway => ?_
      simp only [Underway, state] at underway
      obtain ⟨⟨rfl, rfl, rfl⟩, cell, live, parsed, chosen, empty⟩ := underway
      exact ⟨⟨rfl, rfl⟩, _, _, rfl, cell, live, parsed, chosen, empty⟩

private theorem Written.serving (inv : h.Inv) (state : h.task.state = .generateHeader)
    (serving : Serving cfg h.request h.task h.peer.trace)
    (written : Written h.task (nonbodyHead h.task.responseCode) middle) :
    Serving cfg h.request { middle with state := .sendHeader } h.peer.trace := by
  have ready := inv.task.ready
  have head := written.head
  obtain ⟨responseBuf, rfl⟩ := written.frame
  simp only [HttpTask.Ready, state] at ready
  obtain ⟨valid, _, posted⟩ := ready
  refine serving.still fun underway => ?_
  simp only [Underway, state] at underway
  obtain ⟨none, block, body, isFrame, promised⟩ := underway
  refine ⟨none, block, body, [], isFrame, ?_, .inl ⟨afterHead_nonbody valid posted, rfl⟩⟩
  change Promised cfg block (responseHead { h.task with responseBuf }) []
  rw [head]
  exact promised

private theorem CgiStarted.serving {cell : RequestCell} {peer : Peer}
    (state : h.task.state = .checkCgi) (live : h.request = .live cell)
    (cgi : isCgi cell.request.httpUri = true)
    (serving : Serving cfg h.request h.task h.peer.trace)
    (started : CgiStarted h.peer h.task.requests peer) :
    Serving cfg h.request { h.task with state := .processingCgi } peer.trace := by
  obtain ⟨executor, _, _, rfl⟩ := started.started
  refine serving.goesOn fun underway => ?_
  simp only [Underway, state] at underway
  obtain ⟨⟨rfl, rfl⟩, block, body, rfl, same, isLive, parsed, chosen, _⟩ := underway
  cases live.symm.trans isLive
  refine ⟨[[]], fun before => ?_, block, body, rfl, rfl, cell.request, parsed, cgi, ?_⟩
  · simp [pipeEvents, Trace.childrenStep]
  · rcases chosen with ⟨_, hasBody⟩ | ⟨method, named, _⟩
    · exact .inr hasBody
    · refine .inl ?_
      rcases method with same | same <;> simp [fetches, named, same]

private theorem GetHeader.serving {cell : RequestCell} {code : Int} {changed : Request}
    {events : List Event} (inv : h.Inv) (state : h.task.state = .checkCgi)
    (live : h.request = .live cell) (static : isCgi cell.request.httpUri = false)
    (method : h.task.methodType = .get ∨ h.task.methodType = .head)
    (serving : Serving cfg h.request h.task h.peer.trace)
    (found : GetHeader cfg os h.task cell.request h.task.lastRequest
      (code, middle, changed, events)) :
    Serving cfg (.live { cell with request := changed })
      { middle with
        responseCode := code
        state := if code = okNum then .sendHeader else .generateHeader }
      (h.peer.record events).trace := by
  have ready := inv.task.ready
  simp only [HttpTask.Ready, state] at ready
  have quiet : (∀ event ∈ events, event.ofPass = true) ∧ Trace.framed events = [] ∧
      Trace.puts events = [] := by
    cases found with
    | missing => exact ⟨fun _ member => absurd member List.not_mem_nil, rfl, rfl⟩
    | unopened => exact ⟨fun _ member => absurd member List.not_mem_nil, rfl, rfl⟩
    | opened => exact ⟨by simp [Event.ofPass], rfl, rfl⟩
  obtain ⟨passes, framed, silent⟩ := quiet
  refine serving.passes passes fun underway => ?_
  simp only [Underway, state] at underway
  obtain ⟨⟨rfl, rfl⟩, block, body, rfl, same, isLive, parsed, chosen, _⟩ := underway
  cases live.symm.trans isLive
  rw [framed, silent, List.append_nil]
  exact found.underway parsed chosen method ready.2 static

private theorem Serving.posted {cell : RequestCell} (os : Os) (state : h.task.state = .checkCgi)
    (live : h.request = .live cell) (static : isCgi cell.request.httpUri = false)
    (post : h.task.methodType = .post) (serving : Serving cfg h.request h.task h.peer.trace) :
    Serving cfg h.request { h.task with responseCode := okNum, state := .generateHeader }
      h.peer.trace := by
  refine serving.still fun underway => ?_
  simp only [Underway, state] at underway
  obtain ⟨none, block, body, isFrame, same, isLive, parsed, chosen, empty⟩ := underway
  cases live.symm.trans isLive
  refine ⟨none, block, body, isFrame, cell.request, parsed, ?_⟩
  have blank : responseHead h.task = [] := by rw [responseHead, empty, List.map_nil]
  change StaticReply cfg cell.request (responseHead h.task ++ nonbodyHead okNum) []
  rw [blank, List.nil_append]
  rcases chosen with ⟨_, hasBody⟩ | ⟨method, _⟩
  · have outcome : HeadOutcome cfg os cell.request okNum (nonbodyHead okNum) := .posted hasBody
    refine .bare outcome (fun _ => ?_) (by simp [static])
    rw [bodyLength_post hasBody]
    decide
  · rw [post] at method
    rcases method with impossible | impossible <;> cases impossible

end Pass

theorem PassCases.serving {h : Handling} {pass : Pass} (inv : h.Inv) (flow : Flow h.peer)
    (stays : ∀ stopped, pass ≠ .returns .closeConnImmediately stopped)
    (serving : Serving cfg h.request h.task h.peer.trace) (result : PassCases cfg os h pass) :
    Serving cfg pass.handling.request pass.handling.task pass.handling.peer.trace := by
  cases result with
  | headerShort state scanning read =>
      cases read
      exact serving.still fun underway => underway.keeps (.inl state) (.inl state)
  | headerLong state scanning read => exact absurd rfl (stays _)
  | headerBad state scanning read whole bad => exact absurd rfl (stays _)
  | headerGood state scanning read whole good took =>
      exact read.serving os inv state serving whole good took
  | bodyShort state part read =>
      cases read
      refine serving.still fun underway => ?_
      simp only [Underway, state] at underway
      simp only [Underway, Pass.handling, state]
      exact underway
  | bodyWhole state part read => exact read.serving state serving
  | generated state written =>
      have goes := written.serving inv state serving
      exact goes
  | headSent state sent =>
      have result : PassCases cfg os h _ := .headSent state sent
      obtain ⟨events, moves⟩ := result.moves_again inv
      exact sent.serving state (moves.flow flow) serving
  | cgiStarted state live cgi started fed =>
      have goes := started.serving state live cgi serving
      exact goes
  | staticHead state live static method found =>
      exact found.serving inv state live static method serving
  | staticPost state live static post =>
      have goes := serving.posted os state live static post
      exact goes
  | @fileWaits file fp next state opened streamed =>
      have goes := streamed.serving state opened (by decide) serving
      have same : ({ h.task with fp } : HttpTask) = { h.task with fp, state := .sendBody } := by
        rw [← state]
      change Serving cfg h.request { h.task with fp } next.trace
      rw [same]
      exact goes
  | fileFails state opened streamed => exact absurd rfl (stays _)
  | fileDone state opened streamed => exact streamed.serving state opened (by decide) serving

theorem httpLoop_serving {fuel : Nat} {h next : Handling} {code : Code} (inv : h.Inv)
    (flow : Flow h.peer) (serving : Serving cfg h.request h.task h.peer.trace)
    (ran : httpLoop cfg os fuel h = some (.ok (code, next))) :
    code ≠ .closeConnImmediately → Serving cfg next.request next.task next.peer.trace := by
  refine httpLoop_rule
    (P := fun h => Flow h.peer ∧ Serving cfg h.request h.task h.peer.trace)
    (Q := fun code h => code ≠ .closeConnImmediately → Serving cfg h.request h.task h.peer.trace)
    ?_ ?_ ?_ inv ⟨flow, serving⟩ ran
  · intro h next inv ⟨flow, serving⟩ result
    obtain ⟨events, moves⟩ := result.moves_again inv
    exact ⟨moves.flow flow, result.serving inv flow (fun _ => Pass.noConfusion) serving⟩
  · intro h code next inv ⟨flow, serving⟩ result stays
    refine result.serving inv flow (fun stopped same => stays ?_) serving
    cases same
    rfl
  · intro h code next inv ⟨_, serving⟩ finished done _
    rcases finishRequest_cases done with ⟨_, ⟨_, rfl⟩ | ⟨_, _, rfl⟩⟩
    · exact serving.still fun underway => underway.keeps (.inr finished) (.inl rfl)
    · refine serving.passes (by simp [Event.ofPass]) fun underway => ?_
      change Underway cfg _ .freed (resetHttpTask h.task) (_ ++ []) _ (_ ++ [])
      rw [List.append_nil, List.append_nil]
      exact underway.keeps (.inr finished) (.inl rfl)

theorem handleHttp_serving {request after : Ptr RequestCell} {peer left : Peer} {code : Code}
    (inv : peer.Inv task) (flow : Flow peer) (serving : Serving cfg request task peer.trace)
    (called : handleHttp cfg os request peer = .ok (code, after, left))
    (stays : code ≠ .closeConnImmediately) :
    ∃ next, left.httpTask = .live next ∧ Serving cfg after next left.trace := by
  rcases handleHttp_cases inv.live called with ⟨_, rfl, rfl, rfl⟩ | ⟨_, h, rfl, rfl, ran⟩
  · exact ⟨task, inv.live, serving⟩
  · have start : Handling.Inv ⟨request, task, peer⟩ := ⟨inv.valid, inv.sending, inv.receiving⟩
    exact ⟨h.task, rfl, httpLoop_serving start flow serving ran stays⟩

end Passes

end Liso
