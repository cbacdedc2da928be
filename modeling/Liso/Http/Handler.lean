import Liso.Http.Cgi
import Liso.Parser.Parse
import Liso.Terminator

/-! `handle_http`: one pass of its loop for each state of the task. -/

namespace Liso

/-- The Request that `parse` returned for request `req` of connection `conn`. The
program keeps only `request`. -/
structure RequestCell where
  request : Request
  conn : Nat
  req : Nat
  deriving DecidableEq

/-- What a call of `handle_http` works on: the global `request`, the task of the peer, and
the peer's other fields. -/
structure Handling where
  request : Ptr RequestCell
  task : HttpTask
  peer : Peer

inductive Pass
  | again (h : Handling)
  | returns (code : Code) (h : Handling)

/-! RECV_HEADER_STATE -/

inductive HeaderStatus
  | ready
  | emptyRecvBuf
  | parserBufOverflow
  deriving DecidableEq

def readHeaderLoop : Nat → HttpTask → Cbuf UInt8 →
    Except Fault (HeaderStatus × HttpTask × Cbuf UInt8)
  | 0, task, recv =>
      if task.headerTermTokenStatus = headerTermStatus then
        .ok (.ready, { task with headerTermTokenStatus := 0 }, recv)
      else .ok (.emptyRecvBuf, task, recv)
  | passes + 1, task, recv =>
      if task.headerTermTokenStatus = headerTermStatus then
        .ok (.ready, { task with headerTermTokenStatus := 0 }, recv)
      else
        match bufGet recv with
        | (none, recv) => .ok (.emptyRecvBuf, task, recv)
        | (some data, recv) =>
            match headerTermStep task.headerTermTokenStatus data with
            | none => .error .assertion
            | some status =>
                if task.parseBufIdx < task.parseBuf.size then
                  let task := { task with
                    headerTermTokenStatus := status
                    parseBuf := task.parseBuf.write task.parseBufIdx data
                    parseBufIdx := task.parseBufIdx + 1 }
                  if task.parseBufIdx = bufDataMaxsize ∧ status ≠ headerTermStatus then
                    .ok (.parserBufOverflow, task, recv)
                  else readHeaderLoop passes task recv
                else .error (.bounds .parseBuf)

structure Scanning (task : HttpTask) (text : Bytes) : Prop where
  size : task.parseBuf.size = bufDataMaxsize
  read : task.parseBuf.read task.parseBufIdx = text
  status : task.headerTermTokenStatus = Matcher.border terminator text
  clear : Matcher.Clear terminator text
  short : text.length < bufDataMaxsize

/-- Where the search ends that has read `text` and finds `recv` in the receiving buffer: after
the first terminator, out of bytes, or out of room. -/
inductive HeaderRead (task : HttpTask) (text : Bytes) (recv : Cbuf UInt8) :
    HeaderStatus × HttpTask × Cbuf UInt8 → Prop
  | ready {block : Bytes} {parseBuf : Block} {parseBufIdx : Nat} {left : Cbuf UInt8}
      (size : parseBuf.size = bufDataMaxsize) (read : parseBuf.read parseBufIdx = block)
      (whole : text ++ recv.content = block ++ left.content)
      (cut : ∀ rest, Matcher.cutAfter terminator (block ++ rest) = some (block, rest))
      (short : block.length ≤ bufDataMaxsize) (inv : left.Inv) :
      HeaderRead task text recv
        (.ready, { task with parseBuf, parseBufIdx, headerTermTokenStatus := 0 }, left)
  | emptyRecvBuf {parseBuf : Block} {parseBufIdx headerTermTokenStatus : Nat} {left : Cbuf UInt8}
      (scanning : Scanning { task with parseBuf, parseBufIdx, headerTermTokenStatus }
        (text ++ recv.content))
      (inv : left.Inv) (empty : left.content = []) :
      HeaderRead task text recv
        (.emptyRecvBuf, { task with parseBuf, parseBufIdx, headerTermTokenStatus }, left)
  | parserBufOverflow {front : Bytes} {parseBuf : Block}
      {parseBufIdx headerTermTokenStatus : Nat} {left : Cbuf UInt8}
      (whole : text ++ recv.content = front ++ left.content)
      (clear : Matcher.Clear terminator front) (full : front.length = bufDataMaxsize)
      (inv : left.Inv) :
      HeaderRead task text recv
        (.parserBufOverflow, { task with parseBuf, parseBufIdx, headerTermTokenStatus }, left)

inductive HeaderPasses (task : HttpTask) (text : Bytes) (recv : Cbuf UInt8) (passes : Nat) :
    HeaderStatus × HttpTask × Cbuf UInt8 → Prop
  | ready {block : Bytes} {parseBuf : Block} {parseBufIdx : Nat} {left : Cbuf UInt8}
      (size : parseBuf.size = bufDataMaxsize) (read : parseBuf.read parseBufIdx = block)
      (whole : text ++ recv.content = block ++ left.content)
      (cut : ∀ rest, Matcher.cutAfter terminator (block ++ rest) = some (block, rest))
      (short : block.length ≤ bufDataMaxsize) (inv : left.Inv) :
      HeaderPasses task text recv passes
        (.ready, { task with parseBuf, parseBufIdx, headerTermTokenStatus := 0 }, left)
  | emptyRecvBuf {parseBuf : Block} {parseBufIdx headerTermTokenStatus : Nat} {left : Cbuf UInt8}
      (scanning : Scanning { task with parseBuf, parseBufIdx, headerTermTokenStatus }
        (text ++ recv.content.take passes))
      (inv : left.Inv) (rest : left.content = recv.content.drop passes) :
      HeaderPasses task text recv passes
        (.emptyRecvBuf, { task with parseBuf, parseBufIdx, headerTermTokenStatus }, left)
  | parserBufOverflow {front : Bytes} {parseBuf : Block}
      {parseBufIdx headerTermTokenStatus : Nat} {left : Cbuf UInt8}
      (read : parseBuf.read parseBufIdx = front)
      (status : headerTermTokenStatus = Matcher.border terminator front)
      (whole : text ++ recv.content = front ++ left.content)
      (clear : Matcher.Clear terminator front) (full : front.length = bufDataMaxsize)
      (inv : left.Inv) :
      HeaderPasses task text recv passes
        (.parserBufOverflow, { task with parseBuf, parseBufIdx, headerTermTokenStatus }, left)

private theorem HeaderPasses.cons {task : HttpTask} {parseBuf : Block}
    {parseBufIdx headerTermTokenStatus passes : Nat} {text : Bytes} {recv left : Cbuf UInt8}
    {data : UInt8} {result : HeaderStatus × HttpTask × Cbuf UInt8}
    (shape : recv.content = data :: left.content)
    (later : HeaderPasses { task with parseBuf, parseBufIdx, headerTermTokenStatus }
      (text ++ [data]) left passes result) : HeaderPasses task text recv (passes + 1) result := by
  have joined : text ++ recv.content = text ++ [data] ++ left.content := by
    rw [shape, List.append_assoc, List.singleton_append]
  cases later with
  | ready size read whole cut short inv =>
      exact .ready size read (joined.trans whole) cut short inv
  | emptyRecvBuf scanning inv rest =>
      refine .emptyRecvBuf ?_ inv ?_
      · rwa [shape, List.take_succ_cons, ← List.singleton_append, ← List.append_assoc]
      · rwa [shape, List.drop_succ_cons]
  | parserBufOverflow read status whole clear full inv =>
      exact .parserBufOverflow read status (joined.trans whole) clear full inv

private theorem readHeaderLoop_found {passes : Nat} {task : HttpTask} {recv : Cbuf UInt8}
    (found : task.headerTermTokenStatus = headerTermStatus) :
    readHeaderLoop passes task recv =
      .ok (.ready, { task with headerTermTokenStatus := 0 }, recv) := by
  cases passes <;> rw [readHeaderLoop, if_pos found]

theorem Scanning.unfound {task : HttpTask} {text : Bytes} (scanning : Scanning task text) :
    task.headerTermTokenStatus < headerTermStatus := by
  rw [scanning.status]
  refine Nat.lt_of_le_of_ne Matcher.border_le fun full => ?_
  exact scanning.clear text (List.prefix_refl text) (Matcher.border_full.mp full)

theorem readHeaderLoop_passes (passes : Nat) {task : HttpTask} {text : Bytes}
    {recv : Cbuf UInt8} (scanning : Scanning task text) (receiving : recv.Inv) :
    ∃ result, readHeaderLoop passes task recv = .ok result ∧
      HeaderPasses task text recv passes result := by
  induction passes generalizing task text recv with
  | zero =>
      rw [readHeaderLoop, if_neg (Nat.ne_of_lt scanning.unfound)]
      refine ⟨_, rfl, .emptyRecvBuf ?_ receiving rfl⟩
      rwa [List.take_zero, List.append_nil]
  | succ passes ih =>
      have below := scanning.unfound
      cases shape : recv.content with
      | nil =>
          simp only [readHeaderLoop, if_neg (Nat.ne_of_lt below), receiving.get_nil shape]
          refine ⟨_, rfl, .emptyRecvBuf ?_ receiving ?_⟩
          · rwa [shape, List.take_nil, List.append_nil]
          · rw [shape, List.drop_nil]
      | cons data rest =>
          obtain ⟨left, got, inv, content⟩ := receiving.get_cons shape
          have index : task.parseBufIdx = text.length := by
            rw [← scanning.read, Block.read_length]
          have inside : task.parseBufIdx < task.parseBuf.size := by
            rw [index, scanning.size]
            exact scanning.short
          have status : headerTermStep task.headerTermTokenStatus data =
              some (Matcher.border terminator (text ++ [data])) := by
            rw [headerTermStep_border _ below, scanning.status, ← Matcher.border_snoc]
          let parseBuf := task.parseBuf.write task.parseBufIdx data
          let middle : HttpTask := { task with
            headerTermTokenStatus := Matcher.border terminator (text ++ [data])
            parseBuf
            parseBufIdx := task.parseBufIdx + 1 }
          have read : middle.parseBuf.read middle.parseBufIdx = text ++ [data] := by
            rw [← scanning.read]
            exact Block.read_write _ _ _
          have consumed : recv.content = data :: left.content := by rw [shape, content]
          have joined : text ++ recv.content = text ++ [data] ++ left.content := by
            rw [consumed, List.append_assoc, List.singleton_append]
          have short := scanning.short
          simp only [readHeaderLoop, if_neg (Nat.ne_of_lt below), got, status, if_pos inside]
          by_cases found : terminator <:+ text ++ [data]
          · have full : middle.headerTermTokenStatus = headerTermStatus :=
              Matcher.border_full.mpr found
            rw [if_neg fun excess => excess.2 full, readHeaderLoop_found full]
            refine ⟨_, rfl, .ready scanning.size read joined (fun rest => ?_) ?_ inv⟩
            · exact Matcher.cutAfter_first scanning.clear found
            · rw [List.length_append, List.length_singleton]
              omega
          · have clear := scanning.clear.snoc found
            have unmatched : ¬ middle.headerTermTokenStatus = headerTermStatus :=
              fun full => found (Matcher.border_full.mp full)
            by_cases excess : task.parseBufIdx + 1 = bufDataMaxsize
            · rw [if_pos ⟨excess, unmatched⟩]
              refine ⟨_, rfl, .parserBufOverflow read rfl joined clear ?_ inv⟩
              rw [List.length_append, List.length_singleton, ← index]
              exact excess
            · rw [if_neg fun both => excess both.1]
              have next : Scanning middle (text ++ [data]) := by
                refine ⟨scanning.size, read, rfl, clear, ?_⟩
                rw [List.length_append, List.length_singleton]
                omega
              obtain ⟨result, ran, later⟩ := ih next inv
              exact ⟨result, ran, HeaderPasses.cons consumed later⟩

theorem readHeaderLoop_read {passes : Nat} {task : HttpTask} {text : Bytes} {recv : Cbuf UInt8}
    (scanning : Scanning task text) (receiving : recv.Inv)
    (length : recv.content.length = passes) :
    ∃ result, readHeaderLoop passes task recv = .ok result ∧ HeaderRead task text recv result := by
  obtain ⟨result, ran, passed⟩ := readHeaderLoop_passes passes scanning receiving
  refine ⟨result, ran, ?_⟩
  cases passed with
  | ready size read whole cut short inv => exact .ready size read whole cut short inv
  | emptyRecvBuf scanning inv rest =>
      refine .emptyRecvBuf ?_ inv ?_
      · rwa [← length, List.take_length] at scanning
      · rwa [← length, List.drop_length] at rest
  | parserBufOverflow read status whole clear full inv =>
      exact .parserBufOverflow whole clear full inv

def readHeaderData (task : HttpTask) (peer : Peer) :
    Except Fault (HeaderStatus × HttpTask × Peer) :=
  match readHeaderLoop peer.receivingBuffer.numByte task peer.receivingBuffer with
  | .error fault => .error fault
  | .ok (status, task, receivingBuffer) => .ok (status, task, { peer with receivingBuffer })

def markLastRequest (task : HttpTask) (request : Request) : HttpTask :=
  if getHeaderValue request connection = close then { task with lastRequest := true } else task

def takeRequest (cfg : Config) (task : HttpTask) (request : Request) : Except Fault HttpTask :=
  let task := markLastRequest task request
  if request.httpMethod = str "HEAD" then
    .ok { task with methodType := .head, state := .checkCgi }
  else if request.httpMethod = str "GET" then
    .ok { task with methodType := .get, state := .checkCgi }
  else if request.httpMethod = str "POST" then
    let task := { task with methodType := .post }
    let contentLengthStr := getHeaderValue request (str "Content-Length")
    if contentLengthStr.length = 0 then
      .ok { task with responseCode := lengthRequireNum, state := .generateHeader }
    else
      let contentLen := cfg.atoi contentLengthStr
      if contentLen < 0 then
        .ok { task with responseCode := lengthRequireNum, state := .generateHeader }
      else if task.bodyBytesNum ≠ 0 then .error .assertion
      else
        .ok { task with
          bodyBytesNum := contentLen.toNat
          postBody := some (.malloc contentLen.toNat)
          postBodyIdx := 0
          state := .recvBody }
  else .ok { task with responseCode := notImplementedNum, state := .generateHeader }

def recvHeaderState (cfg : Config) (h : Handling) : Except Fault Pass :=
  if h.task.responseCode ≠ -1 ∨ h.task.lastRequest ∨ h.task.methodType ≠ .noMethod then
    .error .assertion
  else
    match readHeaderData h.task h.peer with
    | .error fault => .error fault
    | .ok (.parserBufOverflow, task, peer) =>
        .ok (.returns .closeConnImmediately ⟨h.request, task, peer⟩)
    | .ok (.emptyRecvBuf, task, peer) => .ok (.returns .keepConn ⟨h.request, task, peer⟩)
    | .ok (.ready, task, peer) =>
        let block := task.parseBuf.read task.parseBufIdx
        let task := { task with requests := task.requests + 1 }
        let peer := peer.record [.parsed task.requests block]
        match cfg.parse block with
        | .error fault => .error fault
        | .ok none =>
            .ok (.returns .closeConnImmediately ⟨.null, task, peer.record [.framed block none]⟩)
        | .ok (some request) =>
            match takeRequest cfg task request with
            | .error fault => .error fault
            | .ok next =>
                let complete := if next.state = .recvBody then [] else [.framed block none]
                .ok (.again ⟨.live ⟨request, peer.conn, task.requests⟩, next,
                  peer.record complete⟩)

/-! RECV_BODY_STATE -/

def recvBodyLoop : Nat → HttpTask → Cbuf UInt8 → Except Fault (Bool × HttpTask × Cbuf UInt8)
  | 0, task, recv => .ok (true, task, recv)
  | passes + 1, task, recv =>
      match bufGet recv with
      | (none, recv) => .ok (false, task, recv)
      | (some data, recv) =>
          match task.postBody with
          | none => .error .nullPointer
          | some block =>
              if task.postBodyIdx < block.size then
                recvBodyLoop passes { task with
                  postBody := some (block.write task.postBodyIdx data)
                  postBodyIdx := task.postBodyIdx + 1 } recv
              else .error (.bounds .postBody)

structure BodyPart (task : HttpTask) (text : Bytes) : Prop where
  stored : ∃ block, task.postBody = some block ∧ block.size = task.bodyBytesNum ∧
    block.read task.postBodyIdx = text
  within : text.length ≤ task.bodyBytesNum

theorem BodyPart.index {task : HttpTask} {text : Bytes} (part : BodyPart task text) :
    task.postBodyIdx = text.length := by
  obtain ⟨block, _, _, read⟩ := part.stored
  rw [← read, Block.read_length]

theorem BodyPart.missing {task : HttpTask} {text : Bytes} (part : BodyPart task text) :
    text.length + (task.bodyBytesNum - task.postBodyIdx) = task.bodyBytesNum := by
  have within := part.within
  rw [part.index]
  omega

inductive BodyRead (task : HttpTask) (text : Bytes) (recv : Cbuf UInt8) :
    Bool × HttpTask × Cbuf UInt8 → Prop
  | whole {body : Bytes} {postBody : Option Block} {postBodyIdx : Nat} {left : Cbuf UInt8}
      (part : BodyPart { task with postBody, postBodyIdx } body)
      (full : body.length = task.bodyBytesNum)
      (split : text ++ recv.content = body ++ left.content) (inv : left.Inv) :
      BodyRead task text recv (true, { task with postBody, postBodyIdx }, left)
  | short {postBody : Option Block} {postBodyIdx : Nat} {left : Cbuf UInt8}
      (part : BodyPart { task with postBody, postBodyIdx } (text ++ recv.content))
      (missing : (text ++ recv.content).length < task.bodyBytesNum) (inv : left.Inv)
      (empty : left.content = []) :
      BodyRead task text recv (false, { task with postBody, postBodyIdx }, left)

theorem recvBodyLoop_read {passes : Nat} {task : HttpTask} {text : Bytes} {recv : Cbuf UInt8}
    (part : BodyPart task text) (receiving : recv.Inv)
    (missing : text.length + passes = task.bodyBytesNum) :
    ∃ result, recvBodyLoop passes task recv = .ok result ∧ BodyRead task text recv result := by
  induction passes generalizing task text recv with
  | zero => exact ⟨_, rfl, .whole part missing rfl receiving⟩
  | succ passes ih =>
      cases shape : recv.content with
      | nil =>
          simp only [recvBodyLoop, receiving.get_nil shape]
          refine ⟨_, rfl, .short ?_ ?_ receiving shape⟩
          · rwa [shape, List.append_nil]
          · rw [shape, List.append_nil]
            omega
      | cons data rest =>
          obtain ⟨left, got, inv, content⟩ := receiving.get_cons shape
          obtain ⟨block, stored, size, read⟩ := part.stored
          have inside : task.postBodyIdx < block.size := by
            rw [part.index, size]
            omega
          let middle : HttpTask := { task with
            postBody := some (block.write task.postBodyIdx data)
            postBodyIdx := task.postBodyIdx + 1 }
          have next : BodyPart middle (text ++ [data]) := by
            refine ⟨⟨_, rfl, size, ?_⟩, ?_⟩
            · rw [← read]
              exact Block.read_write _ _ _
            · rw [List.length_append, List.length_singleton]
              change _ ≤ task.bodyBytesNum
              omega
          have joined : text ++ recv.content = text ++ [data] ++ left.content := by
            rw [shape, content, List.append_assoc, List.singleton_append]
          obtain ⟨result, ran, later⟩ := ih next inv (by
            rw [List.length_append, List.length_singleton]
            change _ = task.bodyBytesNum
            omega)
          simp only [recvBodyLoop, got, stored, if_pos inside]
          refine ⟨result, ran, ?_⟩
          cases later with
          | whole part full split inv => exact .whole part full (joined.trans split) inv
          | short part missing inv empty =>
              rw [← joined] at part missing
              exact .short part missing inv empty

def postBodyBytes (task : HttpTask) : Option Bytes :=
  task.postBody.map fun block => block.read task.bodyBytesNum

def recvBodyState (h : Handling) : Except Fault Pass :=
  match recvBodyLoop (h.task.bodyBytesNum - h.task.postBodyIdx) h.task h.peer.receivingBuffer with
  | .error fault => .error fault
  | .ok (false, task, receivingBuffer) =>
      .ok (.returns .keepConn ⟨h.request, task, { h.peer with receivingBuffer }⟩)
  | .ok (true, task, receivingBuffer) =>
      let block := task.parseBuf.read task.parseBufIdx
      let peer := { h.peer with receivingBuffer }.record [.framed block (postBodyBytes task)]
      .ok (.again ⟨h.request, { task with state := .checkCgi }, peer⟩)

/-! GENERATE_HEADER_STATE and SEND_HEADER_STATE -/

def generateHeaderState (h : Handling) : Except Fault Pass :=
  match generateNonbodyResponse h.task h.task.responseCode with
  | .error fault => .error fault
  | .ok (state, task) => .ok (.again { h with task := { task with state } })

def errorCode (responseCode : Int) : Bool :=
  responseCode = badRequestNum || responseCode = notFoundNum || responseCode = lengthRequireNum ||
    responseCode = internalServerErrorNum || responseCode = notImplementedNum ||
    responseCode = httpVersionNotSupportedNum

/-- The return of `send_nonbody_reponse` is compared with SEND_BODY_STATE. -/
def sendHeaderState (h : Handling) : Except Fault Pass :=
  match sendNonbodyReponse h.task h.peer with
  | (ret, task, peer) =>
      if ret = some .sendBody then .ok (.returns .keepConn ⟨h.request, task, peer⟩)
      else if errorCode task.responseCode then
        .ok (.again ⟨h.request, { task with state := .finished }, peer⟩)
      else
        match task.methodType with
        | .get => .ok (.again ⟨h.request, { task with state := .sendBody }, peer⟩)
        | .head => .ok (.again ⟨h.request, { task with state := .finished }, peer⟩)
        | .post => .ok (.again ⟨h.request, { task with state := .finished }, peer⟩)
        | .noMethod => .error .assertion

/-! CHECK_CGI -/

def isCgi (uri : Bytes) : Bool :=
  (if uri.length ≥ (str "/cgi/").length then uri.take (str "/cgi/").length else []) = str "/cgi/"

def cgiBody (task : HttpTask) (request : Request) : Except Fault Bytes :=
  if request.httpMethod = str "POST" ∧ task.bodyBytesNum > 0 then
    match task.postBody with
    | none => .error .nullPointer
    | some block => .ok (block.read task.bodyBytesNum)
  else .ok []

def startCgi (cfg : Config) (os : Os) (h : Handling) (request : Request) : Except Fault Pass := do
  let param ← buildCgiParam cfg.cgiScripts request h.peer.addres
  let task := { h.task with state := .processingCgi }
  let body ← cgiBody task request
  let peer ← startCgiScript os h.peer task.requests param body
  return .returns (if task.lastRequest then .closeConn else .keepConn) ⟨h.request, task, peer⟩

def checkStatic (cfg : Config) (os : Os) (h : Handling) (cell : RequestCell) :
    Except Fault Pass :=
  if h.task.methodType = .get ∨ h.task.methodType = .head then do
    let (responseCode, task, request, events) ←
      generateGetHeader cfg os h.task cell.request h.task.lastRequest
    let state := if responseCode = okNum then .sendHeader else .generateHeader
    return .again ⟨.live { cell with request }, { task with responseCode, state },
      h.peer.record events⟩
  else
    .ok (.again { h with task := { h.task with responseCode := okNum, state := .generateHeader } })

def checkCgiState (cfg : Config) (os : Os) (h : Handling) : Except Fault Pass :=
  match h.request.deref with
  | .error fault => .error fault
  | .ok cell =>
      if isCgi cell.request.httpUri then startCgi cfg os h cell.request
      else checkStatic cfg os h cell

/-! SEND_BODY_STATE -/

def sendBodyState (h : Handling) : Except Fault Pass :=
  if h.task.methodType ≠ .get then .error .assertion
  else
    match streamFileContent h.task h.peer with
    | .error fault => .error fault
    | .ok (.notDone, task, peer) => .ok (.returns .keepConn ⟨h.request, task, peer⟩)
    | .ok (.error, task, peer) => .ok (.returns .closeConnImmediately ⟨h.request, task, peer⟩)
    | .ok (.done, task, peer) =>
        .ok (.again ⟨h.request, { task with state := .finished }, peer⟩)

/-! The loop. -/

def httpPass (cfg : Config) (os : Os) (h : Handling) : Except Fault Pass :=
  match h.task.state with
  | .recvHeader => recvHeaderState cfg h
  | .recvBody => recvBodyState h
  | .generateHeader => generateHeaderState h
  | .sendHeader => sendHeaderState h
  | .checkCgi => checkCgiState cfg os h
  | .sendBody => sendBodyState h
  | .processingCgi => .error .exit
  | .finished => .error .exit

/-- `free_request`; the global keeps pointing at the freed memory. -/
def freeRequest (request : Ptr RequestCell) (peer : Peer) : Except Fault (Ptr RequestCell × Peer) :=
  match request with
  | .null => .ok (.null, peer)
  | .live _ => .ok (.freed, peer.record [.requestFreed])
  | .freed => .error .freed

/-- After the loop. The task is reset before its `last_request` is looked at. -/
def finishRequest (h : Handling) : Except Fault (Code × Handling) :=
  match freeRequest h.request h.peer with
  | .error fault => .error fault
  | .ok (request, peer) =>
      let task := resetHttpTask h.task
      .ok (if task.lastRequest then .closeConn else .keepConn, ⟨request, task, peer⟩)

/-- `none` when `fuel` passes do not end the loop. -/
def httpLoop (cfg : Config) (os : Os) : Nat → Handling → Option (Except Fault (Code × Handling))
  | 0, _ => none
  | fuel + 1, h =>
      if h.task.state = .finished then some (finishRequest h)
      else
        match httpPass cfg os h with
        | .error fault => some (.error fault)
        | .ok (.returns code h) => some (.ok (code, h))
        | .ok (.again h) => httpLoop cfg os fuel h

def HttpState.rank : HttpState → Nat
  | .recvHeader => 6
  | .recvBody => 5
  | .checkCgi => 4
  | .generateHeader => 3
  | .sendHeader => 2
  | .sendBody => 1
  | .finished => 0
  | .processingCgi => 0

def handleHttp (cfg : Config) (os : Os) (request : Ptr RequestCell) (peer : Peer) :
    Except Fault (Code × Ptr RequestCell × Peer) :=
  match peer.httpTask with
  | .null => .error .exit
  | .freed => .error .freed
  | .live task =>
      if task.state = .processingCgi then .ok (.keepConn, request, peer)
      else
        match httpLoop cfg os 7 ⟨request, task, peer⟩ with
        | none => .error .diverges
        | some (.error fault) => .error fault
        | some (.ok (code, h)) => .ok (code, h.request, { h.peer with httpTask := .live h.task })

/-! A server and a file system to run on. -/

def decimal (text : Bytes) : Int := text.foldl (fun value c => 10 * value + (c.toNat - 48)) 0

def sampleConfig : Config where
  wwwDir := str "www/"
  cgiScripts := str "cgi.py"
  parse := parse
  atoi := decimal

def sampleTime : TimeText where
  text := str "Mon, 01 Jan 2018 00:00:00 GMT"
  short := by decide
  plain := by decide +kernel

def sampleOs (opens : Bool) : Os where
  access path := path = str "www/a.html"
  stat path := if path = str "www/a.html" then some ⟨2, some sampleTime⟩ else none
  currTime := sampleTime
  fopen path := if opens ∧ path = str "www/a.html" then some ⟨7, str "hi", false, 0⟩ else none
  stdinPipe := some ⟨8, 9⟩
  stdoutPipe := some ⟨10, 11⟩
  fork := true
  execve := none

end Liso
