import Liso.Http.Handler

/-! What one pass of `handle_http` does to a valid task, state by state. -/

namespace Liso

def bodyLength (cfg : Config) (request : Request) : Option Nat :=
  let contentLengthStr := getHeaderValue request (str "Content-Length")
  if request.httpMethod = str "POST" ∧ contentLengthStr ≠ [] ∧ 0 ≤ cfg.atoi contentLengthStr then
    some (cfg.atoi contentLengthStr).toNat
  else none

theorem bodyLength_post {cfg : Config} {request : Request}
    (hasBody : bodyLength cfg request ≠ none) : request.httpMethod = str "POST" := by
  by_contra other
  exact hasBody (by simp [bodyLength, other])

inductive Taken (cfg : Config) (task : HttpTask) (request : Request) : HttpTask → Prop
  | fetch {methodType : MethodType} (method : methodType = .get ∨ methodType = .head)
      (named : request.httpMethod = if methodType = .get then str "GET" else str "HEAD") :
      Taken cfg task request { markLastRequest task request with methodType, state := .checkCgi }
  | refuse (post : request.httpMethod = str "POST") (noBody : bodyLength cfg request = none) :
      Taken cfg task request { markLastRequest task request with
        methodType := .post
        responseCode := lengthRequireNum
        state := .generateHeader }
  | body {length : Nat} (hasBody : bodyLength cfg request = some length) :
      Taken cfg task request { markLastRequest task request with
        methodType := .post
        bodyBytesNum := length
        postBody := some (.malloc length)
        postBodyIdx := 0
        state := .recvBody }
  | unknown (other : request.httpMethod ∉ [str "HEAD", str "GET", str "POST"]) :
      Taken cfg task request { markLastRequest task request with
        responseCode := notImplementedNum
        state := .generateHeader }

theorem Taken.requests {cfg : Config} {task next : HttpTask} {request : Request}
    (took : Taken cfg task request next) : next.requests = task.requests := by
  have marked : (markLastRequest task request).requests = task.requests := by
    unfold markLastRequest
    split <;> rfl
  cases took <;> exact marked

theorem takeRequest_taken {cfg : Config} {task next : HttpTask} {request : Request}
    (took : takeRequest cfg task request = .ok next) : Taken cfg task request next := by
  simp only [takeRequest] at took
  split at took
  · next head =>
      cases took
      exact .fetch (.inr rfl) head
  · next notHead =>
    split at took
    · next get =>
        cases took
        exact .fetch (.inl rfl) get
    · next notGet =>
      split at took
      · next post =>
          split at took
          · next empty =>
              cases took
              refine .refuse post ?_
              simp [bodyLength, List.eq_nil_of_length_eq_zero empty]
          · next present =>
            split at took
            · next negative =>
                cases took
                refine .refuse post ?_
                simp [bodyLength, not_le.mpr negative]
            · next natural =>
              split at took
              · cases took
              · cases took
                refine .body ?_
                have nonempty := mt List.length_eq_zero_iff.mpr present
                simp [bodyLength, post, nonempty, not_lt.mp natural]
      · next notPost =>
          cases took
          exact .unknown (by simp [notHead, notGet, notPost])

def HttpTask.HasFile (task : HttpTask) : Prop :=
  ∃ file : File, task.fp = .live file ∧ file.req = task.requests

/-- What the pass of each state relies on. -/
def HttpTask.Ready (task : HttpTask) : Prop :=
  match task.state with
  | .recvHeader =>
      task.responseCode = -1 ∧ task.lastRequest = false ∧ task.methodType = .noMethod ∧
        task.bodyBytesNum = 0 ∧ task.responseBuf.content = [] ∧ ∃ text, Scanning task text
  | .recvBody =>
      task.methodType = .post ∧ task.responseBuf.content = [] ∧ ∃ text, BodyPart task text
  | .checkCgi => task.methodType ≠ .noMethod ∧ task.responseBuf.content = []
  | .generateHeader =>
      validResponseCode task.responseCode = true ∧ task.responseBuf.content.length ≤ 700 ∧
        (task.responseCode = okNum → task.methodType = .post)
  | .sendHeader =>
      errorCode task.responseCode = true ∨ task.methodType = .head ∨ task.methodType = .post ∨
        task.methodType = .get ∧ task.HasFile
  | .sendBody => task.methodType = .get ∧ task.HasFile
  | .finished => True
  | .processingCgi => True

structure HttpTask.Inv (task : HttpTask) : Prop where
  response : task.responseBuf.Inv
  parseSize : task.parseBuf.size = bufDataMaxsize
  tags : ∀ byte ∈ task.responseBuf.content, byte.req = task.requests
  ready : task.Ready

structure Handling.Inv (h : Handling) : Prop where
  task : h.task.Inv
  sending : h.peer.sendingBuffer.Inv
  receiving : h.peer.receivingBuffer.Inv

def Handling.receive (h : Handling) (left : Cbuf UInt8) : Peer :=
  { h.peer with receivingBuffer := left }

def afterHead (task : HttpTask) : HttpState :=
  if errorCode task.responseCode then .finished
  else
    match task.methodType with
    | .get => .sendBody
    | _ => .finished

theorem afterHead_cases (task : HttpTask) :
    afterHead task = .sendBody ∨ afterHead task = .finished := by
  unfold afterHead
  split
  · exact .inr rfl
  · split
    · exact .inl rfl
    · exact .inr rfl

def Answered (task : HttpTask) : Prop :=
  errorCode task.responseCode = true ∨ task.methodType ≠ .noMethod

/-- Whatever `send_nonbody_reponse` returns, the state is left. -/
theorem sendHeaderState_sent {h : Handling} (response : h.task.responseBuf.Inv)
    (sending : h.peer.sendingBuffer.Inv) (answered : Answered h.task) :
    ∃ ret sent next, HeadSent h.task h.peer (ret, sent, next) ∧
      sendHeaderState h = .ok (.again ⟨h.request, { sent with state := afterHead sent }, next⟩) := by
  have sent := sendNonbodyReponse_sent response sending
  rw [sendHeaderState]
  generalize sendNonbodyReponse h.task h.peer = result at sent
  obtain ⟨ret, task, next⟩ := result
  refine ⟨ret, task, next, sent, ?_⟩
  have goesOn : ¬ ret = some .sendBody := by
    cases sent <;> simp
  have same : Answered task := by
    cases sent <;> exact answered
  simp only [if_neg goesOn]
  split
  · next error => rw [afterHead, if_pos error]
  · next fine =>
      split
      · next get => simp [afterHead, fine, get]
      · next head => simp [afterHead, fine, head]
      · next post => simp [afterHead, fine, post]
      · next noMethod => exact absurd noMethod (same.resolve_left fine)

def Fed (task : HttpTask) (request : Request) (next : Peer) : Prop :=
  ∃ body executor, cgiBody task request = .ok body ∧ next.cgiExecutor = .live executor ∧
    executor.pending = (cgiBufferOf body).2

inductive PassCases (cfg : Config) (os : Os) (h : Handling) : Pass → Prop
  | headerShort {text : Bytes} {next : HttpTask} {left : Cbuf UInt8}
      (state : h.task.state = .recvHeader) (scanning : Scanning h.task text)
      (read : HeaderRead h.task text h.peer.receivingBuffer (.emptyRecvBuf, next, left)) :
      PassCases cfg os h (.returns .keepConn ⟨h.request, next, h.receive left⟩)
  | headerLong {text : Bytes} {next : HttpTask} {left : Cbuf UInt8}
      (state : h.task.state = .recvHeader) (scanning : Scanning h.task text)
      (read : HeaderRead h.task text h.peer.receivingBuffer (.parserBufOverflow, next, left)) :
      PassCases cfg os h (.returns .closeConnImmediately ⟨h.request, next, h.receive left⟩)
  | headerBad {text block : Bytes} {next : HttpTask} {left : Cbuf UInt8}
      (state : h.task.state = .recvHeader) (scanning : Scanning h.task text)
      (read : HeaderRead h.task text h.peer.receivingBuffer (.ready, next, left))
      (whole : next.parseBuf.read next.parseBufIdx = block) (bad : cfg.parse block = .ok none) :
      PassCases cfg os h (.returns .closeConnImmediately
        ⟨.null, { next with requests := next.requests + 1 }, (h.receive left).record
          [.parsed (next.requests + 1) block, .framed block none]⟩)
  | headerGood {text block : Bytes} {next taken : HttpTask} {left : Cbuf UInt8}
      {request : Request} (state : h.task.state = .recvHeader) (scanning : Scanning h.task text)
      (read : HeaderRead h.task text h.peer.receivingBuffer (.ready, next, left))
      (whole : next.parseBuf.read next.parseBufIdx = block)
      (good : cfg.parse block = .ok (some request))
      (took : Taken cfg { next with requests := next.requests + 1 } request taken) :
      PassCases cfg os h (.again ⟨.live ⟨request, h.peer.conn, next.requests + 1⟩, taken,
        (h.receive left).record (.parsed (next.requests + 1) block ::
          if taken.state = .recvBody then [] else [.framed block none])⟩)
  | bodyShort {text : Bytes} {next : HttpTask} {left : Cbuf UInt8}
      (state : h.task.state = .recvBody) (part : BodyPart h.task text)
      (read : BodyRead h.task text h.peer.receivingBuffer (false, next, left)) :
      PassCases cfg os h (.returns .keepConn ⟨h.request, next, h.receive left⟩)
  | bodyWhole {text : Bytes} {next : HttpTask} {left : Cbuf UInt8}
      (state : h.task.state = .recvBody) (part : BodyPart h.task text)
      (read : BodyRead h.task text h.peer.receivingBuffer (true, next, left)) :
      PassCases cfg os h (.again ⟨h.request, { next with state := .checkCgi },
        (h.receive left).record
          [.framed (next.parseBuf.read next.parseBufIdx) (postBodyBytes next)]⟩)
  | generated {next : HttpTask} (state : h.task.state = .generateHeader)
      (written : Written h.task (nonbodyHead h.task.responseCode) next) :
      PassCases cfg os h (.again ⟨h.request, { next with state := .sendHeader }, h.peer⟩)
  | headSent {ret : Option HttpState} {sent : HttpTask} {next : Peer}
      (state : h.task.state = .sendHeader) (result : HeadSent h.task h.peer (ret, sent, next)) :
      PassCases cfg os h (.again ⟨h.request, { sent with state := afterHead sent }, next⟩)
  | cgiStarted {cell : RequestCell} {next : Peer} (state : h.task.state = .checkCgi)
      (live : h.request = .live cell) (cgi : isCgi cell.request.httpUri = true)
      (started : CgiStarted h.peer h.task.requests next) (fed : Fed h.task cell.request next) :
      PassCases cfg os h (.returns (if h.task.lastRequest then .closeConn else .keepConn)
        ⟨h.request, { h.task with state := .processingCgi }, next⟩)
  | staticHead {cell : RequestCell} {code : Int} {next : HttpTask} {changed : Request}
      {events : List Event} (state : h.task.state = .checkCgi) (live : h.request = .live cell)
      (static : isCgi cell.request.httpUri = false)
      (method : h.task.methodType = .get ∨ h.task.methodType = .head)
      (found : GetHeader cfg os h.task cell.request h.task.lastRequest
        (code, next, changed, events)) :
      PassCases cfg os h (.again ⟨.live { cell with request := changed },
        { next with
          responseCode := code
          state := if code = okNum then .sendHeader else .generateHeader },
        h.peer.record events⟩)
  | staticPost {cell : RequestCell} (state : h.task.state = .checkCgi)
      (live : h.request = .live cell) (static : isCgi cell.request.httpUri = false)
      (post : h.task.methodType = .post) :
      PassCases cfg os h (.again ⟨h.request,
        { h.task with responseCode := okNum, state := .generateHeader }, h.peer⟩)
  | fileWaits {file : File} {fp : Ptr File} {next : Peer} (state : h.task.state = .sendBody)
      (opened : h.task.fp = .live file) (streamed : FileStreamed file h.peer (.notDone, fp, next)) :
      PassCases cfg os h (.returns .keepConn ⟨h.request, { h.task with fp }, next⟩)
  | fileFails {file : File} {fp : Ptr File} {next : Peer} (state : h.task.state = .sendBody)
      (opened : h.task.fp = .live file) (streamed : FileStreamed file h.peer (.error, fp, next)) :
      PassCases cfg os h (.returns .closeConnImmediately ⟨h.request, { h.task with fp }, next⟩)
  | fileDone {file : File} {fp : Ptr File} {next : Peer} (state : h.task.state = .sendBody)
      (opened : h.task.fp = .live file) (streamed : FileStreamed file h.peer (.done, fp, next)) :
      PassCases cfg os h (.again ⟨h.request, { h.task with fp, state := .finished }, next⟩)

section Passes

variable {cfg : Config} {os : Os} {h : Handling} {pass : Pass}

theorem Handling.Inv.headerRead (inv : h.Inv) (state : h.task.state = .recvHeader) :
    ∃ text status next left, Scanning h.task text ∧
      ¬ (h.task.responseCode ≠ -1 ∨ h.task.lastRequest = true ∨ h.task.methodType ≠ .noMethod) ∧
      readHeaderData h.task h.peer = .ok (status, next, { h.peer with receivingBuffer := left }) ∧
      HeaderRead h.task text h.peer.receivingBuffer (status, next, left) := by
  have ready := inv.task.ready
  simp only [HttpTask.Ready, state] at ready
  obtain ⟨code, last, method, _, _, text, scanning⟩ := ready
  obtain ⟨⟨status, next, left⟩, ran, read⟩ :=
    readHeaderLoop_read scanning inv.receiving h.peer.receivingBuffer.content_length
  refine ⟨text, status, next, left, scanning, ?_, ?_, read⟩
  · simp [code, last, method]
  · rw [readHeaderData, ran]

theorem Handling.Inv.bodyRead (inv : h.Inv) (state : h.task.state = .recvBody) :
    ∃ text whole next left, BodyPart h.task text ∧
      recvBodyLoop (h.task.bodyBytesNum - h.task.postBodyIdx) h.task h.peer.receivingBuffer =
        .ok (whole, next, left) ∧
      BodyRead h.task text h.peer.receivingBuffer (whole, next, left) := by
  have ready := inv.task.ready
  simp only [HttpTask.Ready, state] at ready
  obtain ⟨_, _, text, part⟩ := ready
  obtain ⟨⟨whole, next, left⟩, ran, read⟩ := recvBodyLoop_read part inv.receiving part.missing
  exact ⟨text, whole, next, left, part, ran, read⟩

theorem Handling.Inv.openedFor {file : File} (inv : h.Inv) (state : h.task.state = .sendBody)
    (opened : h.task.fp = .live file) : file.req = h.task.requests := by
  have ready := inv.task.ready
  simp only [HttpTask.Ready, state] at ready
  obtain ⟨_, current, isCurrent, req⟩ := ready
  cases isCurrent.symm.trans opened
  exact req

theorem Handling.Inv.nonbodyResponse (inv : h.Inv) (state : h.task.state = .generateHeader) :
    ∃ next, generateNonbodyResponse h.task h.task.responseCode = .ok (.sendHeader, next) ∧
      Written h.task (nonbodyHead h.task.responseCode) next := by
  have ready := inv.task.ready
  simp only [HttpTask.Ready, state] at ready
  obtain ⟨valid, short, _⟩ := ready
  have room : HasRoom h.task (nonbodyHead h.task.responseCode) := by
    refine ⟨inv.task.response, ?_⟩
    have bound := nonbodyHead_length h.task.responseCode
    rw [bufDataMaxsize]
    omega
  exact generateNonbodyResponse_written valid room

private theorem recvHeaderState_cases (inv : h.Inv) (state : h.task.state = .recvHeader)
    (passed : recvHeaderState cfg h = .ok pass) : PassCases cfg os h pass := by
  obtain ⟨text, status, next, left, scanning, fresh, ran, read⟩ := inv.headerRead state
  rw [recvHeaderState, if_neg fresh] at passed
  simp only [ran] at passed
  cases status with
  | emptyRecvBuf =>
      cases passed
      exact .headerShort state scanning read
  | parserBufOverflow =>
      cases passed
      exact .headerLong state scanning read
  | ready =>
      simp only at passed
      cases parsed : cfg.parse (next.parseBuf.read next.parseBufIdx) with
      | error fault =>
          simp only [parsed] at passed
          cases passed
      | ok answer =>
          cases answer with
          | none =>
              simp only [parsed] at passed
              cases passed
              have case : PassCases cfg os h _ := .headerBad state scanning read rfl parsed
              simpa [Handling.receive, Peer.record] using case
          | some request =>
              simp only [parsed] at passed
              cases took : takeRequest cfg { next with requests := next.requests + 1 } request with
              | error fault =>
                  simp only [took] at passed
                  cases passed
              | ok taken =>
                  simp only [took] at passed
                  cases passed
                  have case : PassCases cfg os h _ :=
                    .headerGood state scanning read rfl parsed (takeRequest_taken took)
                  simpa [Handling.receive, Peer.record] using case

private theorem recvBodyState_cases (inv : h.Inv) (state : h.task.state = .recvBody)
    (passed : recvBodyState h = .ok pass) : PassCases cfg os h pass := by
  obtain ⟨text, whole, next, left, part, ran, read⟩ := inv.bodyRead state
  rw [recvBodyState, ran] at passed
  cases whole with
  | false =>
      cases passed
      exact .bodyShort state part read
  | true =>
      cases passed
      exact .bodyWhole state part read

private theorem generateHeaderState_cases (inv : h.Inv) (state : h.task.state = .generateHeader)
    (passed : generateHeaderState h = .ok pass) : PassCases cfg os h pass := by
  obtain ⟨next, generated, written⟩ := inv.nonbodyResponse state
  rw [generateHeaderState, generated] at passed
  cases passed
  exact .generated state written

private theorem sendHeaderState_cases (inv : h.Inv) (state : h.task.state = .sendHeader)
    (passed : sendHeaderState h = .ok pass) : PassCases cfg os h pass := by
  have ready := inv.task.ready
  simp only [HttpTask.Ready, state] at ready
  have answered : Answered h.task := by
    rcases ready with error | head | post | ⟨get, _⟩
    · exact .inl error
    · exact .inr (by simp [head])
    · exact .inr (by simp [post])
    · exact .inr (by simp [get])
  obtain ⟨ret, sent, next, result, ran⟩ :=
    sendHeaderState_sent inv.task.response inv.sending answered
  cases ran.symm.trans passed
  exact .headSent state result

private theorem checkCgiState_cases (inv : h.Inv) (state : h.task.state = .checkCgi)
    (passed : checkCgiState cfg os h = .ok pass) : PassCases cfg os h pass := by
  have ready := inv.task.ready
  simp only [HttpTask.Ready, state] at ready
  obtain ⟨some, empty⟩ := ready
  rw [checkCgiState] at passed
  cases live : h.request with
  | null => simp only [live, Ptr.deref] at passed; cases passed
  | freed => simp only [live, Ptr.deref] at passed; cases passed
  | live cell =>
      simp only [live, Ptr.deref] at passed
      split at passed
      · next cgi =>
          simp only [startCgi, bind_ok] at passed
          obtain ⟨param, _, body, bodied, next, started, passed⟩ := passed
          cases passed
          obtain ⟨_, executor, _, _, pending, _, shape⟩ := startCgiScript_executor started
          refine .cgiStarted state live cgi (startCgiScript_started started) ?_
          exact ⟨body, executor, bodied, by rw [shape]; rfl, pending⟩
      · next static =>
          have notCgi : isCgi cell.request.httpUri = false := by simpa using static
          rw [checkStatic] at passed
          split at passed
          · next method =>
              simp only [bind_ok] at passed
              obtain ⟨⟨code, next, changed, events⟩, generated, passed⟩ := passed
              cases passed
              refine .staticHead state live notCgi method (generateGetHeader_cases ?_ generated)
              intro text short
              refine ⟨inv.task.response, ?_⟩
              rw [empty, bufDataMaxsize]
              simp only [List.length_nil]
              omega
          · next method =>
              cases passed
              refine .staticPost state live notCgi ?_
              cases kind : h.task.methodType <;> simp_all

private theorem sendBodyState_cases (inv : h.Inv) (state : h.task.state = .sendBody)
    (passed : sendBodyState h = .ok pass) : PassCases cfg os h pass := by
  have ready := inv.task.ready
  simp only [HttpTask.Ready, state] at ready
  obtain ⟨get, file, opened, _⟩ := ready
  obtain ⟨status, fp, next, streamed, result⟩ := streamFileContent_streamed inv.sending opened
  rw [sendBodyState, if_neg (by simp [get]), streamed] at passed
  cases status with
  | notDone =>
      cases passed
      exact .fileWaits state opened result
  | error =>
      cases passed
      exact .fileFails state opened result
  | done =>
      cases passed
      exact .fileDone state opened result

theorem httpPass_cases (inv : h.Inv) (passed : httpPass cfg os h = .ok pass) :
    PassCases cfg os h pass := by
  unfold httpPass at passed
  cases state : h.task.state with
  | recvHeader =>
      simp only [state] at passed
      exact recvHeaderState_cases inv state passed
  | recvBody =>
      simp only [state] at passed
      exact recvBodyState_cases inv state passed
  | generateHeader =>
      simp only [state] at passed
      exact generateHeaderState_cases inv state passed
  | sendHeader =>
      simp only [state] at passed
      exact sendHeaderState_cases inv state passed
  | checkCgi =>
      simp only [state] at passed
      exact checkCgiState_cases inv state passed
  | sendBody =>
      simp only [state] at passed
      exact sendBodyState_cases inv state passed
  | processingCgi =>
      simp only [state] at passed
      cases passed
  | finished =>
      simp only [state] at passed
      cases passed

end Passes

end Liso
