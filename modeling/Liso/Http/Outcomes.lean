import Liso.Http.Effect

/-! Response heads: the code and the head that a request comes to. -/

namespace Liso

def responseHead (task : HttpTask) : Bytes := task.responseBuf.content.map (·.val)

theorem Written.head {task next : HttpTask} {text : Bytes}
    (written : Written task text next) : responseHead next = responseHead task ++ text := by
  rw [responseHead, written.content, List.map_append, List.map_map]
  simp [responseHead, Function.comp_def]

/-- The passes from `h` until the task is first in SEND_HEADER_STATE. A call may return in between;
the next one then finds other valid buffers, another global `request` and another file system,
and `os` is the last one. -/
inductive Enters (cfg : Config) (os : Os) : Handling → Handling → Prop
  | arrives {h : Handling} (state : h.task.state = .sendHeader) : Enters cfg os h h
  | goesOn {h middle last : Handling} (before : h.task.state ≠ .sendHeader)
      (pass : httpPass cfg os h = .ok (.again middle)) (later : Enters cfg os middle last) :
      Enters cfg os h last
  | waits {other : Os} {h stopped last : Handling} {code : Code} {request : Ptr RequestCell}
      {peer : Peer} (before : h.task.state ≠ .sendHeader)
      (pass : httpPass cfg other h = .ok (.returns code stopped))
      (stays : code ≠ .closeConnImmediately) (sending : peer.sendingBuffer.Inv)
      (receiving : peer.receivingBuffer.Inv)
      (later : Enters cfg os ⟨request, stopped.task, peer⟩ last) : Enters cfg os h last

def fetches (request : Request) : Bool :=
  request.httpMethod = str "GET" || request.httpMethod = str "HEAD"

theorem fetches_noBody {cfg : Config} {request : Request} (fetched : fetches request = true) :
    bodyLength cfg request = none := by
  by_contra hasBody
  rw [fetches, bodyLength_post hasBody] at fetched
  exact absurd fetched (by decide)

theorem post_fetches {request : Request} (post : request.httpMethod = str "POST") :
    fetches request = false := by
  rw [fetches, post]
  decide

theorem unknown_fetches {cfg : Config} {request : Request}
    (other : request.httpMethod ∉ [str "HEAD", str "GET", str "POST"]) :
    fetches request = false ∧ bodyLength cfg request = none := by
  simp only [List.mem_cons, List.not_mem_nil, or_false, not_or] at other
  refine ⟨by simp [fetches, other], ?_⟩
  by_contra hasBody
  exact other.2.2 (bodyLength_post hasBody)

def asksClose (request : Request) : Bool := getHeaderValue request connection = close

inductive HeadOutcome (cfg : Config) (os : Os) (request : Request) : Int → Bytes → Prop
  | refused (post : request.httpMethod = str "POST") (noBody : bodyLength cfg request = none) :
      HeadOutcome cfg os request lengthRequireNum (nonbodyHead lengthRequireNum)
  | unknown (other : request.httpMethod ∉ [str "HEAD", str "GET", str "POST"]) :
      HeadOutcome cfg os request notImplementedNum (nonbodyHead notImplementedNum)
  | posted (hasBody : bodyLength cfg request ≠ none) :
      HeadOutcome cfg os request okNum (nonbodyHead okNum)
  | missing {fullpath : Bytes} {changed : Request} (fetched : fetches request = true)
      (path : makeFullPath cfg.wwwDir request = .ok (fullpath, changed))
      (absent : os.access fullpath = false) :
      HeadOutcome cfg os request notFoundNum (nonbodyHead notFoundNum)
  | unopened {fullpath : Bytes} {changed : Request} {facts : Described}
      (fetched : fetches request = true)
      (path : makeFullPath cfg.wwwDir request = .ok (fullpath, changed))
      (present : os.access fullpath = true)
      (described : describe os (loweredPath fullpath) = .ok facts)
      (noFile : os.fopen (loweredPath fullpath) = none) :
      HeadOutcome cfg os request internalServerErrorNum
        (getHead os facts fullpath (asksClose request) ++ nonbodyHead internalServerErrorNum)
  | opened {fullpath : Bytes} {changed : Request} {facts : Described} {file : File}
      (fetched : fetches request = true)
      (path : makeFullPath cfg.wwwDir request = .ok (fullpath, changed))
      (present : os.access fullpath = true)
      (described : describe os (loweredPath fullpath) = .ok facts)
      (hasFile : os.fopen (loweredPath fullpath) = some file) :
      HeadOutcome cfg os request okNum (getHead os facts fullpath (asksClose request))

def Owes (cfg : Config) (os : Os) (request : Request) (h : Handling) : Prop :=
  match h.task.state with
  | .recvHeader => False
  | .recvBody =>
      h.task.methodType = .post ∧ bodyLength cfg request ≠ none ∧ h.task.responseBuf.content = []
  | .checkCgi =>
      h.task.responseBuf.content = [] ∧
        (h.task.methodType = .post ∧ bodyLength cfg request ≠ none ∨
          h.task.methodType ≠ .post ∧ fetches request = true ∧
            h.task.lastRequest = asksClose request ∧
            ∃ cell, h.request = .live cell ∧ cell.request = request)
  | .generateHeader =>
      HeadOutcome cfg os request h.task.responseCode
        (responseHead h.task ++ nonbodyHead h.task.responseCode)
  | .sendHeader => HeadOutcome cfg os request h.task.responseCode (responseHead h.task)
  | _ => True

theorem markLastRequest_fields (task : HttpTask) (request : Request)
    (fresh : task.lastRequest = false) :
    (markLastRequest task request).lastRequest = asksClose request ∧
      (markLastRequest task request).responseBuf = task.responseBuf := by
  unfold markLastRequest asksClose
  split
  · next closes => exact ⟨(decide_eq_true closes).symm, rfl⟩
  · next stays => exact ⟨fresh.trans (decide_eq_false stays).symm, rfl⟩

private theorem error_owes {cfg : Config} {os : Os} {request : Request} {h : Handling}
    {responseCode : Int} (code : h.task.responseCode = responseCode)
    (empty : h.task.responseBuf.content = [])
    (outcome : HeadOutcome cfg os request responseCode (nonbodyHead responseCode)) :
    HeadOutcome cfg os request h.task.responseCode
      (responseHead h.task ++ nonbodyHead h.task.responseCode) := by
  rw [code, responseHead, empty]
  exact outcome

private theorem Taken.owes {cfg : Config} {os : Os} {task next : HttpTask} {request : Request}
    {peer : Peer} {cell : RequestCell} (took : Taken cfg task request next)
    (same : cell.request = request) (fresh : task.lastRequest = false)
    (empty : task.responseBuf.content = []) : Owes cfg os request ⟨.live cell, next, peer⟩ := by
  obtain ⟨last, buf⟩ := markLastRequest_fields task request fresh
  have blank : (markLastRequest task request).responseBuf.content = [] := by rw [buf, empty]
  cases took with
  | fetch method named =>
      have fetched : fetches request = true := by
        rcases method with rfl | rfl <;> simp [fetches, named]
      refine ⟨blank, .inr ⟨?_, fetched, last, cell, rfl, same⟩⟩
      rcases method with rfl | rfl <;> simp
  | refuse post noBody => exact error_owes rfl blank (.refused post noBody)
  | body hasBody => exact ⟨rfl, by simp [hasBody], blank⟩
  | unknown other => exact error_owes rfl blank (.unknown other)

private theorem GetHeader.owes {cfg : Config} {os : Os} {h : Handling} {cell : RequestCell}
    {code : Int} {next : HttpTask} {changed : Request} {events : List Event}
    (empty : h.task.responseBuf.content = []) (fetched : fetches cell.request = true)
    (last : h.task.lastRequest = asksClose cell.request)
    (found : GetHeader cfg os h.task cell.request h.task.lastRequest
      (code, next, changed, events)) :
    Owes cfg os cell.request ⟨.live { cell with request := changed },
      { next with
        responseCode := code
        state := if code = okNum then .sendHeader else .generateHeader },
      h.peer.record events⟩ := by
  have blank : responseHead h.task = [] := by rw [responseHead, empty, List.map_nil]
  cases found with
  | missing path absent => exact error_owes rfl empty (.missing fetched path absent)
  | unopened path present written described noFile =>
      have head := written.head
      rw [blank, List.nil_append, last] at head
      change HeadOutcome cfg os cell.request internalServerErrorNum
        (responseHead next ++ nonbodyHead internalServerErrorNum)
      rw [head]
      exact .unopened fetched path present described noFile
  | @opened fullpath _ middle facts file path present written described hasFile =>
      have head := written.head
      rw [blank, List.nil_append, last] at head
      change HeadOutcome cfg os cell.request okNum (responseHead middle)
      rw [head]
      exact .opened fetched path present described hasFile

private theorem PassCases.owes {cfg : Config} {os : Os} {h next : Handling} {request : Request}
    (before : h.task.state ≠ .sendHeader) (owes : Owes cfg os request h)
    (result : PassCases cfg os h (.again next)) : Owes cfg os request next := by
  unfold Owes at owes
  cases result with
  | headerGood state scanning read whole good took => simp only [state] at owes
  | bodyWhole state part read =>
      simp only [state] at owes
      obtain ⟨post, hasBody, empty⟩ := owes
      cases read with
      | whole part full split left => exact ⟨empty, .inl ⟨post, hasBody⟩⟩
  | generated state written =>
      simp only [state] at owes
      have head := written.head
      obtain ⟨responseBuf, rfl⟩ := written.frame
      change HeadOutcome _ _ _ _ (responseHead { h.task with responseBuf })
      rw [head]
      exact owes
  | headSent state sent => exact absurd state before
  | staticHead state live static method found =>
      simp only [state] at owes
      obtain ⟨empty, ⟨post, _⟩ | ⟨_, fetched, last, cell, isLive, rfl⟩⟩ := owes
      · rw [post] at method
        rcases method with impossible | impossible <;> cases impossible
      · cases live.symm.trans isLive
        exact found.owes empty fetched last
  | staticPost state live static post =>
      simp only [state] at owes
      obtain ⟨empty, ⟨_, hasBody⟩ | ⟨notPost, _⟩⟩ := owes
      · exact error_owes rfl empty (.posted hasBody)
      · exact absurd post notPost
  | fileDone state opened streamed => trivial

private theorem PassCases.owes_returns {cfg : Config} {os other : Os} {h stopped : Handling}
    {code : Code} {request : Request} (stays : code ≠ .closeConnImmediately)
    (owes : Owes cfg os request h) (result : PassCases cfg other h (.returns code stopped))
    (after : Ptr RequestCell) (peer : Peer) :
    Owes cfg os request ⟨after, stopped.task, peer⟩ := by
  unfold Owes at owes
  cases result with
  | headerShort state scanning read => simp only [state] at owes
  | headerLong => exact absurd rfl stays
  | headerBad => exact absurd rfl stays
  | bodyShort state part read =>
      simp only [state] at owes
      cases read with
      | short part missing left none =>
          unfold Owes
          simpa only [state] using owes
  | cgiStarted state live cgi started => trivial
  | fileWaits state opened streamed => simp [Owes, state]
  | fileFails => exact absurd rfl stays

private theorem Enters.owes {cfg : Config} {os : Os} {h last : Handling} {request : Request}
    (enters : Enters cfg os h last) (inv : h.Inv) (owes : Owes cfg os request h) :
    HeadOutcome cfg os request last.task.responseCode (responseHead last.task) := by
  induction enters with
  | arrives state =>
      unfold Owes at owes
      simpa only [state] using owes
  | goesOn before pass later ih =>
      have result := httpPass_cases inv pass
      exact ih (result.valid inv) (result.owes before owes)
  | waits before pass stays sending receiving later ih =>
      have result := httpPass_cases inv pass
      have valid := result.valid inv stays
      exact ih ⟨valid.task, sending, receiving⟩ (result.owes_returns stays owes _ _)

theorem Enters.outcome {cfg : Config} {first os : Os} {h taken last : Handling}
    {cell : RequestCell} (enters : Enters cfg os taken last) (inv : h.Inv)
    (state : h.task.state = .recvHeader) (pass : httpPass cfg first h = .ok (.again taken))
    (live : taken.request = .live cell) :
    HeadOutcome cfg os cell.request last.task.responseCode (responseHead last.task) := by
  have result := httpPass_cases inv pass
  apply enters.owes (result.valid inv)
  have ready := inv.task.ready
  simp only [HttpTask.Ready, state] at ready
  obtain ⟨_, fresh, _, _, empty, _⟩ := ready
  cases result with
  | headerGood _ scanning read whole good took =>
      cases live
      cases read with
      | ready size block joined cut short left => exact took.owes rfl fresh empty
  | bodyWhole other => cases state.symm.trans other
  | generated other => cases state.symm.trans other
  | headSent other => cases state.symm.trans other
  | staticHead other => cases state.symm.trans other
  | staticPost other => cases state.symm.trans other
  | fileDone other => cases state.symm.trans other

end Liso
