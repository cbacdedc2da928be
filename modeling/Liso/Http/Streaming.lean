import Liso.Http.Delivery
import Liso.Http.Heads

/-! SEND_BODY_STATE over all the calls it takes: what is put of a file, against the
length announced in front of it. -/

namespace Liso

/-- The calls of `stream_file_content`, with drains of the sending buffer between them, until one
returns STREAM_FILE_DONE: all the bytes put. -/
inductive StreamsFile : HttpTask → Peer → List OutByte → Prop
  | ends {task after : HttpTask} {peer next : Peer} {events : List Event}
      (streamed : streamFileContent task peer = .ok (.done, after, next))
      (trace : next.trace = peer.trace ++ events) : StreamsFile task peer (Trace.puts events)
  | waits {task after : HttpTask} {peer stopped drained : Peer} {events : List Event}
      {count : Nat} {more : List OutByte}
      (streamed : streamFileContent task peer = .ok (.notDone, after, stopped))
      (trace : stopped.trace = peer.trace ++ events) (drains : Drained stopped count drained)
      (later : StreamsFile after drained more) : StreamsFile task peer (Trace.puts events ++ more)

theorem StreamsFile.bytes {task : HttpTask} {peer : Peer} {bytes : List OutByte} {file : File}
    (streams : StreamsFile task peer bytes) (sending : peer.sendingBuffer.Inv)
    (opened : task.fp = .live file) (reads : file.fails = false) :
    bytes = (file.rest ++ [eofChar]).map (⟨·, file.req⟩) := by
  induction streams generalizing file with
  | @ends task after peer next events streamed trace =>
      obtain ⟨status, fp, last, ran, result⟩ := streamFileContent_streamed sending opened
      cases ran.symm.trans streamed
      cases result with
      | done ends puts =>
          obtain ⟨sendingBuffer, rfl⟩ := puts.frame
          have same := List.append_cancel_left ((List.append_assoc _ _ _).symm.trans trace)
          rw [← same, Trace.puts_append, Trace.puts_map_put]
          exact List.append_nil _
  | @waits task after peer stopped drained events count more streamed trace drains later ih =>
      obtain ⟨status, fp, last, ran, result⟩ := streamFileContent_streamed sending opened
      cases ran.symm.trans streamed
      cases result with
      | @notDone front rest _ split puts full =>
          obtain ⟨sendingBuffer, rfl⟩ := puts.frame
          have same := List.append_cancel_left trace
          have tail := ih drains.inv rfl reads
          rw [← same, Trace.puts_map_put, tail, split, List.append_assoc front]
          exact List.map_append.symm

private theorem drained_empty (peer : Peer) :
    Drained peer peer.sendingBuffer.content.length
      { peer with sendingBuffer := bufReset peer.sendingBuffer } where
  inv := Cbuf.reset_inv _
  content := (List.drop_length (l := peer.sendingBuffer.content)).symm
  rest := rfl

theorem streams_ends {task : HttpTask} {peer : Peer} {file : File}
    (sending : peer.sendingBuffer.Inv) (opened : task.fp = .live file)
    (reads : file.fails = false) : ∃ bytes, StreamsFile task peer bytes := by
  induction measure : file.rest.length + peer.sendingBuffer.content.length using Nat.strongRecOn
    generalizing task peer file with
  | ind left ih =>
      obtain ⟨status, fp, next, ran, result⟩ := streamFileContent_streamed sending opened
      cases result with
      | @notDone front rest _ split puts full =>
          rw [puts.content, List.length_append, List.length_map] at full
          have shorter : rest.length + 0 < left := by
            rw [← measure, split, List.length_append]
            rw [bufDataMaxsize] at full
            omega
          have drains := drained_empty next
          have left : ({ task with fp := .live { file with rest } } : HttpTask).fp =
              .live { file with rest } := rfl
          obtain ⟨more, later⟩ := ih _ shorter drains.inv left reads rfl
          exact ⟨_, .waits ran (congrArg Peer.trace puts.rest) drains later⟩
      | error fails puts => cases reads.symm.trans fails
      | done ends puts =>
          obtain ⟨sendingBuffer, rfl⟩ := puts.frame
          exact ⟨_, .ends ran (List.append_assoc _ _ _)⟩

/-- The body of a response is the file, and as long as announced. -/
structure BodyIsFile (file : File) (announced : Nat) (bytes : List OutByte) : Prop where
  content : bytes.map OutByte.val = file.rest
  length : bytes.length = announced

theorem StreamsFile.excess {task : HttpTask} {peer : Peer} {bytes : List OutByte} {file : File}
    {announced : Nat} (streams : StreamsFile task peer bytes) (sending : peer.sendingBuffer.Inv)
    (opened : task.fp = .live file) (reads : file.fails = false) :
    ¬ BodyIsFile file announced bytes := by
  intro whole
  have count := congrArg List.length whole.content
  rw [streams.bytes sending opened reads, List.length_map, List.length_map, List.length_append,
    List.length_singleton] at count
  omega

/-- The file is there to be read as `stat` finds it. -/
def Os.Steady (os : Os) : Prop :=
  ∀ path file facts, os.fopen path = some file → describe os path = .ok facts →
    file.fails = false ∧ facts.size = file.rest.length

private theorem PassCases.opens {cfg : Config} {os : Os} {h head : Handling}
    (result : PassCases cfg os h (.again head)) (state : h.task.state = .checkCgi)
    (get : h.task.methodType = .get) (ok : head.task.responseCode = okNum) :
    ∃ path file facts req front back, os.fopen path = some file ∧
      describe os path = .ok facts ∧ head.task.fp = .live { file with req } ∧
      head.task.state = .sendHeader ∧
      responseHead head.task =
        front ++ headerLine (str "Content-Length") (str (toString facts.size)) ++ back := by
  cases result with
  | headerGood other => cases state.symm.trans other
  | bodyWhole other => cases state.symm.trans other
  | generated other => cases state.symm.trans other
  | headSent other => cases state.symm.trans other
  | fileDone other => cases state.symm.trans other
  | staticPost _ live static post => cases get.symm.trans post
  | staticHead _ live static method found =>
      cases found with
      | missing path absent => exact absurd ok (show notFoundNum ≠ okNum by decide)
      | unopened path present written described noFile =>
          exact absurd ok (show internalServerErrorNum ≠ okNum by decide)
      | @opened fullpath _ middle facts file path present written described hasFile =>
          refine ⟨_, file, facts, _, responseHead h.task ++ (statusLine (str "200") (str "OK") ++
            headerLine (str "Server") serverName ++ headerLine (str "Date") os.currTime.text),
            headerLine (str "Content-Type") (mimeOfPath fullpath) ++
            (headerLine (str "Last-modified") facts.modified.text ++
            (headerLine connection (if h.task.lastRequest then close else keepAlive) ++ crlf)),
            hasFile, described, rfl, rfl, ?_⟩
          apply Eq.trans (written.head : responseHead middle = _)
          simp only [getHead, List.append_assoc]

/-- What is put for a GET that finds its file is never the file: the calls come to an end, and then
the end of the file was put as one more byte than announced. -/
theorem body_exceeds_file {cfg : Config} {os : Os} {h head body : Handling} (inv : h.Inv)
    (state : h.task.state = .checkCgi) (get : h.task.methodType = .get) (steady : os.Steady)
    (found : httpPass cfg os h = .ok (.again head)) (ok : head.task.responseCode = okNum)
    (sent : httpPass cfg os head = .ok (.again body)) :
    ∃ path file announced front back, os.fopen path = some file ∧
      responseHead head.task =
        front ++ headerLine (str "Content-Length") (str (toString announced)) ++ back ∧
      announced = file.rest.length ∧ (∃ bytes, StreamsFile body.task body.peer bytes) ∧
      ∀ bytes, StreamsFile body.task body.peer bytes → ¬ BodyIsFile file announced bytes := by
  have first := httpPass_cases inv found
  obtain ⟨path, file, facts, req, front, back, hasFile, described, opened, next, announced⟩ :=
    first.opens state get ok
  have valid : head.Inv := first.valid inv
  have second := httpPass_cases valid sent
  have sending : body.peer.sendingBuffer.Inv := (second.valid valid).sending
  have kept : body.task.fp = .live { file with req } := by
    cases second with
    | headSent _ result =>
        obtain ⟨responseBuf, rfl, _⟩ := result.left
        exact opened
    | headerGood other => cases next.symm.trans other
    | bodyWhole other => cases next.symm.trans other
    | generated other => cases next.symm.trans other
    | staticHead other => cases next.symm.trans other
    | staticPost other => cases next.symm.trans other
    | fileDone other => cases next.symm.trans other
  obtain ⟨reads, length⟩ := steady path file facts hasFile described
  have whole (bytes : List OutByte) (streams : StreamsFile body.task body.peer bytes) :
      ¬ BodyIsFile file facts.size bytes := by
    intro same
    exact streams.excess sending kept reads ⟨same.content, same.length⟩
  exact ⟨path, file, facts.size, front, back, hasFile, announced, length,
    streams_ends sending kept reads, whole⟩

def lookedUp : Handling where
  request := .live ⟨⟨str "HTTP/1.1", str "GET", str "/a.html", [], 0⟩, 0, 1⟩
  task := { createHttpTask with state := .checkCgi, methodType := .get, requests := 1 }
  peer := createPeer

theorem lookedUp_inv : lookedUp.Inv where
  task := ⟨Cbuf.reset_inv _, rfl, List.forall_mem_nil _, by simp [lookedUp], rfl⟩
  sending := Cbuf.reset_inv _
  receiving := Cbuf.reset_inv _

theorem sampleOs_steady (opens : Bool) : (sampleOs opens).Steady := by
  intro path file facts found described
  have stated := describe_ok described
  simp only [sampleOs] at found stated
  split at found
  · next named =>
      rw [if_pos named.2] at stated
      cases found
      exact ⟨rfl, (congrArg FileStat.size (Option.some.inj stated)).symm⟩
  · cases found

theorem body_exceeds_file_two : ∃ body : Handling, body.task.state = .sendBody ∧
    ∃ file announced, (∃ bytes, StreamsFile body.task body.peer bytes) ∧
      ∀ bytes, StreamsFile body.task body.peer bytes → ¬ BodyIsFile file announced bytes := by
  have reached : ((goesOn sampleConfig (sampleOs true) lookedUp).bind fun head =>
      (goesOn sampleConfig (sampleOs true) head).map fun body =>
        (head.task.responseCode, body.task.state)) = some (okNum, .sendBody) := by
    decide +kernel
  obtain ⟨head, first, reached⟩ := Option.bind_eq_some_iff.mp reached
  obtain ⟨body, second, shape⟩ := Option.map_eq_some_iff.mp reached
  simp only [Prod.mk.injEq] at shape
  obtain ⟨path, file, announced, _, _, _, _, _, ends, excess⟩ :=
    body_exceeds_file lookedUp_inv rfl rfl (sampleOs_steady true) (goesOn_pass first) shape.1
      (goesOn_pass second)
  exact ⟨body, shape.2, file, announced, ends, excess⟩

def twoBytes : File := ⟨7, str "hi", false, 1⟩

/-- Two bytes are in the file, and three are put. -/
theorem body_not_file : ∃ bytes,
    StreamsFile { createHttpTask with fp := .live twoBytes } createPeer bytes ∧
      ¬ BodyIsFile twoBytes 2 bytes := by
  have sending : createPeer.sendingBuffer.Inv := Cbuf.reset_inv _
  have opened : ({ createHttpTask with fp := .live twoBytes } : HttpTask).fp = .live twoBytes := rfl
  obtain ⟨bytes, streams⟩ := streams_ends sending opened rfl
  exact ⟨bytes, streams, streams.excess sending opened rfl⟩

end Liso
