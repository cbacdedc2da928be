import Liso.Http.Heads

/-! Two calls of `handle_http` side by side: what a pass shows depends on a few fields of
the task only, and not on what earlier requests left in the others. -/

namespace Liso

inductive Shown
  | put (val : UInt8)
  | opened (fd : Nat)
  | closed (fd : Nat)
  | returned (code : Code)
  deriving DecidableEq

def Event.shown : Event → Option Shown
  | .put byte => some (.put byte.val)
  | .opened fd => some (.opened fd)
  | .closed fd => some (.closed fd)
  | .returned code => some (.returned code)
  | _ => none

namespace Trace

def shown (trace : List Event) : List Shown := trace.filterMap Event.shown

@[simp] theorem shown_append (front back : List Event) :
    shown (front ++ back) = shown front ++ shown back := List.filterMap_append

theorem shown_map_put (bytes : List OutByte) :
    shown (bytes.map .put) = (bytes.map OutByte.val).map .put := by
  simp [shown, List.filterMap_map, Function.comp_def, Event.shown]

end Trace

def ShowSame (p p' q q' : Peer) : Prop :=
  ∃ events others, p'.trace = p.trace ++ events ∧ q'.trace = q.trace ++ others ∧
    Trace.shown others = Trace.shown events

namespace ShowSame

variable {p p' p'' q q' q'' : Peer}

theorem trans (first : ShowSame p p' q q') (second : ShowSame p' p'' q' q'') :
    ShowSame p p'' q q'' := by
  obtain ⟨front, others, added, addedToo, same⟩ := first
  obtain ⟨back, more, onward, onwardToo, still⟩ := second
  refine ⟨front ++ back, others ++ more, ?_, ?_, ?_⟩
  · rw [onward, added, List.append_assoc]
  · rw [onwardToo, addedToo, List.append_assoc]
  · rw [Trace.shown_append, Trace.shown_append, same, still]

theorem puts {bytes others : List OutByte} (first : Puts p bytes p') (second : Puts q others q')
    (same : others.map OutByte.val = bytes.map OutByte.val) : ShowSame p p' q q' := by
  obtain ⟨sendingBuffer, rfl⟩ := first.frame
  obtain ⟨sendingBuffer, rfl⟩ := second.frame
  refine ⟨_, _, rfl, rfl, ?_⟩
  rw [Trace.shown_map_put, Trace.shown_map_put, same]

theorem quiet (still : p'.trace = p.trace) (stillToo : q'.trace = q.trace) :
    ShowSame p p' q q' :=
  ⟨[], [], still.trans (List.append_nil _).symm, stillToo.trans (List.append_nil _).symm, rfl⟩

end ShowSame

def SameFile (fp other : Ptr File) : Prop :=
  ∃ file otherFile : File, fp = .live file ∧ other = .live otherFile ∧
    otherFile.fd = file.fd ∧ otherFile.rest = file.rest ∧ otherFile.fails = file.fails

inductive SameChild : Ptr CgiExecutor → Ptr CgiExecutor → Prop
  | null : SameChild .null .null
  | freed : SameChild .freed .freed
  | live {executor other : CgiExecutor} (pending : other.pending = executor.pending) :
      SameChild (.live executor) (.live other)

structure SameFields (a b : HttpTask) : Prop where
  state : b.state = a.state
  method : b.methodType = a.methodType
  last : b.lastRequest = a.lastRequest
  code : b.responseCode = a.responseCode
  length : b.bodyBytesNum = a.bodyBytesNum
  response : responseHead b = responseHead a

namespace SameFields

variable {a b c : HttpTask}

theorem symm (same : SameFields a b) : SameFields b a :=
  ⟨same.state.symm, same.method.symm, same.last.symm, same.code.symm, same.length.symm,
    same.response.symm⟩

theorem trans (first : SameFields a b) (second : SameFields b c) : SameFields a c :=
  ⟨second.state.trans first.state, second.method.trans first.method, second.last.trans first.last,
    second.code.trans first.code, second.length.trans first.length,
    second.response.trans first.response⟩

end SameFields

structure TaskAlike (a b : HttpTask) : Prop extends SameFields a b where
  header : a.state = .recvHeader → ∃ text, Scanning a text ∧ Scanning b text
  part : a.state = .recvBody → ∃ text, BodyPart a text ∧ BodyPart b text
  body : a.state = .checkCgi → a.bodyBytesNum > 0 → postBodyBytes b = postBodyBytes a
  file : a.state = .sendBody ∨ a.state = .sendHeader ∧ afterHead a = .sendBody →
    SameFile a.fp b.fp

/-- Of the call `h`, the client has already sent `extra` as well. -/
structure Alike (extra : Bytes) (g h : Handling) : Prop where
  task : TaskAlike g.task h.task
  receiving : h.peer.receivingBuffer.content = g.peer.receivingBuffer.content ++ extra
  addres : h.peer.addres = g.peer.addres
  request : g.task.state ≠ .recvHeader → ∃ cell other, g.request = .live cell ∧
    h.request = .live other ∧ other.request = cell.request
  child : SameChild g.peer.cgiExecutor h.peer.cgiExecutor

def HttpTask.reading (task : HttpTask) : Bool :=
  task.state = .recvHeader || task.state = .recvBody

/-- Two passes that look alike when they are done, but for the one that waits for bytes which the
other already has. -/
inductive Together (extra : Bytes) (g h : Handling) :
    Except Fault Pass → Except Fault Pass → Prop
  | fails {fault : Fault} : Together extra g h (.error fault) (.error fault)
  | again {g' h' : Handling} (alike : Alike extra g' h')
      (same : ShowSame g.peer g'.peer h.peer h'.peer) :
      Together extra g h (.ok (.again g')) (.ok (.again h'))
  | returns {code : Code} {g' h' : Handling}
      (alike : code ≠ .closeConnImmediately → Alike extra g' h')
      (same : ShowSame g.peer g'.peer h.peer h'.peer) :
      Together extra g h (.ok (.returns code g')) (.ok (.returns code h'))
  | waits {g' : Handling} {answer : Except Fault Pass} (more : extra ≠ [])
      (reading : g.task.reading = true) : Together extra g h (.ok (.returns .keepConn g')) answer

private theorem cut_beyond {block front rest more : Bytes}
    (cut : ∀ rest, Matcher.cutAfter terminator (block ++ rest) = some (block, rest))
    (clear : Matcher.Clear terminator front) (same : block ++ rest = front ++ more) :
    front.length < block.length := by
  by_contra short
  have inside : block <+: front :=
    List.prefix_of_prefix_length_le ⟨rest, same⟩ (List.prefix_append _ _) (by omega)
  exact clear block inside (Matcher.cutAfter_some _ _ (cut rest)).2

private theorem HeaderRead.sameFields {task next : HttpTask} {text : Bytes}
    {recv left : Cbuf UInt8} {status : HeaderStatus}
    (read : HeaderRead task text recv (status, next, left)) : SameFields task next := by
  cases read <;> exact ⟨rfl, rfl, rfl, rfl, rfl, rfl⟩

private theorem BodyRead.sameFields {task next : HttpTask} {text : Bytes} {recv left : Cbuf UInt8}
    {whole : Bool} (read : BodyRead task text recv (whole, next, left)) : SameFields task next := by
  cases read <;> exact ⟨rfl, rfl, rfl, rfl, rfl, rfl⟩

private theorem HeaderRead.same {a b nextA nextB : HttpTask} {text extra : Bytes}
    {recvA recvB leftA leftB : Cbuf UInt8} {statusA statusB : HeaderStatus}
    (content : recvB.content = recvA.content ++ extra)
    (readA : HeaderRead a text recvA (statusA, nextA, leftA))
    (readB : HeaderRead b text recvB (statusB, nextB, leftB)) :
    statusA = .emptyRecvBuf ∧ extra ≠ [] ∨
      statusB = statusA ∧
        (statusA ≠ .parserBufOverflow → leftB.content = leftA.content ++ extra) ∧
        (statusA = .ready → nextB.parseBuf.read nextB.parseBufIdx =
          nextA.parseBuf.read nextA.parseBufIdx) ∧
        (statusA = .emptyRecvBuf → ∃ part, Scanning nextA part ∧ Scanning nextB part) := by
  have stream : text ++ recvB.content = text ++ recvA.content ++ extra := by
    rw [content, List.append_assoc]
  cases readA with
  | @ready block _ _ _ size read whole cut short inv =>
      have found : text ++ recvB.content = block ++ (leftA.content ++ extra) := by
        rw [stream, whole, List.append_assoc]
      refine .inr ?_
      cases readB with
      | ready sizeB readB wholeB cutB shortB invB =>
          have both := cutB leftB.content
          rw [← wholeB, found, cut] at both
          simp only [Option.some.injEq, Prod.mk.injEq] at both
          obtain ⟨sameBlock, sameLeft⟩ := both
          exact ⟨rfl, fun _ => sameLeft.symm, fun _ => by rw [readB, read, sameBlock], nofun⟩
      | emptyRecvBuf scanningB invB emptyB =>
          have none := Matcher.cutAfter_none scanningB.clear
          rw [found, cut] at none
          cases none
      | parserBufOverflow wholeB clearB fullB invB =>
          have beyond := cut_beyond cut clearB (found.symm.trans wholeB)
          omega
  | emptyRecvBuf scanning inv empty =>
      by_cases more : extra = []
      · subst more
        rw [List.append_nil] at stream
        refine .inr ?_
        cases readB with
        | ready sizeB readB wholeB cutB shortB invB =>
            have none := Matcher.cutAfter_none scanning.clear
            rw [← stream, wholeB, cutB] at none
            cases none
        | emptyRecvBuf scanningB invB emptyB =>
            rw [stream] at scanningB
            exact ⟨rfl, fun _ => by simp [empty, emptyB], nofun, fun _ => ⟨_, scanning, scanningB⟩⟩
        | parserBufOverflow wholeB clearB fullB invB =>
            have short := scanning.short
            rw [← stream, wholeB, List.length_append] at short
            omega
      · exact .inl ⟨rfl, more⟩
  | @parserBufOverflow front _ _ _ _ whole clear full inv =>
      have found : text ++ recvB.content = front ++ (leftA.content ++ extra) := by
        rw [stream, whole, List.append_assoc]
      refine .inr ?_
      cases readB with
      | ready sizeB readB wholeB cutB shortB invB =>
          have beyond := cut_beyond cutB clear (wholeB.symm.trans found)
          omega
      | emptyRecvBuf scanningB invB emptyB =>
          have short := scanningB.short
          rw [found, List.length_append] at short
          omega
      | parserBufOverflow => exact ⟨rfl, fun other => absurd rfl other, nofun, nofun⟩

private theorem BodyRead.same {a b nextA nextB : HttpTask} {text extra : Bytes}
    {recvA recvB leftA leftB : Cbuf UInt8} {wholeA wholeB : Bool}
    (length : b.bodyBytesNum = a.bodyBytesNum)
    (content : recvB.content = recvA.content ++ extra)
    (readA : BodyRead a text recvA (wholeA, nextA, leftA))
    (readB : BodyRead b text recvB (wholeB, nextB, leftB)) :
    wholeA = false ∧ extra ≠ [] ∨
      wholeB = wholeA ∧ leftB.content = leftA.content ++ extra ∧
        ∃ part, BodyPart nextA part ∧ BodyPart nextB part ∧
          (wholeA = true → part.length = a.bodyBytesNum) := by
  have stream : text ++ recvB.content = text ++ recvA.content ++ extra := by
    rw [content, List.append_assoc]
  cases readA with
  | @whole body _ _ _ part full split inv =>
      have found : text ++ recvB.content = body ++ (leftA.content ++ extra) := by
        rw [stream, split, List.append_assoc]
      refine .inr ?_
      cases readB with
      | whole partB fullB splitB invB =>
          obtain ⟨same, left⟩ := List.append_inj (splitB.symm.trans found) (by omega)
          rw [same] at partB
          exact ⟨rfl, left, body, part, partB, fun _ => full⟩
      | short partB missingB invB emptyB =>
          rw [found, List.length_append] at missingB
          omega
  | short part missing inv empty =>
      by_cases more : extra = []
      · subst more
        rw [List.append_nil] at stream
        refine .inr ?_
        cases readB with
        | whole partB fullB splitB invB =>
            rw [← stream, splitB, List.length_append] at missing
            omega
        | short partB missingB invB emptyB =>
            rw [stream] at partB
            exact ⟨rfl, by simp [empty, emptyB], _, part, partB, nofun⟩
      · exact .inl ⟨rfl, more⟩

section Passes

variable {cfg : Config} {os : Os} {extra : Bytes} {g h : Handling}

private theorem markLastRequest_same {a b : HttpTask} (same : SameFields a b) (request : Request) :
    SameFields (markLastRequest a request) (markLastRequest b request) ∧
      (markLastRequest a request).bodyBytesNum = a.bodyBytesNum := by
  obtain ⟨state, method, last, code, length, response⟩ := same
  unfold markLastRequest
  split
  · exact ⟨⟨state, method, rfl, code, length, response⟩, rfl⟩
  · exact ⟨⟨state, method, last, code, length, response⟩, rfl⟩

private theorem takeRequest_alike (cfg : Config) {a b : HttpTask} (request : Request)
    (same : SameFields a b) (noBody : a.bodyBytesNum = 0) :
    ∃ next other, takeRequest cfg a request = .ok next ∧ takeRequest cfg b request = .ok other ∧
      TaskAlike next other ∧ next.state ≠ .recvHeader := by
  obtain ⟨marked, kept⟩ := markLastRequest_same same request
  rw [noBody] at kept
  have length := marked.length.trans kept
  simp only [takeRequest]
  generalize markLastRequest a request = taskA at marked kept
  generalize markLastRequest b request = taskB at marked length
  obtain ⟨_, method, last, code, _, response⟩ := marked
  -- a request without a body
  have plain {state : HttpState} {methodA methodB : MethodType} {codeA codeB : Int}
      (named : methodB = methodA) (coded : codeB = codeA)
      (bodiless : state = .checkCgi ∨ state = .generateHeader) :
      TaskAlike { taskA with methodType := methodA, responseCode := codeA, state }
          { taskB with methodType := methodB, responseCode := codeB, state } ∧
        state ≠ .recvHeader := by
    refine ⟨⟨⟨rfl, named, last, coded, length.trans kept.symm, response⟩, ?_, ?_, ?_, ?_⟩, ?_⟩
    · rintro rfl
      simp at bodiless
    · rintro rfl
      simp at bodiless
    · exact fun _ some => absurd kept (Nat.ne_of_gt some)
    · rintro (rfl | ⟨rfl, _⟩) <;> simp at bodiless
    · rintro rfl
      simp at bodiless
  by_cases head : request.httpMethod = str "HEAD"
  · rw [if_pos head, if_pos head]
    exact ⟨_, _, rfl, rfl, plain rfl code (.inl rfl)⟩
  rw [if_neg head, if_neg head]
  by_cases get : request.httpMethod = str "GET"
  · rw [if_pos get, if_pos get]
    exact ⟨_, _, rfl, rfl, plain rfl code (.inl rfl)⟩
  rw [if_neg get, if_neg get]
  by_cases post : request.httpMethod = str "POST"
  · rw [if_pos post, if_pos post]
    by_cases empty : (getHeaderValue request (str "Content-Length")).length = 0
    · rw [if_pos empty, if_pos empty]
      exact ⟨_, _, rfl, rfl, plain rfl rfl (.inr rfl)⟩
    rw [if_neg empty, if_neg empty]
    by_cases negative : cfg.atoi (getHeaderValue request (str "Content-Length")) < 0
    · rw [if_pos negative, if_pos negative]
      exact ⟨_, _, rfl, rfl, plain rfl rfl (.inr rfl)⟩
    rw [if_neg negative, if_neg negative, if_neg (not_not_intro kept),
      if_neg (not_not_intro length)]
    refine ⟨_, _, rfl, rfl, ⟨⟨rfl, rfl, last, code, rfl, response⟩, by simp, ?_,
      by simp, ?_⟩, by simp⟩
    · exact fun _ => ⟨[], ⟨⟨_, rfl, rfl, rfl⟩, Nat.zero_le _⟩, ⟨_, rfl, rfl, rfl⟩, Nat.zero_le _⟩
    · rintro (impossible | ⟨impossible, _⟩) <;> cases impossible
  · rw [if_neg post, if_neg post]
    exact ⟨_, _, rfl, rfl, plain method rfl (.inr rfl)⟩

private theorem recvHeaderState_together (invG : g.Inv) (invH : h.Inv) (alike : Alike extra g h)
    (state : g.task.state = .recvHeader) :
    Together extra g h (recvHeaderState cfg g) (recvHeaderState cfg h) := by
  have stateH := alike.task.state.trans state
  have readyG := invG.task.ready
  have readyH := invH.task.ready
  simp only [HttpTask.Ready, state] at readyG
  simp only [HttpTask.Ready, stateH] at readyH
  obtain ⟨codeG, lastG, methodG, lengthG, emptyG, _⟩ := readyG
  obtain ⟨codeH, lastH, methodH, lengthH, emptyH, _⟩ := readyH
  obtain ⟨text, scanningG, scanningH⟩ := alike.task.header state
  obtain ⟨⟨statusG, nextG, leftG⟩, ranG, readG⟩ :=
    readHeaderLoop_read scanningG invG.receiving g.peer.receivingBuffer.content_length
  obtain ⟨⟨statusH, nextH, leftH⟩, ranH, readH⟩ :=
    readHeaderLoop_read scanningH invH.receiving h.peer.receivingBuffer.content_length
  rw [recvHeaderState, if_neg (by simp [codeG, lastG, methodG]), recvHeaderState,
    if_neg (by simp [codeH, lastH, methodH])]
  simp only [readHeaderData, ranG, ranH]
  have fieldsG := readG.sameFields
  have fieldsH := readH.sameFields
  have fields := (fieldsG.symm.trans alike.task.toSameFields).trans fieldsH
  have here : nextG.state = .recvHeader := fieldsG.state.trans state
  rcases readG.same alike.receiving readH with ⟨rfl, more⟩ | ⟨rfl, left, block, scanning⟩
  · exact .waits more (by simp [HttpTask.reading, state])
  · cases statusH with
    | parserBufOverflow => exact .returns (fun other => absurd rfl other) (.quiet rfl rfl)
    | emptyRecvBuf =>
        refine .returns (fun _ => ?_) (.quiet rfl rfl)
        refine ⟨⟨fields, fun _ => scanning rfl, ?_, ?_, ?_⟩, left (by decide), alike.addres, ?_,
          alike.child⟩
        · simp [here]
        · simp [here]
        · simp [here]
        · exact fun other => absurd here other
    | ready =>
        have left := left (by decide)
        have block := block rfl
        simp only [block]
        cases cfg.parse (nextG.parseBuf.read nextG.parseBufIdx) with
        | error fault => exact .fails
        | ok answer =>
            cases answer with
            | none =>
                refine .returns (fun other => absurd rfl other) ?_
                exact ⟨_, _, List.append_assoc _ _ _, List.append_assoc _ _ _, rfl⟩
            | some request =>
                have counted : SameFields { nextG with requests := nextG.requests + 1 }
                    { nextH with requests := nextH.requests + 1 } :=
                  ⟨fields.state, fields.method, fields.last, fields.code, fields.length,
                    fields.response⟩
                have noBody : ({ nextG with requests := nextG.requests + 1 } : HttpTask).bodyBytesNum
                    = 0 := fieldsG.length.trans lengthG
                obtain ⟨taken, other, tookG, tookH, task, underway⟩ :=
                  takeRequest_alike cfg request counted noBody
                simp only [tookG, tookH]
                refine .again ⟨task, left, alike.addres, fun _ => ⟨_, _, rfl, rfl, rfl⟩,
                  alike.child⟩ ?_
                refine ⟨_, _, List.append_assoc _ _ _, List.append_assoc _ _ _, ?_⟩
                rw [task.state]
                split <;> rfl

private theorem recvBodyState_together (invG : g.Inv) (invH : h.Inv) (alike : Alike extra g h)
    (state : g.task.state = .recvBody) :
    Together extra g h (recvBodyState g) (recvBodyState h) := by
  have length := alike.task.length
  obtain ⟨text, partG, partH⟩ := alike.task.part state
  obtain ⟨⟨wholeG, nextG, leftG⟩, ranG, readG⟩ :=
    recvBodyLoop_read partG invG.receiving partG.missing
  obtain ⟨⟨wholeH, nextH, leftH⟩, ranH, readH⟩ :=
    recvBodyLoop_read partH invH.receiving partH.missing
  have fieldsG := readG.sameFields
  have fieldsH := readH.sameFields
  have fields := (fieldsG.symm.trans alike.task.toSameFields).trans fieldsH
  have here : nextG.state = .recvBody := fieldsG.state.trans state
  have live := alike.request (by simp [state])
  rw [recvBodyState, ranG, recvBodyState, ranH]
  rcases readG.same length alike.receiving readH with
    ⟨rfl, more⟩ | ⟨rfl, left, part, partG, partH, full⟩
  · exact .waits more (by simp [HttpTask.reading, state])
  · cases wholeH with
    | false =>
        refine .returns (fun _ => ?_) (.quiet rfl rfl)
        refine ⟨⟨fields, ?_, fun _ => ⟨part, partG, partH⟩, ?_, ?_⟩, left, alike.addres,
          fun _ => live, alike.child⟩
        · simp [here]
        · simp [here]
        · simp [here]
    | true =>
        refine .again ⟨⟨⟨rfl, fields.method, fields.last, fields.code, fields.length,
          fields.response⟩, by simp, by simp, fun _ _ => ?_, ?_⟩, left,
          alike.addres, fun _ => live,
          alike.child⟩ ⟨_, _, rfl, rfl, rfl⟩
        · have full := full rfl
          obtain ⟨blockG, storedG, _, wholeG⟩ := partG.stored
          obtain ⟨blockH, storedH, _, wholeH⟩ := partH.stored
          rw [partG.index, full, ← fieldsG.length] at wholeG
          rw [partH.index, full, ← fieldsG.length, ← fields.length] at wholeH
          change nextH.postBody.map (fun block => block.read nextH.bodyBytesNum) =
            nextG.postBody.map fun block => block.read nextG.bodyBytesNum
          rw [storedG, storedH, Option.map_some, Option.map_some, wholeG, wholeH]
        · rintro (impossible | ⟨impossible, _⟩) <;> cases impossible

private theorem generateHeaderState_together (invG : g.Inv) (invH : h.Inv)
    (alike : Alike extra g h) (state : g.task.state = .generateHeader) :
    Together extra g h (generateHeaderState g) (generateHeaderState h) := by
  have generated {h : Handling} (inv : h.Inv) (state : h.task.state = .generateHeader) :
      ∃ next, generateNonbodyResponse h.task h.task.responseCode = .ok (.sendHeader, next) ∧
        Written h.task (nonbodyHead h.task.responseCode) next ∧
        afterHead next = .finished := by
    have ready := inv.task.ready
    simp only [HttpTask.Ready, state] at ready
    obtain ⟨valid, _, okPost⟩ := ready
    obtain ⟨next, made, written⟩ := inv.nonbodyResponse state
    refine ⟨next, made, written, ?_⟩
    obtain ⟨responseBuf, rfl⟩ := written.frame
    exact afterHead_nonbody valid okPost
  obtain ⟨nextG, madeG, writtenG, finished⟩ := generated invG state
  obtain ⟨nextH, madeH, writtenH, _⟩ := generated invH (alike.task.state.trans state)
  have headG := writtenG.head
  have headH := writtenH.head
  obtain ⟨responseBufG, rfl⟩ := writtenG.frame
  obtain ⟨responseBufH, rfl⟩ := writtenH.frame
  rw [generateHeaderState, madeG, generateHeaderState, madeH]
  have fields := alike.task
  refine .again ⟨⟨⟨rfl, fields.method, fields.last, fields.code, fields.length, ?_⟩,
    by simp, by simp, by simp, ?_⟩, alike.receiving,
    alike.addres, fun _ => alike.request (by simp [state]), alike.child⟩ (.quiet rfl rfl)
  · change responseHead { h.task with responseBuf := responseBufH } =
      responseHead { g.task with responseBuf := responseBufG }
    rw [headG, headH, fields.response, fields.code]
  · rintro (impossible | ⟨_, streams⟩)
    · cases impossible
    · cases finished.symm.trans streams

def Handling.room (h : Handling) : Bool :=
  match h.task.state, h.task.fp with
  | .sendHeader, _ => h.task.responseBuf.numByte ≤ bufAvailable h.peer.sendingBuffer
  | .sendBody, .live file => file.rest.length < bufAvailable h.peer.sendingBuffer
  | _, _ => true

private theorem HeadSent.roomy {ret : Option HttpState} {sent : HttpTask} {next : Peer}
    (inv : h.Inv) (state : h.task.state = .sendHeader) (room : h.room = true)
    (result : HeadSent h.task h.peer (ret, sent, next)) :
    (∃ responseBuf : Cbuf OutByte, sent = { h.task with responseBuf } ∧
      responseBuf.content = []) ∧ Puts h.peer h.task.responseBuf.content next := by
  cases result with
  | whole bufInv empty puts => exact ⟨⟨_, rfl, empty⟩, puts⟩
  | cut bufInv left shape puts full =>
      have fits := inv.sending.content_fits
      have length := h.task.responseBuf.content_length
      rw [puts.content, List.length_append] at full
      rw [shape, List.length_append, List.length_cons] at length
      simp only [Handling.room, state, decide_eq_true_eq, inv.sending.available_content] at room
      omega

private theorem sendHeaderState_together (invG : g.Inv) (invH : h.Inv) (alike : Alike extra g h)
    (state : g.task.state = .sendHeader) (roomG : g.room = true) (roomH : h.room = true) :
    Together extra g h (sendHeaderState g) (sendHeaderState h) := by
  have answered {h : Handling} (inv : h.Inv) (state : h.task.state = .sendHeader) :
      Answered h.task := by
    have ready := inv.task.ready
    simp only [HttpTask.Ready, state] at ready
    rcases ready with error | head | post | ⟨get, _⟩
    · exact .inl error
    · exact .inr (by simp [head])
    · exact .inr (by simp [post])
    · exact .inr (by simp [get])
  have stateH := alike.task.state.trans state
  obtain ⟨_, _, nextG, resultG, ranG⟩ :=
    sendHeaderState_sent invG.task.response invG.sending (answered invG state)
  obtain ⟨_, _, nextH, resultH, ranH⟩ :=
    sendHeaderState_sent invH.task.response invH.sending (answered invH stateH)
  obtain ⟨⟨bufG, rfl, emptyG⟩, putsG⟩ := resultG.roomy invG state roomG
  obtain ⟨⟨bufH, rfl, emptyH⟩, putsH⟩ := resultH.roomy invH stateH roomH
  rw [ranG, ranH]
  have fields := alike.task
  have onward : afterHead { h.task with responseBuf := bufH } =
      afterHead { g.task with responseBuf := bufG } := by
    simp only [afterHead, fields.code, fields.method]
  have same := ShowSame.puts putsG putsH fields.response
  obtain ⟨sendingG, rfl⟩ := putsG.frame
  obtain ⟨sendingH, rfl⟩ := putsH.frame
  have stays (other : HttpState) (noBody : other ≠ .sendBody) (unfinished : other ≠ .finished)
      (moved : afterHead g.task = other) : False := by
    rcases afterHead_cases g.task with streams | ends
    · exact noBody (moved.symm.trans streams)
    · exact unfinished (moved.symm.trans ends)
  refine .again ⟨⟨⟨onward, fields.method, fields.last, fields.code, fields.length, ?_⟩, ?_, ?_, ?_,
    ?_⟩, alike.receiving, alike.addres, fun _ => alike.request (by simp [state]), alike.child⟩ same
  · simp only [responseHead, emptyG, emptyH]
  · exact fun moved => (stays .recvHeader (by decide) (by decide) moved).elim
  · exact fun moved => (stays .recvBody (by decide) (by decide) moved).elim
  · exact fun moved => (stays .checkCgi (by decide) (by decide) moved).elim
  · rintro (streams | ⟨moved, _⟩)
    · exact fields.file (.inr ⟨state, streams⟩)
    · exact (stays .sendHeader (by decide) (by decide) moved).elim

private theorem cgiBody_alike {a b : HttpTask} (request : Request) (alike : TaskAlike a b)
    (state : a.state = .checkCgi) : cgiBody b request = cgiBody a request := by
  have length := alike.length
  unfold cgiBody
  rw [length]
  by_cases posted : request.httpMethod = str "POST" ∧ a.bodyBytesNum > 0
  · rw [if_pos posted, if_pos posted]
    have body := alike.body state posted.2
    unfold postBodyBytes at body
    cases storedA : a.postBody with
    | none =>
        cases storedB : b.postBody with
        | none => rfl
        | some blockB => simp [storedA, storedB] at body
    | some blockA =>
        cases storedB : b.postBody with
        | none => simp [storedA, storedB] at body
        | some blockB =>
            simp only [storedA, storedB, Option.map_some, Option.some.injEq] at body
            simp only [← length, body]
  · rw [if_neg posted, if_neg posted]

private theorem startCgiScript_same (os : Os) {p q : Peer} (reqP reqQ : Nat) (param : CgiParam)
    (body : Bytes) (child : SameChild p.cgiExecutor q.cgiExecutor) :
    (∃ fault, startCgiScript os p reqP param body = .error fault ∧
      startCgiScript os q reqQ param body = .error fault) ∨
    ∃ (executorP executorQ : CgiExecutor) (events : List Event),
      executorQ.pending = executorP.pending ∧
      startCgiScript os p reqP param body =
        .ok ({ p with cgiExecutor := .live executorP }.record events) ∧
      startCgiScript os q reqQ param body =
        .ok ({ q with cgiExecutor := .live executorQ }.record events) := by
  unfold startCgiScript
  generalize p.cgiExecutor = childP at child
  generalize q.cgiExecutor = childQ at child
  cases child with
  | freed => exact .inl ⟨_, rfl, rfl⟩
  | live pending => exact .inl ⟨_, rfl, rfl⟩
  | null =>
      cases os.stdinPipe with
      | none => exact .inl ⟨_, rfl, rfl⟩
      | some stdinPipe =>
        cases os.stdoutPipe with
        | none => exact .inl ⟨_, rfl, rfl⟩
        | some stdoutPipe =>
          cases forked : os.fork with
          | false => exact .inl ⟨_, rfl, rfl⟩
          | true =>
              let executor (client : Peer) (req : Nat) : CgiExecutor := {
                initCgiExecutor req (os.execve.map (execveFailure client)) with
                cgiParameter := some param
                cgiBuffer := (cgiBufferOf body).1
                stdinPipe
                stdoutPipe }
              exact .inr ⟨executor p reqP, executor q reqQ, _, rfl, rfl, rfl⟩

private theorem answered_alike {a b : HttpTask} {code : Int} (fields : SameFields a b)
    (file : code = okNum → SameFile a.fp b.fp) :
    TaskAlike
      { a with
        responseCode := code
        state := if code = okNum then .sendHeader else .generateHeader }
      { b with
        responseCode := code
        state := if code = okNum then .sendHeader else .generateHeader } := by
  obtain ⟨_, method, last, _, length, response⟩ := fields
  refine ⟨⟨rfl, method, last, rfl, length, response⟩, ?_, ?_, ?_, ?_⟩
  · intro impossible
    dsimp only at impossible
    split at impossible <;> cases impossible
  · intro impossible
    dsimp only at impossible
    split at impossible <;> cases impossible
  · intro impossible
    dsimp only at impossible
    split at impossible <;> cases impossible
  · rintro (impossible | ⟨found, _⟩)
    · dsimp only at impossible
      split at impossible <;> cases impossible
    · dsimp only at found
      split at found
      · next isOk => exact file isOk
      · cases found

private theorem checkStatic_together (invG : g.Inv) (invH : h.Inv) (alike : Alike extra g h)
    (state : g.task.state = .checkCgi) {cell other : RequestCell}
    (same : other.request = cell.request) (liveG : g.request = .live cell)
    (liveH : h.request = .live other) :
    Together extra g h (checkStatic cfg os g cell) (checkStatic cfg os h other) := by
  have stateH := alike.task.state.trans state
  have fields := alike.task.toSameFields
  have roomy {h : Handling} (inv : h.Inv) (state : h.task.state = .checkCgi) (text : Bytes)
      (short : text.length ≤ 700) : HasRoom h.task text := by
    have ready := inv.task.ready
    simp only [HttpTask.Ready, state] at ready
    refine ⟨inv.task.response, ?_⟩
    rw [ready.2, bufDataMaxsize]
    simp only [List.length_nil]
    omega
  rw [checkStatic, checkStatic, fields.method, fields.last, same]
  by_cases fetched : g.task.methodType = .get ∨ g.task.methodType = .head
  · rw [if_pos fetched, if_pos fetched]
    cases path : makeFullPath cfg.wwwDir cell.request with
    | error fault =>
        have failed (task : HttpTask) : generateGetHeader cfg os task cell.request
            g.task.lastRequest = .error fault := by
          rw [generateGetHeader, path]
          rfl
        rw [failed, failed]
        exact .fails
    | ok made =>
        obtain ⟨fullpath, changed⟩ := made
        -- both make the same path, and find there what is found
        rcases generateGetHeader_eq os g.task.lastRequest (roomy invG state) path with
          ⟨absent, ranG⟩ | ⟨fault, present, undescribed, ranG⟩ |
            ⟨facts, present, described, nextG, writtenG, noneG, someG⟩
        · rcases generateGetHeader_eq os g.task.lastRequest (roomy invH stateH) path with
            ⟨_, ranH⟩ | ⟨_, present, _⟩ | ⟨_, present, _⟩
          · rw [ranG, ranH]
            exact .again ⟨answered_alike fields fun isOk => absurd isOk (by decide),
              alike.receiving, alike.addres, fun _ => ⟨_, _, rfl, rfl, rfl⟩, alike.child⟩
              ⟨_, _, rfl, rfl, rfl⟩
          · cases absent.symm.trans present
          · cases absent.symm.trans present
        · rcases generateGetHeader_eq os g.task.lastRequest (roomy invH stateH) path with
            ⟨absent, _⟩ | ⟨_, _, same, ranH⟩ | ⟨_, _, described, _⟩
          · cases absent.symm.trans present
          · cases undescribed.symm.trans same
            rw [ranG, ranH]
            exact .fails
          · cases undescribed.symm.trans described
        · rcases generateGetHeader_eq os g.task.lastRequest (roomy invH stateH) path with
            ⟨absent, _⟩ | ⟨_, _, undescribed, _⟩ | ⟨_, _, same, nextH, writtenH, noneH, someH⟩
          · cases absent.symm.trans present
          · cases described.symm.trans undescribed
          · cases described.symm.trans same
            have headed : SameFields nextG nextH := by
              have headG := writtenG.head
              have headH := writtenH.head
              obtain ⟨responseBufG, rfl⟩ := writtenG.frame
              obtain ⟨responseBufH, rfl⟩ := writtenH.frame
              refine ⟨fields.state, fields.method, fields.last, fields.code, fields.length, ?_⟩
              rw [headG, headH, fields.response]
            cases found : os.fopen (loweredPath fullpath) with
            | none =>
                rw [noneG found, noneH found]
                exact .again ⟨answered_alike headed fun isOk => absurd isOk (by decide),
                  alike.receiving, alike.addres, fun _ => ⟨_, _, rfl, rfl, rfl⟩, alike.child⟩
                  ⟨_, _, rfl, rfl, rfl⟩
            | some file =>
                rw [someG file found, someH file found]
                have opened : SameFields
                    { nextG with fp := .live { file with req := nextG.requests } }
                    { nextH with fp := .live { file with req := nextH.requests } } :=
                  ⟨headed.state, headed.method, headed.last, headed.code, headed.length,
                    headed.response⟩
                exact .again ⟨answered_alike opened fun _ => ⟨_, _, rfl, rfl, rfl, rfl, rfl⟩,
                  alike.receiving, alike.addres, fun _ => ⟨_, _, rfl, rfl, rfl⟩, alike.child⟩
                  ⟨_, _, rfl, rfl, rfl⟩
  · rw [if_neg fetched, if_neg fetched]
    refine .again ⟨⟨⟨rfl, fields.method, fields.last, rfl, fields.length, fields.response⟩,
      by simp, by simp, by simp, ?_⟩, alike.receiving,
      alike.addres, fun _ => ⟨cell, other, liveG, liveH, same⟩,
      alike.child⟩ (.quiet rfl rfl)
    rintro (impossible | ⟨impossible, _⟩) <;> cases impossible

private theorem checkCgiState_together (invG : g.Inv) (invH : h.Inv) (alike : Alike extra g h)
    (state : g.task.state = .checkCgi) :
    Together extra g h (checkCgiState cfg os g) (checkCgiState cfg os h) := by
  obtain ⟨cell, other, liveG, liveH, same⟩ := alike.request (by simp [state])
  rw [checkCgiState, checkCgiState, liveG, liveH]
  simp only [Ptr.deref]
  rw [same]
  by_cases cgi : isCgi cell.request.httpUri = true
  · rw [if_pos cgi, if_pos cgi, startCgi, startCgi, alike.addres]
    cases buildCgiParam cfg.cgiScripts cell.request g.peer.addres with
    | error fault => exact .fails
    | ok param =>
        have bodyG : cgiBody { g.task with state := .processingCgi } cell.request =
            cgiBody g.task cell.request := rfl
        have bodyH : cgiBody { h.task with state := .processingCgi } cell.request =
            cgiBody g.task cell.request := by
          rw [← cgiBody_alike cell.request alike.task state]
          rfl
        simp only [ok_bind, bodyG, bodyH]
        cases cgiBody g.task cell.request with
        | error fault => exact .fails
        | ok body =>
            simp only [ok_bind, alike.task.last]
            rcases startCgiScript_same os g.task.requests h.task.requests param body alike.child with
              ⟨fault, ranG, ranH⟩ | ⟨executorG, executorH, events, pending, ranG, ranH⟩
            · rw [ranG, ranH]
              exact .fails
            · rw [ranG, ranH]
              obtain ⟨_, method, _, code, length, response⟩ := alike.task.toSameFields
              refine .returns (fun _ => ⟨⟨⟨rfl, method, rfl, code, length, response⟩,
                by simp, by simp, by simp, ?_⟩,
                alike.receiving, alike.addres,
                fun _ => ⟨cell, other, liveG, liveH, same⟩, .live pending⟩) ⟨_, _, rfl, rfl, rfl⟩
              rintro (impossible | ⟨impossible, _⟩) <;> cases impossible
  · rw [if_neg cgi, if_neg cgi]
    exact checkStatic_together invG invH alike state same liveG liveH

private theorem FileStreamed.roomy {file : File} {status : StreamStatus} {fp : Ptr File}
    {next : Peer} (inv : h.Inv) (state : h.task.state = .sendBody)
    (opened : h.task.fp = .live file) (room : h.room = true)
    (streamed : FileStreamed file h.peer (status, fp, next)) :
    ∃ put, next = put.record [.closed file.fd] ∧
      status = (if file.fails then .error else .done) ∧
      Puts h.peer ((if file.fails then file.rest else file.rest ++ [eofChar]).map
        (⟨·, file.req⟩)) put := by
  cases streamed with
  | notDone split puts full =>
      have fits := inv.sending.content_fits
      have length := congrArg List.length split
      rw [puts.content, List.length_append, List.length_map] at full
      rw [List.length_append] at length
      simp only [Handling.room, state, opened, decide_eq_true_eq,
        inv.sending.available_content] at room
      omega
  | error fails puts => exact ⟨_, rfl, by rw [if_pos fails], by rwa [if_pos fails]⟩
  | done ends puts => exact ⟨_, rfl, by simp [ends], by simpa [ends] using puts⟩

private theorem sendBodyState_together (invG : g.Inv) (invH : h.Inv) (alike : Alike extra g h)
    (state : g.task.state = .sendBody) (roomG : g.room = true) (roomH : h.room = true) :
    Together extra g h (sendBodyState g) (sendBodyState h) := by
  have stateH := alike.task.state.trans state
  have get : g.task.methodType = .get := by
    have ready := invG.task.ready
    simp only [HttpTask.Ready, state] at ready
    exact ready.1
  obtain ⟨fileG, fileH, openedG, openedH, fd, rest, fails⟩ := alike.task.file (.inl state)
  obtain ⟨statusG, fpG, nextG, ranG, streamedG⟩ :=
    streamFileContent_streamed invG.sending openedG
  obtain ⟨statusH, fpH, nextH, ranH, streamedH⟩ :=
    streamFileContent_streamed invH.sending openedH
  obtain ⟨putG, rfl, rfl, putsG⟩ := streamedG.roomy invG state openedG roomG
  obtain ⟨putH, rfl, rfl, putsH⟩ := streamedH.roomy invH stateH openedH roomH
  rw [fails] at ranH putsH
  rw [sendBodyState, sendBodyState, if_neg (not_not_intro get),
    if_neg (not_not_intro (alike.task.method.trans get)), ranG, ranH]
  have same : ShowSame g.peer (putG.record [.closed fileG.fd]) h.peer
      (putH.record [.closed fileH.fd]) := by
    refine (ShowSame.puts putsG putsH ?_).trans ⟨_, _, rfl, rfl, by rw [fd]⟩
    simp only [List.map_map, rest]
    rfl
  obtain ⟨sendingG, rfl⟩ := putsG.frame
  obtain ⟨sendingH, rfl⟩ := putsH.frame
  generalize fileG.fails = failing at same ⊢
  cases failing with
  | true => exact .returns (fun other => absurd rfl other) same
  | false =>
      obtain ⟨_, method, last, code, length, response⟩ := alike.task.toSameFields
      refine .again ⟨⟨⟨rfl, method, last, code, length, response⟩, by simp,
        by simp, by simp, ?_⟩,
        alike.receiving, alike.addres, fun _ => alike.request (by simp [state]), alike.child⟩ same
      rintro (impossible | ⟨impossible, _⟩) <;> cases impossible

theorem httpPass_together (invG : g.Inv) (invH : h.Inv) (alike : Alike extra g h)
    (roomG : g.room = true) (roomH : h.room = true) :
    Together extra g h (httpPass cfg os g) (httpPass cfg os h) := by
  have stateH := alike.task.state
  unfold httpPass
  rw [stateH]
  cases state : g.task.state with
  | recvHeader => exact recvHeaderState_together invG invH alike state
  | recvBody => exact recvBodyState_together invG invH alike state
  | generateHeader => exact generateHeaderState_together invG invH alike state
  | sendHeader => exact sendHeaderState_together invG invH alike state roomG roomH
  | checkCgi => exact checkCgiState_together invG invH alike state
  | sendBody => exact sendBodyState_together invG invH alike state roomG roomH
  | processingCgi => exact .fails
  | finished => exact .fails

private theorem finishRequest_together (invG : g.Inv) (invH : h.Inv) (alike : Alike extra g h)
    (state : g.task.state = .finished) :
    ∃ g' h', finishRequest g = .ok (.keepConn, g') ∧ finishRequest h = .ok (.keepConn, h') ∧
      Alike extra g' h' ∧ ShowSame g.peer g'.peer h.peer h'.peer := by
  obtain ⟨cell, other, liveG, liveH, _⟩ := alike.request (by simp [state])
  refine ⟨⟨.freed, resetHttpTask g.task, g.peer.record [.requestFreed]⟩,
    ⟨.freed, resetHttpTask h.task, h.peer.record [.requestFreed]⟩, ?_, ?_, ?_,
    ⟨_, _, rfl, rfl, rfl⟩⟩
  · simp only [finishRequest, freeRequest, liveG]
    rfl
  · simp only [finishRequest, freeRequest, liveH]
    rfl
  · have blank (task : HttpTask) (size : task.parseBuf.size = bufDataMaxsize) :
        Scanning (resetHttpTask task) [] :=
      ⟨size, rfl, Matcher.border_nil.symm, Matcher.Clear.nil (by simp [terminator]), by decide⟩
    refine ⟨⟨⟨rfl, rfl, rfl, rfl, rfl, rfl⟩, fun _ => ?_, by simp [resetHttpTask],
      by simp [resetHttpTask], ?_⟩, alike.receiving,
      alike.addres, fun other => absurd rfl other, alike.child⟩
    · exact ⟨[], blank g.task invG.task.parseSize, blank h.task invH.task.parseSize⟩
    · rintro (impossible | ⟨impossible, _⟩) <;> cases impossible

def callRoom (cfg : Config) (os : Os) : Nat → Handling → Bool
  | 0, _ => true
  | fuel + 1, h =>
      if h.task.state = .finished then true
      else
        h.room &&
          match httpPass cfg os h with
          | .ok (.again next) => callRoom cfg os fuel next
          | _ => true

def callWaits (cfg : Config) (os : Os) : Nat → Handling → Bool
  | 0, _ => false
  | fuel + 1, h =>
      if h.task.state = .finished then false
      else
        match httpPass cfg os h with
        | .ok (.again next) => callWaits cfg os fuel next
        | .ok (.returns .keepConn _) => h.task.reading
        | _ => false

inductive SameCall (extra : Bytes) (g h : Handling) :
    Option (Except Fault (Code × Handling)) → Option (Except Fault (Code × Handling)) → Prop
  | diverges : SameCall extra g h none none
  | fails {fault : Fault} : SameCall extra g h (some (.error fault)) (some (.error fault))
  | returns {code : Code} {g' h' : Handling}
      (alike : code ≠ .closeConnImmediately → Alike extra g' h')
      (same : ShowSame g.peer g'.peer h.peer h'.peer) :
      SameCall extra g h (some (.ok (code, g'))) (some (.ok (code, h')))

private theorem SameCall.after {middleG middleH : Handling}
    {answerG answerH : Option (Except Fault (Code × Handling))}
    (first : ShowSame g.peer middleG.peer h.peer middleH.peer)
    (later : SameCall extra middleG middleH answerG answerH) :
    SameCall extra g h answerG answerH := by
  cases later with
  | diverges => exact .diverges
  | fails => exact .fails
  | returns alike same => exact .returns alike (first.trans same)

theorem httpLoop_together {fuel : Nat} (invG : g.Inv) (invH : h.Inv) (alike : Alike extra g h)
    (enough : extra = [] ∨ callWaits cfg os fuel g = false)
    (roomG : callRoom cfg os fuel g = true) (roomH : callRoom cfg os fuel h = true) :
    SameCall extra g h (httpLoop cfg os fuel g) (httpLoop cfg os fuel h) := by
  induction fuel generalizing g h with
  | zero => exact .diverges
  | succ fuel ih =>
      have state := alike.task.state
      rw [httpLoop, httpLoop, state]
      by_cases finished : g.task.state = .finished
      · rw [if_pos finished, if_pos finished]
        obtain ⟨g', h', ranG, ranH, after, same⟩ :=
          finishRequest_together invG invH alike finished
        rw [ranG, ranH]
        exact .returns (fun _ => after) same
      · rw [callWaits, if_neg finished] at enough
        rw [callRoom, if_neg finished, Bool.and_eq_true] at roomG
        rw [callRoom, if_neg (state ▸ finished), Bool.and_eq_true] at roomH
        rw [if_neg finished, if_neg finished]
        have together : Together extra g h (httpPass cfg os g) (httpPass cfg os h) :=
          httpPass_together invG invH alike roomG.1 roomH.1
        have valid {h : Handling} (inv : h.Inv) (next : Handling)
            (passed : httpPass cfg os h = .ok (.again next)) : next.Inv :=
          (httpPass_cases inv passed).valid inv
        have validG := valid invG
        have validH := valid invH
        generalize httpPass cfg os g = passG at enough roomG together validG ⊢
        generalize httpPass cfg os h = passH at roomH together validH ⊢
        cases together with
        | fails => exact .fails
        | again after same =>
            exact (ih (validG _ rfl) (validH _ rfl) after enough roomG.2 roomH.2).after same
        | returns after same => exact .returns after same
        | waits more reading =>
            rcases enough with none | whole
            · exact absurd none more
            · exact absurd whole (by simp [reading])

end Passes

end Liso
