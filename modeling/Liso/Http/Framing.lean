import Liso.Http.Effect

/-! Request framing: where the requests of a stream begin and end, and how the
passes of `handle_http` find it out piece by piece. -/

namespace Liso

def bodyAfter (cfg : Config) (block : Bytes) : Option Nat :=
  match cfg.parse block with
  | .ok (some request) => bodyLength cfg request
  | _ => none

private theorem cut_shorter {stream block rest : Bytes}
    (cut : Matcher.cutAfter terminator stream = some (block, rest)) :
    rest.length < stream.length := by
  obtain ⟨rfl, ends⟩ := Matcher.cutAfter_some block rest cut
  have long := ends.length_le
  rw [show terminator.length = 4 from rfl] at long
  rw [List.length_append]
  omega

/-- Cut after the first terminator, and after the body if there is one; then go on with the
rest. -/
def splitRequests (cfg : Config) (stream : Bytes) : List (Bytes × Option Bytes) :=
  match _cut : Matcher.cutAfter terminator stream with
  | none => []
  | some (block, rest) =>
      match bodyAfter cfg block with
      | none => (block, none) :: splitRequests cfg rest
      | some length =>
          if length ≤ rest.length then
            (block, some (rest.take length)) :: splitRequests cfg (rest.drop length)
          else []
termination_by stream.length
decreasing_by
  · exact cut_shorter _cut
  · have shorter := cut_shorter _cut
    rw [List.length_drop]
    omega

def wire (pair : Bytes × Option Bytes) : Bytes := pair.1 ++ pair.2.getD []

/-- A header block that ends with its first terminator and fits the parse buffer, and the body
its header announces. -/
structure Framed (cfg : Config) (pair : Bytes × Option Bytes) : Prop where
  cut : ∀ rest, Matcher.cutAfter terminator (pair.1 ++ rest) = some (pair.1, rest)
  body : pair.2.map List.length = bodyAfter cfg pair.1
  short : pair.1.length ≤ bufDataMaxsize

section Split

variable {cfg : Config}

theorem splitRequests_none {stream : Bytes} (cut : Matcher.cutAfter terminator stream = none) :
    splitRequests cfg stream = [] := by
  rw [splitRequests]
  split
  · rfl
  · next found => cases found.symm.trans cut

theorem splitRequests_some {stream block rest : Bytes}
    (cut : Matcher.cutAfter terminator stream = some (block, rest)) :
    splitRequests cfg stream =
      match bodyAfter cfg block with
      | none => (block, none) :: splitRequests cfg rest
      | some length =>
          if length ≤ rest.length then
            (block, some (rest.take length)) :: splitRequests cfg (rest.drop length)
          else [] := by
  rw [splitRequests]
  split
  · next found => cases found.symm.trans cut
  · next found =>
      cases found.symm.trans cut
      rfl

theorem Framed.split {pair : Bytes × Option Bytes} (framed : Framed cfg pair) (rest : Bytes) :
    splitRequests cfg (wire pair ++ rest) = pair :: splitRequests cfg rest := by
  obtain ⟨block, body⟩ := pair
  have length := framed.body
  rw [wire, List.append_assoc, splitRequests_some (framed.cut _), ← length]
  cases body with
  | none => rfl
  | some body => simp

theorem splitRequests_framed {pairs : List (Bytes × Option Bytes)}
    (framed : ∀ pair ∈ pairs, Framed cfg pair) (rest : Bytes) :
    splitRequests cfg ((pairs.map wire).flatten ++ rest) = pairs ++ splitRequests cfg rest := by
  induction pairs with
  | nil => rfl
  | cons pair pairs ih =>
      rw [List.map_cons, List.flatten_cons, List.append_assoc,
        (framed pair List.mem_cons_self).split,
        ih fun other member => framed other (List.mem_cons_of_mem pair member), List.cons_append]

theorem splitRequests_extends (stream more : Bytes) :
    splitRequests cfg stream <+: splitRequests cfg (stream ++ more) := by
  induction length : stream.length using Nat.strong_induction_on generalizing stream with
  | _ n ih =>
      subst length
      cases cut : Matcher.cutAfter terminator stream with
      | none =>
          rw [splitRequests_none cut]
          exact List.nil_prefix
      | some pair =>
          obtain ⟨block, rest⟩ := pair
          have shorter := cut_shorter cut
          rw [splitRequests_some cut, splitRequests_some (Matcher.cutAfter_append cut more)]
          cases body : bodyAfter cfg block with
          | none => exact List.cons_prefix_cons.mpr ⟨rfl, ih _ shorter rest rfl⟩
          | some length =>
              simp only
              split
              · next whole =>
                  have longer : length ≤ (rest ++ more).length := by
                    rw [List.length_append]
                    omega
                  rw [if_pos longer, List.take_append_of_le_length whole,
                    List.drop_append_of_le_length whole]
                  refine List.cons_prefix_cons.mpr ⟨rfl, ih _ ?_ _ rfl⟩
                  rw [List.length_drop]
                  omega
              · exact List.nil_prefix

end Split

/-- What was read of the request that the task is about to complete. -/
def Unfinished (cfg : Config) (task : HttpTask) (part : Bytes) : Prop :=
  match task.state with
  | .recvHeader => Scanning task part
  | .recvBody =>
      ∃ text, part = task.parseBuf.read task.parseBufIdx ++ text ∧ BodyPart task text ∧
        (∀ rest, Matcher.cutAfter terminator (task.parseBuf.read task.parseBufIdx ++ rest) =
          some (task.parseBuf.read task.parseBufIdx, rest)) ∧
        bodyAfter cfg (task.parseBuf.read task.parseBufIdx) = some task.bodyBytesNum ∧
        (task.parseBuf.read task.parseBufIdx).length ≤ bufDataMaxsize
  | _ => part = []

/-- What was received are the requests framed so far, `part`, and what waits in the receiving
buffer: no byte is skipped or used twice. -/
structure Framing (cfg : Config) (peer : Peer) (part : Bytes) : Prop where
  account : Trace.received peer.trace =
    ((Trace.framed peer.trace).map wire).flatten ++ (part ++ peer.receivingBuffer.content)
  framed : ∀ pair ∈ Trace.framed peer.trace, Framed cfg pair

section Framing

variable {cfg : Config} {p q : Peer} {part : Bytes}

theorem Framing.step {rest : Bytes} {events : List Event} (framing : Framing cfg p part)
    (trace : q.trace = p.trace ++ events) (none : Trace.received events = [])
    (moved : part ++ p.receivingBuffer.content =
      ((Trace.framed events).map wire).flatten ++ (rest ++ q.receivingBuffer.content))
    (framed : ∀ pair ∈ Trace.framed events, Framed cfg pair) : Framing cfg q rest where
  account := by
    calc
      Trace.received q.trace = Trace.received p.trace := by
        rw [trace, Trace.received_append, none, List.append_nil]
      _ = ((Trace.framed p.trace).map wire).flatten ++
            (((Trace.framed events).map wire).flatten ++
              (rest ++ q.receivingBuffer.content)) := by rw [framing.account, moved]
      _ = ((Trace.framed q.trace).map wire).flatten ++ (rest ++ q.receivingBuffer.content) := by
        rw [trace, Trace.framed_append, List.map_append, List.flatten_append, List.append_assoc]
  framed := by
    rw [trace, Trace.framed_append]
    intro pair member
    rcases List.mem_append.mp member with before | after
    · exact framing.framed pair before
    · exact framed pair after

theorem Framing.still {events : List Event} (framing : Framing cfg p part)
    (trace : q.trace = p.trace ++ events) (none : Trace.received events = [])
    (unframed : Trace.framed events = [])
    (same : q.receivingBuffer.content = p.receivingBuffer.content) : Framing cfg q part := by
  apply framing.step trace none
  · rw [unframed, same]
    rfl
  · rw [unframed]
    exact nofun

theorem Framing.completes {pair : Bytes × Option Bytes} {events : List Event}
    (framing : Framing cfg p part) (trace : q.trace = p.trace ++ events)
    (none : Trace.received events = []) (one : Trace.framed events = [pair])
    (moved : part ++ p.receivingBuffer.content = wire pair ++ q.receivingBuffer.content)
    (framed : Framed cfg pair) : Framing cfg q [] := by
  apply framing.step trace none
  · rw [one, moved]
    simp
  · rw [one]
    intro other member
    rwa [List.mem_singleton.mp member]

theorem Framing.puts {bytes : List OutByte} (framing : Framing cfg p part)
    (puts : Puts p bytes q) : Framing cfg q part := by
  obtain ⟨sendingBuffer, rfl⟩ := puts.frame
  exact framing.still rfl (Trace.received_map_put bytes) (Trace.framed_map_put bytes) rfl

theorem Framing.streamed {file : File} {status : StreamStatus} {fp : Ptr File}
    (framing : Framing cfg p part) (streamed : FileStreamed file p (status, fp, q)) :
    Framing cfg q part := by
  obtain ⟨bytes, next, events, puts, _, closing, same⟩ := streamed.puts
  cases same
  have put := framing.puts puts
  rcases closing with rfl | rfl <;> exact put.still rfl rfl rfl rfl

end Framing

section Passes

variable {cfg : Config} {os : Os} {h next : Handling} {part : Bytes}

private theorem Scanning.unique {task : HttpTask} {first second : Bytes}
    (one : Scanning task first) (two : Scanning task second) : first = second :=
  one.read.symm.trans two.read

private theorem BodyPart.unique {task : HttpTask} {first second : Bytes}
    (one : BodyPart task first) (two : BodyPart task second) : first = second := by
  obtain ⟨block, stored, _, read⟩ := one.stored
  obtain ⟨same, isSame, _, again⟩ := two.stored
  cases stored.symm.trans isSame
  exact read.symm.trans again

private theorem Unfinished.incomplete {task : HttpTask} (unfinished : Unfinished cfg task part)
    (resting : task.Resting) : splitRequests cfg part = [] := by
  have nothing (empty : part = []) : splitRequests cfg part = [] := by
    rw [empty]
    exact splitRequests_none rfl
  unfold Unfinished at unfinished
  cases state : task.state with
  | recvHeader =>
      simp only [state] at unfinished
      exact splitRequests_none (Matcher.cutAfter_none unfinished.clear)
  | recvBody =>
      simp only [state] at unfinished
      obtain ⟨text, rfl, body, cut, length, _⟩ := unfinished
      have missing : task.postBodyIdx < task.bodyBytesNum := by
        simpa [HttpTask.Resting, state] using resting
      rw [body.index] at missing
      rw [splitRequests_some (cut text), length]
      exact if_neg (Nat.not_le_of_gt missing)
  | checkCgi => simp only [state] at unfinished; exact nothing unfinished
  | generateHeader => simp only [state] at unfinished; exact nothing unfinished
  | sendHeader => simp only [state] at unfinished; exact nothing unfinished
  | sendBody => simp only [state] at unfinished; exact nothing unfinished
  | finished => simp only [state] at unfinished; exact nothing unfinished
  | processingCgi => simp only [state] at unfinished; exact nothing unfinished

theorem Unfinished.none {task : HttpTask} (header : task.state ≠ .recvHeader)
    (body : task.state ≠ .recvBody) : Unfinished cfg task part ↔ part = [] := by
  unfold Unfinished
  split
  · next state => exact absurd state header
  · next state => exact absurd state body
  · exact Iff.rfl

private theorem Taken.unfinished {task next : HttpTask} {request : Request} {block : Bytes}
    (took : Taken cfg task request next) (good : cfg.parse block = .ok (some request))
    (read : task.parseBuf.read task.parseBufIdx = block)
    (cut : ∀ rest, Matcher.cutAfter terminator (block ++ rest) = some (block, rest))
    (short : block.length ≤ bufDataMaxsize) :
    next.state = .recvBody ∧ Unfinished cfg next block ∨
      next.state ≠ .recvBody ∧ Unfinished cfg next [] ∧ bodyAfter cfg block = none := by
  have after : bodyAfter cfg block = bodyLength cfg request := by rw [bodyAfter, good]
  have marked : (markLastRequest task request).parseBuf.read
      (markLastRequest task request).parseBufIdx = block := by
    unfold markLastRequest
    split <;> exact read
  have noBody (other : request.httpMethod ≠ str "POST") : bodyAfter cfg block = none := by
    rw [after]
    by_contra hasBody
    exact other (bodyLength_post hasBody)
  cases took with
  | @fetch methodType method named =>
      refine .inr ⟨nofun, rfl, noBody ?_⟩
      rw [named]
      rcases method with rfl | rfl <;> decide
  | refuse post none => exact .inr ⟨nofun, rfl, after.trans none⟩
  | @body length hasBody =>
      subst marked
      have empty : BodyPart { markLastRequest task request with
          methodType := .post
          bodyBytesNum := length
          postBody := some (.malloc length)
          postBodyIdx := 0
          state := .recvBody } [] := ⟨⟨_, rfl, rfl, rfl⟩, Nat.zero_le _⟩
      exact .inl ⟨rfl, [], (List.append_nil _).symm, empty, cut, after.trans hasBody, short⟩
  | unknown other =>
      refine .inr ⟨nofun, rfl, noBody fun post => other ?_⟩
      simp [post]

def Pass.Framing (cfg : Config) : Pass → Prop
  | .again h => ∃ part, Liso.Framing cfg h.peer part ∧ Unfinished cfg h.task part
  | .returns code h => ∃ part, Liso.Framing cfg h.peer part ∧ splitRequests cfg part = [] ∧
      (code ≠ .closeConnImmediately → Unfinished cfg h.task part)

private theorem Unfinished.scanned {text : Bytes} (unfinished : Unfinished cfg h.task part)
    (state : h.task.state = .recvHeader) (scanning : Scanning h.task text) : part = text := by
  simp only [Unfinished, state] at unfinished
  exact unfinished.unique scanning

private theorem Unfinished.emptied (unfinished : Unfinished cfg h.task part)
    (header : h.task.state ≠ .recvHeader) (body : h.task.state ≠ .recvBody)
    (framing : Framing cfg h.peer part) : Framing cfg h.peer [] := by
  rwa [(Unfinished.none header body).mp unfinished] at framing

section Header

variable {text block : Bytes} {task : HttpTask} {left : Cbuf UInt8}

private theorem HeaderRead.short_framing (framing : Framing cfg h.peer text)
    (state : h.task.state = .recvHeader)
    (read : HeaderRead h.task text h.peer.receivingBuffer (.emptyRecvBuf, task, left)) :
    (Pass.returns .keepConn ⟨h.request, task, h.receive left⟩).Framing cfg := by
  cases read with
  | emptyRecvBuf scanning inv empty =>
      refine ⟨text ++ h.peer.receivingBuffer.content, ?_, ?_, fun _ => ?_⟩
      · refine framing.step (List.append_nil _).symm rfl ?_ (List.forall_mem_nil _)
        rw [Handling.receive, empty, List.append_nil]
        rfl
      · exact splitRequests_none (Matcher.cutAfter_none scanning.clear)
      · unfold Unfinished
        simpa only [state] using scanning

private theorem HeaderRead.long_framing (framing : Framing cfg h.peer text)
    (read : HeaderRead h.task text h.peer.receivingBuffer (.parserBufOverflow, task, left)) :
    (Pass.returns .closeConnImmediately ⟨h.request, task, h.receive left⟩).Framing cfg := by
  cases read with
  | @parserBufOverflow front _ _ _ left whole clear full inv =>
      refine ⟨front, framing.step (List.append_nil _).symm rfl whole (List.forall_mem_nil _),
        ?_, ?_⟩
      · exact splitRequests_none (Matcher.cutAfter_none clear)
      · exact fun other => absurd rfl other

private theorem HeaderRead.bad_framing (framing : Framing cfg h.peer text)
    (read : HeaderRead h.task text h.peer.receivingBuffer (.ready, task, left))
    (isBlock : task.parseBuf.read task.parseBufIdx = block) (bad : cfg.parse block = .ok none) :
    (Pass.returns .closeConnImmediately
      ⟨.null, { task with requests := task.requests + 1 }, (h.receive left).record
        [.parsed (task.requests + 1) block, .framed block none]⟩).Framing cfg := by
  cases read with
  | ready size same whole cut short inv =>
      cases same.symm.trans isBlock
      have alone : Framed cfg (block, none) := ⟨cut, by simp [bodyAfter, bad], short⟩
      refine ⟨[], framing.completes rfl rfl rfl ?_ alone, splitRequests_none rfl, ?_⟩
      · rw [whole, wire, Option.getD_none, List.append_nil]
        rfl
      · exact fun other => absurd rfl other

private theorem HeaderRead.good_framing {request : Request} {taken : HttpTask}
    (framing : Framing cfg h.peer text)
    (read : HeaderRead h.task text h.peer.receivingBuffer (.ready, task, left))
    (isBlock : task.parseBuf.read task.parseBufIdx = block)
    (good : cfg.parse block = .ok (some request))
    (took : Taken cfg { task with requests := task.requests + 1 } request taken) :
    (Pass.again ⟨.live ⟨request, h.peer.conn, task.requests + 1⟩, taken,
      (h.receive left).record (.parsed (task.requests + 1) block ::
        if taken.state = .recvBody then [] else [.framed block none])⟩).Framing cfg := by
  cases read with
  | ready size same whole cut short inv =>
      cases same.symm.trans isBlock
      rcases took.unfinished good same cut short with ⟨body, begun⟩ | ⟨noBody, done, alone⟩
      · refine ⟨_, framing.step rfl ?_ ?_ ?_, begun⟩
        · rw [if_pos body]
          rfl
        · rw [if_pos body]
          exact whole
        · rw [if_pos body]
          exact List.forall_mem_nil _
      · have complete : Framed cfg (block, none) := ⟨cut, alone.symm, short⟩
        refine ⟨[], framing.completes rfl ?_ ?_ ?_ complete, done⟩
        · rw [if_neg noBody]
          rfl
        · rw [if_neg noBody]
          rfl
        · rw [whole, wire, Option.getD_none, List.append_nil]
          rfl

end Header

section Body

variable {text : Bytes} {task : HttpTask} {left : Cbuf UInt8}

private theorem BodyRead.short_framing (framing : Framing cfg h.peer part)
    (unfinished : Unfinished cfg h.task part) (state : h.task.state = .recvBody)
    (body : BodyPart h.task text)
    (read : BodyRead h.task text h.peer.receivingBuffer (false, task, left)) :
    (Pass.returns .keepConn ⟨h.request, task, h.receive left⟩).Framing cfg := by
  simp only [Unfinished, state] at unfinished
  obtain ⟨_, rfl, same, cut, length, short⟩ := unfinished
  cases same.unique body
  cases read with
  | short next missing inv empty =>
      let block := h.task.parseBuf.read h.task.parseBufIdx
      refine ⟨block ++ (text ++ h.peer.receivingBuffer.content), ?_, ?_, fun _ => ?_⟩
      · refine framing.step (List.append_nil _).symm rfl ?_ (List.forall_mem_nil _)
        rw [Handling.receive, empty, List.append_nil, ← List.append_assoc block]
        rfl
      · rw [splitRequests_some (cut _), length]
        exact if_neg (Nat.not_le_of_gt missing)
      · unfold Unfinished
        simp only [state] at next ⊢
        exact ⟨_, rfl, next, cut, length, short⟩

private theorem BodyRead.whole_framing (framing : Framing cfg h.peer part)
    (unfinished : Unfinished cfg h.task part) (state : h.task.state = .recvBody)
    (body : BodyPart h.task text)
    (read : BodyRead h.task text h.peer.receivingBuffer (true, task, left)) :
    (Pass.again ⟨h.request, { task with state := .checkCgi }, (h.receive left).record
      [.framed (task.parseBuf.read task.parseBufIdx) (postBodyBytes task)]⟩).Framing cfg := by
  simp only [Unfinished, state] at unfinished
  obtain ⟨_, rfl, same, cut, length, short⟩ := unfinished
  cases same.unique body
  cases read with
  | @whole received postBody postBodyIdx left next full split inv =>
      obtain ⟨stored, isStored, _, read⟩ := next.stored
      have got : postBodyBytes { h.task with postBody, postBodyIdx } = some received := by
        rw [postBodyBytes, isStored, Option.map_some, ← read, next.index, full]
      have complete : Framed cfg (h.task.parseBuf.read h.task.parseBufIdx, some received) := by
        refine ⟨cut, ?_, short⟩
        rw [length, ← full]
        rfl
      refine ⟨[], framing.completes rfl rfl ?_ ?_ complete, rfl⟩
      · rw [got]
        rfl
      · rw [List.append_assoc, split, wire, Option.getD_some, List.append_assoc]
        rfl

end Body

private theorem HeadSent.framing {ret : Option HttpState} {sent : HttpTask} {peer : Peer}
    (framing : Framing cfg h.peer []) (result : HeadSent h.task h.peer (ret, sent, peer)) :
    (Pass.again ⟨h.request, { sent with state := afterHead sent }, peer⟩).Framing cfg := by
  obtain ⟨front, puts, _⟩ := result.puts
  refine ⟨[], framing.puts puts, (Unfinished.none ?_ ?_).mpr rfl⟩
  · change afterHead _ ≠ _
    rcases afterHead_cases sent with body | finished
    · simp [body]
    · simp [finished]
  · change afterHead _ ≠ _
    rcases afterHead_cases sent with body | finished
    · simp [body]
    · simp [finished]

private theorem GetHeader.framing {request changed : Request} {code : Int} {task : HttpTask}
    {events : List Event} (framing : Framing cfg h.peer []) (after : Ptr RequestCell)
    (found : GetHeader cfg os h.task request h.task.lastRequest (code, task, changed, events)) :
    (Pass.again ⟨after,
      { task with
        responseCode := code
        state := if code = okNum then .sendHeader else .generateHeader },
      h.peer.record events⟩).Framing cfg := by
  refine ⟨[], framing.still rfl ?_ ?_ rfl, (Unfinished.none ?_ ?_).mpr rfl⟩
  · cases found <;> rfl
  · cases found <;> rfl
  · change (if _ then _ else _) ≠ _
    split <;> simp
  · change (if _ then _ else _) ≠ _
    split <;> simp

theorem PassCases.framing {pass : Pass} (framing : Framing cfg h.peer part)
    (unfinished : Unfinished cfg h.task part) (result : PassCases cfg os h pass) :
    pass.Framing cfg := by
  have emptied (header : h.task.state ≠ .recvHeader) (body : h.task.state ≠ .recvBody) :=
    unfinished.emptied header body framing
  cases result with
  | headerShort state scanning read =>
      cases unfinished.scanned state scanning
      exact read.short_framing framing state
  | headerLong state scanning read =>
      cases unfinished.scanned state scanning
      exact read.long_framing framing
  | headerBad state scanning read isBlock bad =>
      cases unfinished.scanned state scanning
      exact read.bad_framing framing isBlock bad
  | headerGood state scanning read isBlock good took =>
      cases unfinished.scanned state scanning
      exact read.good_framing framing isBlock good took
  | bodyShort state body read => exact read.short_framing framing unfinished state body
  | bodyWhole state body read => exact read.whole_framing framing unfinished state body
  | generated state written => exact ⟨[], emptied (by simp [state]) (by simp [state]), rfl⟩
  | headSent state result => exact result.framing (emptied (by simp [state]) (by simp [state]))
  | cgiStarted state live cgi started =>
      obtain ⟨executor, _, _, rfl⟩ := started.started
      have framing := emptied (by simp [state]) (by simp [state])
      exact ⟨[], framing.still rfl rfl rfl rfl, splitRequests_none rfl, fun _ => rfl⟩
  | staticHead state live static method found =>
      exact found.framing (emptied (by simp [state]) (by simp [state])) _
  | staticPost state live static post =>
      exact ⟨[], emptied (by simp [state]) (by simp [state]), rfl⟩
  | fileWaits state opened streamed =>
      have framing := emptied (by simp [state]) (by simp [state])
      refine ⟨[], framing.streamed streamed, splitRequests_none rfl, fun _ => ?_⟩
      exact (Unfinished.none (by simp [state]) (by simp [state])).mpr rfl
  | fileFails state opened streamed =>
      have framing := emptied (by simp [state]) (by simp [state])
      refine ⟨[], framing.streamed streamed, splitRequests_none rfl, ?_⟩
      exact fun other => absurd rfl other
  | fileDone state opened streamed =>
      have framing := emptied (by simp [state]) (by simp [state])
      exact ⟨[], framing.streamed streamed, rfl⟩

theorem httpLoop_framing {fuel : Nat} {code : Code} (inv : h.Inv)
    (framing : Framing cfg h.peer part) (unfinished : Unfinished cfg h.task part)
    (ran : httpLoop cfg os fuel h = some (.ok (code, next))) :
    (Pass.returns code next).Framing cfg := by
  refine httpLoop_rule (P := fun h => (Pass.again h).Framing cfg)
    (Q := fun code next => (Pass.returns code next).Framing cfg) ?_ ?_ ?_ inv
    ⟨part, framing, unfinished⟩ ran
  · rintro h next valid ⟨part, framing, unfinished⟩ result
    exact result.framing framing unfinished
  · rintro h code next valid ⟨part, framing, unfinished⟩ result
    exact result.framing framing unfinished
  · rintro h code next valid ⟨part, framing, unfinished⟩ state done
    have empty := (Unfinished.none (by simp [state]) (by simp [state])).mp unfinished
    have size := valid.task.parseSize
    have scanning : Scanning (resetHttpTask h.task) [] := by
      obtain ⟨_, _, _, _, _, text, scanning⟩ := (resetHttpTask_inv size).ready
      have none : text = [] := scanning.read.symm
      rwa [none] at scanning
    rcases finishRequest_cases done with ⟨rfl, ⟨_, rfl⟩ | ⟨_, _, rfl⟩⟩
    · exact ⟨[], empty ▸ framing, splitRequests_none rfl, fun _ => scanning⟩
    · exact ⟨[], empty ▸ framing.still rfl rfl rfl rfl, splitRequests_none rfl, fun _ => scanning⟩

end Passes

end Liso
