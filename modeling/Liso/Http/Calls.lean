import Liso.Http.Passes

/-! Whole calls of `handle_http`: a pass leaves a valid task, the loop ends, and
what every pass keeps, every call keeps. -/

namespace Liso

def Pass.Valid : Pass → Prop
  | .again h => h.Inv
  | .returns code h => code ≠ .closeConnImmediately → h.Inv

private theorem Taken.valid {cfg : Config} {task next : HttpTask} {request : Request}
    (took : Taken cfg task request next) (response : task.responseBuf.Inv)
    (size : task.parseBuf.size = bufDataMaxsize) (empty : task.responseBuf.content = []) :
    next.Inv := by
  have marked : (markLastRequest task request).responseBuf = task.responseBuf ∧
      (markLastRequest task request).parseBuf = task.parseBuf := by
    unfold markLastRequest
    split <;> exact ⟨rfl, rfl⟩
  have plain (final : HttpTask) (buf : final.responseBuf = (markLastRequest task request).responseBuf)
      (parse : final.parseBuf = (markLastRequest task request).parseBuf) (ready : final.Ready) :
      final.Inv := by
    rw [marked.1] at buf
    rw [marked.2] at parse
    refine ⟨by rwa [buf], by rwa [parse], ?_, ready⟩
    rw [buf, empty]
    exact nofun
  have blank : (markLastRequest task request).responseBuf.content = [] := by
    rw [marked.1, empty]
  cases took with
  | fetch method named =>
      refine plain _ rfl rfl ⟨?_, blank⟩
      rcases method with rfl | rfl <;> exact nofun
  | refuse post noBody =>
      refine plain _ rfl rfl ⟨rfl, ?_, nofun⟩
      simp [blank]
  | body hasBody =>
      refine plain _ rfl rfl ⟨rfl, blank, [], ⟨_, rfl, rfl, rfl⟩, Nat.zero_le _⟩
  | unknown other =>
      refine plain _ rfl rfl ⟨rfl, ?_, nofun⟩
      simp [blank]

private theorem afterHead_ready {task : HttpTask}
    (ready : errorCode task.responseCode = true ∨ task.methodType = .head ∨
      task.methodType = .post ∨ task.methodType = .get ∧ task.HasFile) :
    ({ task with state := afterHead task } : HttpTask).Ready := by
  by_cases error : errorCode task.responseCode = true
  · simp [HttpTask.Ready, afterHead, error]
  · rcases ready with bad | head | post | ⟨get, file⟩
    · exact absurd bad error
    · simp [HttpTask.Ready, afterHead, error, head]
    · simp [HttpTask.Ready, afterHead, error, post]
    · simp only [HttpTask.Ready, afterHead, error, get]
      exact ⟨trivial, file⟩

theorem afterHead_nonbody {task : HttpTask} (valid : validResponseCode task.responseCode = true)
    (okPost : task.responseCode = okNum → task.methodType = .post) :
    afterHead task = .finished := by
  rcases validResponseCode_cases valid with isOk | error
  · simp [afterHead, isOk, okPost isOk]
  · have failed : errorCode task.responseCode = true := by
      rcases error with same | same | same | same | same | same <;> simp only [same] <;> rfl
    simp [afterHead, failed]

section Valid

variable {cfg : Config} {os : Os} {h : Handling} {text : Bytes} {next : HttpTask}
variable {left : Cbuf UInt8} {peer : Peer}

private theorem HeaderRead.short_valid (inv : h.Inv) (state : h.task.state = .recvHeader)
    (read : HeaderRead h.task text h.peer.receivingBuffer (.emptyRecvBuf, next, left)) :
    Handling.Inv ⟨h.request, next, h.receive left⟩ := by
  have ready := inv.task.ready
  simp only [HttpTask.Ready, state] at ready
  obtain ⟨code, last, method, length, empty, _⟩ := ready
  cases read with
  | emptyRecvBuf scanning left none =>
      refine ⟨⟨inv.task.response, scanning.size, inv.task.tags, ?_⟩, inv.sending, left⟩
      rw [state] at scanning
      simp only [HttpTask.Ready, state]
      exact ⟨code, last, method, length, empty, _, scanning⟩

private theorem BodyRead.short_valid (inv : h.Inv) (state : h.task.state = .recvBody)
    (read : BodyRead h.task text h.peer.receivingBuffer (false, next, left)) :
    Handling.Inv ⟨h.request, next, h.receive left⟩ := by
  have ready := inv.task.ready
  simp only [HttpTask.Ready, state] at ready
  obtain ⟨method, empty, _⟩ := ready
  cases read with
  | short part missing left none =>
      refine ⟨⟨inv.task.response, inv.task.parseSize, inv.task.tags, ?_⟩, inv.sending, left⟩
      rw [state] at part
      simp only [HttpTask.Ready, state]
      exact ⟨method, empty, _, part⟩

private theorem Written.nonbody_valid (inv : h.Inv) (state : h.task.state = .generateHeader)
    (written : Written h.task (nonbodyHead h.task.responseCode) next) :
    ({ next with state := .sendHeader } : HttpTask).Inv := by
  have ready := inv.task.ready
  simp only [HttpTask.Ready, state] at ready
  obtain ⟨valid, _, okPost⟩ := ready
  have tags := written.tags inv.task.tags
  have response := written.inv
  obtain ⟨responseBuf, rfl⟩ := written.frame
  refine ⟨response, inv.task.parseSize, tags, ?_⟩
  rcases validResponseCode_cases valid with isOk | error
  · exact .inr (.inr (.inl (okPost isOk)))
  · refine .inl ?_
    rcases error with same | same | same | same | same | same <;> simp only [same] <;> rfl

private theorem HeadSent.valid {ret : Option HttpState} (inv : h.Inv)
    (state : h.task.state = .sendHeader) (sent : HeadSent h.task h.peer (ret, next, peer)) :
    Handling.Inv ⟨h.request, { next with state := afterHead next }, peer⟩ := by
  have ready := inv.task.ready
  simp only [HttpTask.Ready, state] at ready
  obtain ⟨front, puts, _⟩ := sent.puts
  have sending := puts.inv
  obtain ⟨sendingBuffer, rfl⟩ := puts.frame
  obtain ⟨responseBuf, rfl, response, kept⟩ := sent.left
  refine ⟨⟨response, inv.task.parseSize, ?_, afterHead_ready ready⟩, sending, inv.receiving⟩
  exact fun byte member => inv.task.tags byte (kept byte member)

private theorem GetHeader.valid {code : Int} {request changed : Request} {events : List Event}
    (inv : h.Inv) (state : h.task.state = .checkCgi)
    (method : h.task.methodType = .get ∨ h.task.methodType = .head)
    (found : GetHeader cfg os h.task request h.task.lastRequest (code, next, changed, events)) :
    ({ next with
      responseCode := code
      state := if code = okNum then .sendHeader else .generateHeader } : HttpTask).Inv := by
  have ready := inv.task.ready
  simp only [HttpTask.Ready, state] at ready
  obtain ⟨_, empty⟩ := ready
  cases found with
  | missing path absent =>
      refine ⟨inv.task.response, inv.task.parseSize, inv.task.tags, ?_⟩
      have failed : notFoundNum ≠ okNum := by decide
      refine ⟨rfl, ?_, fun isOk => absurd isOk failed⟩
      simp [empty]
  | unopened path present written described noFile =>
      have response := written.inv
      have tags := written.tags inv.task.tags
      have length := written.length
      obtain ⟨responseBuf, rfl⟩ := written.frame
      refine ⟨response, inv.task.parseSize, tags, ?_⟩
      have failed : internalServerErrorNum ≠ okNum := by decide
      refine ⟨rfl, ?_, fun isOk => absurd isOk failed⟩
      rw [length, empty, List.length_nil, Nat.zero_add]
      exact getHead_length _ _ _ _
  | opened path present written described hasFile =>
      have response := written.inv
      have tags := written.tags inv.task.tags
      obtain ⟨responseBuf, rfl⟩ := written.frame
      refine ⟨response, inv.task.parseSize, tags, ?_⟩
      rcases method with get | head
      · exact .inr (.inr (.inr ⟨get, _, rfl, rfl⟩))
      · exact .inr (.inl head)

private theorem FileStreamed.waits_valid {file : File} {fp : Ptr File} (inv : h.Inv)
    (state : h.task.state = .sendBody) (opened : h.task.fp = .live file)
    (streamed : FileStreamed file h.peer (.notDone, fp, peer)) :
    Handling.Inv ⟨h.request, { h.task with fp }, peer⟩ := by
  have ready := inv.task.ready
  simp only [HttpTask.Ready, state] at ready
  obtain ⟨get, file, same, req⟩ := ready
  cases same.symm.trans opened
  cases streamed with
  | notDone split puts full =>
      have sending := puts.inv
      obtain ⟨sendingBuffer, rfl⟩ := puts.frame
      refine ⟨⟨inv.task.response, inv.task.parseSize, inv.task.tags, ?_⟩, sending, inv.receiving⟩
      simp only [HttpTask.Ready, state]
      exact ⟨get, _, rfl, req⟩

theorem PassCases.valid {pass : Pass} (inv : h.Inv) (result : PassCases cfg os h pass) :
    pass.Valid := by
  have ready := inv.task.ready
  cases result with
  | headerShort state scanning read => exact fun _ => read.short_valid inv state
  | headerLong state scanning read => exact fun other => absurd rfl other
  | headerBad state scanning read whole bad => exact fun other => absurd rfl other
  | headerGood state scanning read whole good took =>
      simp only [HttpTask.Ready, state] at ready
      obtain ⟨_, _, _, _, empty, _⟩ := ready
      cases read with
      | ready size block joined cut short left =>
          exact ⟨took.valid inv.task.response size empty, inv.sending, left⟩
  | bodyShort state part read => exact fun _ => read.short_valid inv state
  | bodyWhole state part read =>
      simp only [HttpTask.Ready, state] at ready
      obtain ⟨method, empty, _⟩ := ready
      cases read with
      | whole part full split left =>
          refine ⟨⟨inv.task.response, inv.task.parseSize, inv.task.tags, ?_⟩, inv.sending, left⟩
          refine ⟨?_, empty⟩
          simp [method]
  | generated state written => exact ⟨written.nonbody_valid inv state, inv.sending, inv.receiving⟩
  | headSent state sent => exact sent.valid inv state
  | cgiStarted state live cgi started =>
      intro _
      obtain ⟨executor, _, _, rfl⟩ := started.started
      refine ⟨⟨inv.task.response, inv.task.parseSize, inv.task.tags, ?_⟩, inv.sending, inv.receiving⟩
      trivial
  | staticHead state live static method found =>
      exact ⟨found.valid inv state method, inv.sending, inv.receiving⟩
  | staticPost state live static post =>
      simp only [HttpTask.Ready, state] at ready
      refine ⟨⟨inv.task.response, inv.task.parseSize, inv.task.tags, ?_⟩, inv.sending, inv.receiving⟩
      refine ⟨rfl, ?_, fun _ => post⟩
      simp [ready.2]
  | fileWaits state opened streamed => exact fun _ => streamed.waits_valid inv state opened
  | fileFails state opened streamed => exact fun other => absurd rfl other
  | fileDone state opened streamed =>
      cases streamed with
      | done ends puts =>
          have sending := puts.inv
          obtain ⟨sendingBuffer, rfl⟩ := puts.frame
          refine ⟨⟨inv.task.response, inv.task.parseSize, inv.task.tags, ?_⟩, sending,
            inv.receiving⟩
          trivial

end Valid

theorem finishRequest_cases {h next : Handling} {code : Code}
    (finished : finishRequest h = .ok (code, next)) :
    code = .keepConn ∧
      (h.request = .null ∧ next = ⟨.null, resetHttpTask h.task, h.peer⟩ ∨
        ∃ cell, h.request = .live cell ∧
          next = ⟨.freed, resetHttpTask h.task, h.peer.record [.requestFreed]⟩) := by
  unfold finishRequest at finished
  cases request : h.request with
  | null =>
      simp only [request, freeRequest] at finished
      cases finished
      exact ⟨rfl, .inl ⟨rfl, rfl⟩⟩
  | live cell =>
      simp only [request, freeRequest] at finished
      cases finished
      exact ⟨rfl, .inr ⟨cell, rfl, rfl⟩⟩
  | freed =>
      simp only [request, freeRequest] at finished
      cases finished

theorem resetHttpTask_inv {task : HttpTask} (size : task.parseBuf.size = bufDataMaxsize) :
    (resetHttpTask task).Inv where
  response := Cbuf.reset_inv _
  parseSize := size
  tags := nofun
  ready := by
    refine ⟨rfl, rfl, rfl, rfl, rfl, [], ⟨size, rfl, ?_, ?_, ?_⟩⟩
    · exact Matcher.border_nil.symm
    · exact Matcher.Clear.nil (by simp [terminator])
    · decide

section Loop

variable {cfg : Config} {os : Os}

theorem PassCases.rank_lt {h next : Handling} (result : PassCases cfg os h (.again next)) :
    next.task.state.rank < h.task.state.rank := by
  cases result with
  | headerGood state scanning read whole good took => cases took <;> simp [state, HttpState.rank]
  | bodyWhole state part read => simp [state, HttpState.rank]
  | generated state written => simp [state, HttpState.rank]
  | @headSent _ sent _ state result =>
      rw [state]
      change (afterHead sent).rank < _
      unfold afterHead
      split
      · decide
      · split <;> decide
  | staticHead state live static method found =>
      rw [state]
      change HttpState.rank (if _ then _ else _) < _
      split <;> decide
  | staticPost state live static post => simp [state, HttpState.rank]
  | fileDone state opened streamed => simp [state, HttpState.rank]

theorem httpLoop_ends {fuel : Nat} {h : Handling} (inv : h.Inv)
    (enough : h.task.state.rank < fuel) : httpLoop cfg os fuel h ≠ none := by
  induction fuel generalizing h with
  | zero => exact absurd enough (Nat.not_lt_zero _)
  | succ fuel ih =>
      rw [httpLoop]
      split
      · exact nofun
      · cases passed : httpPass cfg os h with
        | error fault => exact nofun
        | ok pass =>
            have result := httpPass_cases inv passed
            cases pass with
            | returns code next => exact nofun
            | again next =>
                have forward := result.rank_lt
                exact ih (result.valid inv) (by omega)

/-- What the passes carry on from `P` to `Q`, the loop does. -/
theorem httpLoop_rule {P : Handling → Prop} {Q : Code → Handling → Prop}
    (again : ∀ h next, h.Inv → P h → PassCases cfg os h (.again next) → P next)
    (stop : ∀ h code next, h.Inv → P h → PassCases cfg os h (.returns code next) → Q code next)
    (finish : ∀ h code next, h.Inv → P h → h.task.state = .finished →
      finishRequest h = .ok (code, next) → Q code next)
    {fuel : Nat} {h : Handling} (inv : h.Inv) (start : P h) {code : Code} {next : Handling}
    (ran : httpLoop cfg os fuel h = some (.ok (code, next))) : Q code next := by
  induction fuel generalizing h with
  | zero => cases ran
  | succ fuel ih =>
      rw [httpLoop] at ran
      split at ran
      · next finished => exact finish h code next inv start finished (Option.some.inj ran)
      · cases passed : httpPass cfg os h with
        | error fault =>
            simp only [passed] at ran
            cases ran
        | ok pass =>
            have result := httpPass_cases inv passed
            simp only [passed] at ran
            cases pass with
            | returns stopCode stopped =>
                cases ran
                exact stop h code next inv start result
            | again middle => exact ih (result.valid inv) (again h middle inv start result) ran

end Loop

end Liso
