import Liso.Http.Faults
import Liso.Http.Paths
import Liso.Server.Order
import Liso.Server.Request

/-! The checks that `handle_http` makes of itself: its assertions, and the states in
which it exits. -/

namespace Liso

def HttpTask.FieldsValid (task : HttpTask) : Prop :=
  match task.state with
  | .generateHeader => validResponseCode task.responseCode = true
  | .sendHeader =>
      task.methodType ≠ .noMethod ∧ task.responseCode = okNum ∨ errorCode task.responseCode = true
  | .sendBody => task.methodType = .get ∧ ∃ file, task.fp = .live file
  | _ => True

def HttpTask.Allocated (task : HttpTask) : Prop := task.bodyBytesNum > 0 → task.postBody ≠ none

/-- `pipe` and `fork` succeed. -/
def Os.Forks (os : Os) : Prop := os.stdinPipe ≠ none ∧ os.stdoutPipe ≠ none ∧ os.fork = true

structure Handling.Checked (h : Handling) : Prop where
  inv : h.Inv
  own : OwnRequest h.peer.conn h.request h.task
  allocated : h.task.Allocated
  vacant : h.peer.cgiExecutor = .null
  fields : h.task.FieldsValid
  busy : h.task.state ≠ .processingCgi

section Passes

variable {cfg : Config} {os : Os} {h next : Handling}

private theorem Taken.fields {task after : HttpTask} {request : Request}
    (took : Taken cfg task request after) (none : task.bodyBytesNum = 0) :
    after.Allocated ∧ after.FieldsValid ∧ after.state ≠ .processingCgi := by
  have marked : (markLastRequest task request).bodyBytesNum = 0 := by
    unfold markLastRequest
    split <;> exact none
  have empty {final : HttpTask} (same : final.bodyBytesNum = 0) : final.Allocated := by
    intro some
    omega
  cases took with
  | fetch method named => exact ⟨empty marked, trivial, by simp⟩
  | refuse post noBody => exact ⟨empty marked, rfl, by simp⟩
  | body hasBody => exact ⟨fun _ => by simp, trivial, by simp⟩
  | unknown other => exact ⟨empty marked, rfl, by simp⟩

theorem PassCases.allocated {pass : Pass} (inv : h.Inv) (allocated : h.task.Allocated)
    (result : PassCases cfg os h pass) : pass.handling.task.Allocated := by
  have ready := inv.task.ready
  cases result with
  | headerShort state scanning read =>
      cases read
      exact allocated
  | headerLong state scanning read =>
      cases read
      exact allocated
  | headerBad state scanning read whole bad =>
      cases read
      exact allocated
  | headerGood state scanning read whole good took =>
      simp only [HttpTask.Ready, state] at ready
      obtain ⟨_, _, _, none, _⟩ := ready
      cases read
      exact (took.fields none).1
  | bodyShort state part read =>
      cases read with
      | short part missing left drained =>
          obtain ⟨block, stored, _⟩ := part.stored
          exact fun _ absent => Option.some_ne_none block (stored.symm.trans absent)
  | bodyWhole state part read =>
      cases read with
      | whole part full split left =>
          obtain ⟨block, stored, _⟩ := part.stored
          exact fun _ absent => Option.some_ne_none block (stored.symm.trans absent)
  | generated state written =>
      obtain ⟨responseBuf, rfl⟩ := written.frame
      exact allocated
  | headSent state sent =>
      obtain ⟨responseBuf, rfl, _⟩ := sent.left
      exact allocated
  | cgiStarted state live cgi started => exact allocated
  | staticHead state live static method found =>
      cases found with
      | missing path absent => exact allocated
      | unopened path present written described noFile =>
          obtain ⟨responseBuf, rfl⟩ := written.frame
          exact allocated
      | opened path present written described hasFile =>
          obtain ⟨responseBuf, rfl⟩ := written.frame
          exact allocated
  | staticPost state live static post => exact allocated
  | fileWaits state opened streamed => exact allocated
  | fileFails state opened streamed => exact allocated
  | fileDone state opened streamed => exact allocated

private theorem PassCases.fields (checked : h.Checked) (result : PassCases cfg os h (.again next)) :
    next.task.FieldsValid ∧ next.task.state ≠ .processingCgi := by
  have ready := checked.inv.task.ready
  cases result with
  | headerGood state scanning read whole good took =>
      simp only [HttpTask.Ready, state] at ready
      obtain ⟨_, _, _, none, _⟩ := ready
      cases read
      exact (took.fields none).2
  | bodyWhole state part read => exact ⟨trivial, by simp⟩
  | generated state written =>
      simp only [HttpTask.Ready, state] at ready
      obtain ⟨valid, _, okPost⟩ := ready
      obtain ⟨responseBuf, rfl⟩ := written.frame
      refine ⟨?_, by simp⟩
      rcases validResponseCode_cases valid with isOk | error
      · exact .inl ⟨by simp [okPost isOk], isOk⟩
      · refine .inr ?_
        rcases error with same | same | same | same | same | same <;> simp only [same] <;> rfl
  | @headSent ret sent peer state result =>
      obtain ⟨responseBuf, rfl, _⟩ := result.left
      have valid := checked.inv.task.ready
      simp only [HttpTask.Ready, state] at valid
      have after := (PassCases.headSent state result : PassCases cfg os h _).valid checked.inv
      have bodyReady := after.task.ready
      rcases afterHead_cases { h.task with responseBuf } with body | finished
      · simp only [HttpTask.Ready, HttpTask.FieldsValid, body] at bodyReady ⊢
        obtain ⟨get, file, opened, _⟩ := bodyReady
        exact ⟨⟨get, file, opened⟩, by simp⟩
      · simp only [HttpTask.FieldsValid, finished]
        exact ⟨trivial, by simp⟩
  | staticHead state live static method found =>
      simp only [HttpTask.Ready, state] at ready
      cases found with
      | missing path absent => exact ⟨rfl, by simp [notFoundNum, okNum]⟩
      | unopened path present written described noFile =>
          exact ⟨rfl, by simp [internalServerErrorNum, okNum]⟩
      | opened path present written described hasFile =>
          obtain ⟨responseBuf, rfl⟩ := written.frame
          exact ⟨.inl ⟨ready.1, rfl⟩, by simp⟩
  | staticPost state live static post => exact ⟨rfl, by simp⟩
  | fileDone state opened streamed => exact ⟨trivial, by simp⟩

theorem PassCases.checked (checked : h.Checked) (result : PassCases cfg os h (.again next)) :
    next.Checked := by
  obtain ⟨fields, busy⟩ := result.fields checked
  have still : next.peer.conn = h.peer.conn ∧ next.peer.cgiExecutor = h.peer.cgiExecutor := by
    obtain ⟨events, moves⟩ := result.moves_again checked.inv
    exact ⟨moves.conn, moves.executor⟩
  have own := result.own checked.own fun _ => Pass.noConfusion
  refine ⟨result.valid checked.inv, ?_, result.allocated checked.inv checked.allocated,
    still.2.trans checked.vacant, fields, busy⟩
  rw [still.1]
  exact own

/-- The header block that the bytes at hand complete, and what waits behind it. -/
def Handling.block (h : Handling) : Option (Bytes × Bytes) :=
  (Matcher.cutAfter terminator (h.task.parseBuf.read h.task.parseBufIdx ++
    h.peer.receivingBuffer.content)).filter fun (block, _) => block.length ≤ bufDataMaxsize

theorem HeaderRead.block {text : Bytes} {status : HeaderStatus} {next : HttpTask}
    {left : Cbuf UInt8} (scanning : Scanning h.task text)
    (read : HeaderRead h.task text h.peer.receivingBuffer (status, next, left)) :
    h.block = if status = .ready then some (next.parseBuf.read next.parseBufIdx, left.content)
      else none := by
  rw [Handling.block, scanning.read]
  cases read with
  | ready size read whole cut short inv =>
      rw [whole, cut, if_pos rfl, Option.filter_some, if_pos (by simpa using short), read]
  | emptyRecvBuf unfinished inv empty =>
      rw [Matcher.cutAfter_none unfinished.clear]
      rfl
  | @parserBufOverflow front _ _ _ left whole clear full inv =>
      rw [whole, if_neg nofun, Option.filter_eq_none_iff]
      intro found cut
      obtain ⟨split, ends⟩ := Matcher.cutAfter_some found.1 found.2 cut
      have long : ¬ found.1.length ≤ bufDataMaxsize := by
        intro short
        have inside : found.1 <+: front :=
          List.prefix_of_prefix_length_le ⟨found.2, split.symm⟩ ⟨left.content, rfl⟩ (by omega)
        exact clear found.1 inside ends
      simpa using long

/-- Where a pass stops: in `parse`, or while the environment of a child, the path of a file or
what the head says of it is put together. -/
inductive PassFails (cfg : Config) (os : Os) (h : Handling) : Fault → Prop
  | header {block rest : Bytes} {fault : Fault} (state : h.task.state = .recvHeader)
      (found : h.block = some (block, rest)) (failed : cfg.parse block = .error fault) :
      PassFails cfg os h fault
  | param {cell : RequestCell} {fault : Fault} (state : h.task.state = .checkCgi)
      (live : h.request = .live cell) (cgi : isCgi cell.request.httpUri = true)
      (failed : buildCgiParam cfg.cgiScripts cell.request h.peer.addres = .error fault) :
      PassFails cfg os h fault
  | path {cell : RequestCell} {fault : Fault} (state : h.task.state = .checkCgi)
      (live : h.request = .live cell) (static : isCgi cell.request.httpUri = false)
      (method : h.task.methodType = .get ∨ h.task.methodType = .head)
      (failed : makeFullPath cfg.wwwDir cell.request = .error fault) : PassFails cfg os h fault
  | undescribed {cell : RequestCell} {path : Bytes} {changed : Request} {fault : Fault}
      (state : h.task.state = .checkCgi) (live : h.request = .live cell)
      (static : isCgi cell.request.httpUri = false)
      (method : h.task.methodType = .get ∨ h.task.methodType = .head)
      (made : makeFullPath cfg.wwwDir cell.request = .ok (path, changed))
      (present : os.access path = true) (failed : describe os (loweredPath path) = .error fault) :
      PassFails cfg os h fault

section Fails

variable {fault : Fault}

private theorem takeRequest_ok (cfg : Config) {task : HttpTask} (noBody : task.bodyBytesNum = 0)
    (request : Request) : ∃ next, takeRequest cfg task request = .ok next := by
  have empty : ¬ (markLastRequest task request).bodyBytesNum ≠ 0 := by
    unfold markLastRequest
    split <;> exact not_not.mpr noBody
  have never : FailsOnly (fun _ => False) (takeRequest cfg task request) := by
    unfold takeRequest
    refine .ite (.ok _) (.ite (.ok _) (.ite (.ite (.ok _) (.ite (.ok _) ?_)) (.ok _)))
    rw [if_neg empty]
    exact .ok _
  cases took : takeRequest cfg task request with
  | error fault => exact (never fault took).elim
  | ok next => exact ⟨next, rfl⟩

private theorem recvHeaderState_error (inv : h.Inv) (state : h.task.state = .recvHeader)
    (failed : recvHeaderState cfg h = .error fault) : PassFails cfg os h fault := by
  have ready := inv.task.ready
  simp only [HttpTask.Ready, state] at ready
  obtain ⟨_, _, _, noBody, _⟩ := ready
  obtain ⟨text, status, next, left, scanning, fresh, ran, read⟩ := inv.headerRead state
  rw [recvHeaderState, if_neg fresh] at failed
  simp only [ran] at failed
  cases status with
  | emptyRecvBuf => cases failed
  | parserBufOverflow => cases failed
  | ready =>
      simp only at failed
      cases parsed : cfg.parse (next.parseBuf.read next.parseBufIdx) with
      | error other =>
          simp only [parsed] at failed
          cases failed
          have found := read.block scanning
          rw [if_pos rfl] at found
          exact .header state found parsed
      | ok result =>
          simp only [parsed] at failed
          cases result with
          | none => cases failed
          | some request =>
              have empty : { next with requests := next.requests + 1 }.bodyBytesNum = 0 := by
                cases read
                exact noBody
              obtain ⟨taken, took⟩ := takeRequest_ok cfg empty request
              simp only [took] at failed
              cases failed

private theorem startCgi_error (checked : h.Checked) (forks : os.Forks) {request : Request}
    (failed : startCgi cfg os h request = .error fault) :
    buildCgiParam cfg.cgiScripts request h.peer.addres = .error fault := by
  unfold startCgi at failed
  cases made : buildCgiParam cfg.cgiScripts request h.peer.addres with
  | error other =>
      rw [made] at failed
      cases failed
      rfl
  | ok param =>
      have body : ∃ body, cgiBody { h.task with state := .processingCgi } request = .ok body := by
        unfold cgiBody
        split
        · next posted =>
            split
            · next absent => exact absurd absent (checked.allocated posted.2)
            · exact ⟨_, rfl⟩
        · exact ⟨_, rfl⟩
      obtain ⟨body, bodied⟩ := body
      obtain ⟨stdin, stdout, fork⟩ := forks
      obtain ⟨stdinPipe, hasStdin⟩ := Option.ne_none_iff_exists'.mp stdin
      obtain ⟨stdoutPipe, hasStdout⟩ := Option.ne_none_iff_exists'.mp stdout
      simp only [made, bodied, startCgiScript, checked.vacant, hasStdin, hasStdout, fork, if_true,
        ok_bind] at failed
      cases failed

private theorem checkCgiState_error (checked : h.Checked) (state : h.task.state = .checkCgi)
    (forks : os.Forks) (failed : checkCgiState cfg os h = .error fault) :
    PassFails cfg os h fault := by
  obtain ⟨cell, live, _⟩ := checked.own (by simp [state])
  have ready := checked.inv.task.ready
  simp only [HttpTask.Ready, state] at ready
  simp only [checkCgiState, live, Ptr.deref] at failed
  split at failed
  · next cgi => exact .param state live cgi (startCgi_error checked forks failed)
  next notCgi =>
  have static : isCgi cell.request.httpUri = false := by simpa using notCgi
  unfold checkStatic at failed
  split at failed
  swap
  · cases failed
  next method =>
  have room := emptyRoom ready.2 checked.inv.task.response
  cases made : makeFullPath cfg.wwwDir cell.request with
  | error other =>
      rw [generateGetHeader, made] at failed
      cases failed
      exact .path state live static method made
  | ok result =>
      obtain ⟨path, changed⟩ := result
      rcases generateGetHeader_eq os h.task.lastRequest room made with
        ⟨_, same⟩ | ⟨other, present, undescribed, same⟩ | ⟨_, _, _, next, _, unopened, opened⟩
      · rw [same] at failed
        cases failed
      · rw [same] at failed
        cases failed
        exact .undescribed state live static method made present undescribed
      · cases found : os.fopen (loweredPath path) with
        | none =>
            rw [unopened found] at failed
            cases failed
        | some file =>
            rw [opened file found] at failed
            cases failed

theorem httpPass_error (forks : os.Forks) (checked : h.Checked) (more : h.task.state ≠ .finished)
    (failed : httpPass cfg os h = .error fault) : PassFails cfg os h fault := by
  have inv := checked.inv
  unfold httpPass at failed
  cases state : h.task.state with
  | recvHeader =>
      simp only [state] at failed
      exact recvHeaderState_error inv state failed
  | recvBody =>
      obtain ⟨pass, ran⟩ := recvBody_ok inv state
      simp only [state, ran] at failed
      cases failed
  | generateHeader =>
      obtain ⟨next, generated, _⟩ := inv.nonbodyResponse state
      simp only [state, generateHeaderState, generated] at failed
      cases failed
  | sendHeader =>
      have fields := checked.fields
      simp only [HttpTask.FieldsValid, state] at fields
      have answered : Answered h.task := by
        rcases fields with ⟨method, _⟩ | error
        · exact .inr method
        · exact .inl error
      obtain ⟨ret, sent, next, _, ran⟩ :=
        sendHeaderState_sent inv.task.response inv.sending answered
      simp only [state, ran] at failed
      cases failed
  | checkCgi =>
      simp only [state] at failed
      exact checkCgiState_error checked state forks failed
  | sendBody =>
      have fields := checked.fields
      simp only [HttpTask.FieldsValid, state] at fields
      obtain ⟨get, file, opened⟩ := fields
      obtain ⟨status, fp, next, streamed, _⟩ := streamFileContent_streamed inv.sending opened
      simp only [state] at failed
      rw [sendBodyState, if_neg (by simp [get]), streamed] at failed
      cases status <;> cases failed
  | finished => exact absurd state more
  | processingCgi => exact absurd state checked.busy

theorem PassFails.error (inv : h.Inv) (fails : PassFails cfg os h fault) :
    httpPass cfg os h = .error fault := by
  cases fails with
  | header state found failed =>
      obtain ⟨text, status, next, left, scanning, fresh, ran, read⟩ := inv.headerRead state
      rw [read.block scanning] at found
      cases status with
      | emptyRecvBuf => cases found
      | parserBufOverflow => cases found
      | ready =>
          cases found
          simp only [httpPass, state, recvHeaderState, if_neg fresh, ran, failed]
  | param state live cgi failed =>
      simp only [httpPass, state, checkCgiState, live, Ptr.deref, cgi, if_true, startCgi, failed]
      rfl
  | path state live static method failed =>
      simp only [httpPass, state, checkCgiState, live, Ptr.deref, static, Bool.false_eq_true,
        if_false, checkStatic, if_pos method, generateGetHeader, failed]
      rfl
  | @undescribed cell path changed _ state live static method made present failed =>
      have ready := inv.task.ready
      simp only [HttpTask.Ready, state] at ready
      have room := emptyRoom ready.2 inv.task.response
      have stops : generateGetHeader cfg os h.task cell.request h.task.lastRequest = .error fault := by
        rcases generateGetHeader_eq os h.task.lastRequest room made with
          ⟨absent, _⟩ | ⟨other, _, undescribed, same⟩ | ⟨_, _, described, _⟩
        · rw [present] at absent
          cases absent
        · cases undescribed.symm.trans failed
          exact same
        · cases described.symm.trans failed
      simp only [httpPass, state, checkCgiState, live, Ptr.deref, static, Bool.false_eq_true,
        if_false, checkStatic, if_pos method, stops]
      rfl

end Fails

end Passes

/-- The handlings that the passes of one call go through. -/
inductive Reaches (cfg : Config) (os : Os) : Handling → Handling → Prop
  | here {h : Handling} : Reaches cfg os h h
  | onward {h middle last : Handling} (more : h.task.state ≠ .finished)
      (pass : httpPass cfg os h = .ok (.again middle)) (later : Reaches cfg os middle last) :
      Reaches cfg os h last

section Loop

variable {cfg : Config} {os : Os} {h last : Handling} {fault : Fault}

theorem Reaches.checked (reaches : Reaches cfg os h last) (checked : h.Checked) :
    last.Checked := by
  induction reaches with
  | here => exact checked
  | onward more pass later ih => exact ih ((httpPass_cases checked.inv pass).checked checked)

theorem finishRequest_ok (checked : h.Checked) (state : h.task.state = .finished) :
    ∃ result, finishRequest h = .ok result := by
  obtain ⟨cell, live, _⟩ := checked.own (by simp [state])
  simp only [finishRequest, freeRequest, live]
  exact ⟨_, rfl⟩

theorem httpLoop_error (forks : os.Forks) {fuel : Nat} (checked : h.Checked)
    (ran : httpLoop cfg os fuel h = some (.error fault)) :
    ∃ last, Reaches cfg os h last ∧ PassFails cfg os last fault := by
  induction fuel generalizing h with
  | zero => cases ran
  | succ fuel ih =>
      rw [httpLoop] at ran
      split at ran
      · next state =>
          obtain ⟨result, done⟩ := finishRequest_ok checked state
          rw [done] at ran
          cases ran
      · next more =>
          cases passed : httpPass cfg os h with
          | error other =>
              simp only [passed] at ran
              cases ran
              exact ⟨h, .here, httpPass_error forks checked more passed⟩
          | ok pass =>
              simp only [passed] at ran
              cases pass with
              | returns code next => cases ran
              | again next =>
                  obtain ⟨last, reaches, fails⟩ :=
                    ih ((httpPass_cases checked.inv passed).checked checked) ran
                  exact ⟨last, .onward more passed reaches, fails⟩

end Loop

section Session

variable {cfg : Config} {s t : Session} {task : HttpTask} {event : PeerEvent}

def Session.Allocated (s : Session) : Prop :=
  ∀ task, s.peer.httpTask = .live task → task.Allocated

private theorem httpLoop_allocated {os : Os} {fuel : Nat} {h next : Handling} {code : Code}
    (inv : h.Inv) (allocated : h.task.Allocated)
    (ran : httpLoop cfg os fuel h = some (.ok (code, next))) : next.task.Allocated := by
  refine httpLoop_rule (P := fun h => h.task.Allocated) (Q := fun _ next => next.task.Allocated)
    ?_ ?_ ?_ inv allocated ran
  · exact fun h next valid allocated result => result.allocated valid allocated
  · exact fun h code next valid allocated result => result.allocated valid allocated
  · intro h code next valid allocated finished done
    rcases finishRequest_cases done with ⟨rfl, ⟨_, rfl⟩ | ⟨_, _, rfl⟩⟩
    · exact fun some => absurd some (Nat.lt_irrefl 0)
    · exact fun some => absurd some (Nat.lt_irrefl 0)

theorem StepCases.allocated (inv : s.peer.Inv task) (allocated : task.Allocated)
    (step : StepCases cfg s task event t) : t.Allocated := by
  have live := inv.live
  have keeps {peer : Peer} (same : peer.httpTask = s.peer.httpTask) (after : HttpTask)
      (isLive : peer.httpTask = .live after) : after.Allocated := by
    cases isLive.symm.trans (same.trans live)
    exact allocated
  cases step with
  | deliver got => exact keeps got.httpTask
  | recv got => exact keeps got.httpTask
  | @call os code h called effect valid =>
      have after : h.task.Allocated := by
        rcases handleHttp_cases live called with ⟨_, _, _, unchanged⟩ | ⟨_, last, _, shape, ran⟩
        · have same := congrArg Peer.httpTask unchanged
          exact keeps same h.task rfl
        · have same := congrArg Peer.httpTask shape
          simp only [Ptr.live.injEq] at same
          rw [same]
          exact httpLoop_allocated ⟨inv.valid, inv.sending, inv.receiving⟩ allocated ran
      cases code <;>
        · rintro _ ⟨⟩
          exact after
  | send sent => cases sent <;> exact keeps rfl
  | toCgi child sent => cases sent <;> exact keeps rfl
  | fromCgi child piped =>
      cases piped with
      | full => exact keeps rfl
      | failed => exact keeps rfl
      | ended isLive =>
          rintro _ ⟨⟩
          cases isLive.symm.trans live
          exact allocated
      | piped taken puts =>
          obtain ⟨sendingBuffer, rfl⟩ := puts.frame
          exact keeps rfl
  | noChild => exact keeps rfl
  | others => exact keeps rfl

theorem sessionRun_allocated {events : List PeerEvent} (inv : s.Inv) (allocated : s.Allocated)
    (ran : sessionRun cfg events s = .ok t) : t.Allocated :=
  sessionRun_keeps (fun _ valid kept _ step => step.allocated valid (kept _ valid.live)) inv
    allocated (fun _ _ => trivial) ran

theorem sessionRun_owns {conn : Nat} {events : List PeerEvent} (inv : s.Inv) (owns : s.Owns conn)
    (own : ∀ event ∈ events, event.own = true) (ran : sessionRun cfg events s = .ok t) :
    t.Owns conn :=
  sessionRun_keeps (fun isOpen valid kept permitted step => step.owns permitted isOpen valid kept)
    inv owns own ran

theorem freshSession_owns (request : Ptr RequestCell) (slot : Peer) (newClientSock : Nat)
    (clientAddr : Address) (conn : Nat) :
    (freshSession request slot newClientSock clientAddr conn).Owns conn where
  number := rfl
  own := by
    rintro _ _ ⟨⟩ other
    exact absurd rfl other

theorem Session.checked (inv : s.peer.Inv task) (ordered : Ordered s) {conn : Nat}
    (owns : s.Owns conn) (isOpen : s.closed = false) (allocated : s.Allocated)
    (idle : task.state ≠ .processingCgi) : Handling.Checked ⟨s.request, task, s.peer⟩ := by
  have vacant : s.peer.cgiExecutor = .null := by
    obtain ⟨same, isSame, link⟩ := ordered.linked
    cases isSame.symm.trans inv.live
    by_contra running
    exact idle (link.mp running)
  have fields : task.FieldsValid := by
    have resting := inv.resting
    have ready := inv.valid.ready
    unfold HttpTask.Resting at resting
    unfold HttpTask.Ready at ready
    unfold HttpTask.FieldsValid
    cases state : task.state with
    | sendBody =>
        simp only [state] at ready ⊢
        obtain ⟨get, file, opened, _⟩ := ready
        exact ⟨get, file, opened⟩
    | generateHeader =>
        rw [state] at resting
        exact resting.elim
    | sendHeader =>
        rw [state] at resting
        exact resting.elim
    | recvHeader => trivial
    | recvBody => trivial
    | checkCgi => trivial
    | finished => trivial
    | processingCgi => trivial
  refine ⟨⟨inv.valid, inv.sending, inv.receiving⟩, ?_, allocated task inv.live, vacant, fields, idle⟩
  have own := owns.own isOpen task inv.live
  rwa [← owns.number] at own

end Session

theorem handleHttp_error {cfg : Config} {os : Os} {request : Ptr RequestCell} {task : HttpTask}
    {peer : Peer} {fault : Fault} (inv : peer.Inv task)
    (checked : task.state ≠ .processingCgi → Handling.Checked ⟨request, task, peer⟩)
    (forks : os.Forks) (failed : handleHttp cfg os request peer = .error fault) :
    ∃ last, Reaches cfg os ⟨request, task, peer⟩ last ∧ PassFails cfg os last fault := by
  unfold handleHttp at failed
  simp only [inv.live] at failed
  split at failed
  · cases failed
  · next idle =>
      have start := checked idle
      cases ends : httpLoop cfg os 7 ⟨request, task, peer⟩ with
      | none =>
          have enough : task.state.rank < 7 := by cases task.state <;> decide
          exact absurd ends (httpLoop_ends start.inv enough)
      | some result =>
          cases result with
          | ok result =>
              simp only [ends] at failed
              cases failed
          | error other =>
              simp only [ends] at failed
              cases failed
              exact httpLoop_error forks start ends

end Liso
