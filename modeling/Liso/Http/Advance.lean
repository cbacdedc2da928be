import Mathlib.Data.Prod.Lex
import Liso.Http.Effect

/-! How far a call of `handle_http` brings a request: what it takes out of the receiving buffer,
what it leaves of a file, and where it stops. -/

namespace Liso

namespace HttpTask

def stage (task : HttpTask) : Nat :=
  match task.state with
  | .recvHeader => 0
  | .recvBody => 0
  | .processingCgi => 2
  | _ => 1

theorem stage_zero {task : HttpTask} (stage : task.stage = 0) :
    task.state = .recvHeader ∨ task.state = .recvBody := by
  cases state : task.state <;> simp_all [HttpTask.stage]

theorem stage_one {task : HttpTask} (later : task.stage ≠ 0) (idle : task.state ≠ .processingCgi) :
    task.stage = 1 := by
  cases state : task.state <;> simp_all [HttpTask.stage]

theorem stage_running {task : HttpTask} (running : task.state = .processingCgi) :
    task.stage = 2 := by
  simp only [HttpTask.stage, running]

def fileLeft (task : HttpTask) : Nat :=
  match task.state, task.fp with
  | .sendBody, .live file => file.rest.length
  | _, _ => 0

theorem fileLeft_live {task : HttpTask} {file : File} (state : task.state = .sendBody)
    (opened : task.fp = .live file) : task.fileLeft = file.rest.length := by
  simp only [fileLeft, state, opened]

def pace (task : HttpTask) : ℕ ×ₗ ℕ := toLex (task.stage, task.fileLeft)

theorem pace_lt_of_stage {task next : HttpTask} (earlier : next.stage < task.stage) :
    next.pace < task.pace := Prod.Lex.toLex_lt_toLex.mpr (.inl earlier)

end HttpTask

/-- Where a call leaves a connection: bytes stay in the receiving buffer only behind a request that
is complete, and a file waits only for room in the sending buffer. -/
structure Parked (task : HttpTask) (peer : Peer) : Prop where
  reading : peer.receivingBuffer.content ≠ [] →
    task.state = .recvHeader ∧ task.parseBufIdx = 0 ∨ task.state = .sendBody ∨
      task.state = .processingCgi
  streaming : task.state = .sendBody → peer.sendingBuffer.content.length = bufDataMaxsize

section Passes

variable {cfg : Config} {os : Os} {h next : Handling} {pass : Pass}

private theorem block_longer {task : HttpTask} {text block left content : Bytes}
    (scanning : Scanning task text) (whole : text ++ content = block ++ left)
    (cut : ∀ rest, Matcher.cutAfter terminator (block ++ rest) = some (block, rest)) :
    left.length < content.length := by
  by_contra longer
  have lengths := congrArg List.length whole
  rw [List.length_append, List.length_append] at lengths
  have short : block.length ≤ text.length := by omega
  have inside : block <+: text :=
    List.prefix_of_prefix_length_le ⟨left, whole.symm⟩ ⟨content, rfl⟩ short
  exact scanning.clear block inside (Matcher.cutAfter_some block [] (cut [])).2

theorem PassCases.content_le (result : PassCases cfg os h pass) :
    pass.handling.peer.receivingBuffer.content.length ≤
      h.peer.receivingBuffer.content.length := by
  have same {peer next : Peer} {bytes : List OutByte} (puts : Puts peer bytes next) :
      next.receivingBuffer = peer.receivingBuffer := by
    obtain ⟨sendingBuffer, rfl⟩ := puts.frame
    rfl
  have streamed {file : File} {status : StreamStatus} {fp : Ptr File} {peer next : Peer}
      (streamed : FileStreamed file peer (status, fp, next)) :
      next.receivingBuffer = peer.receivingBuffer := by
    obtain ⟨_, put, events, puts, _, _, shape⟩ := streamed.puts
    have kept : put.receivingBuffer = peer.receivingBuffer := same puts
    exact (congrArg Peer.receivingBuffer shape).trans kept
  cases result with
  | headerShort state scanning read =>
      cases read with
      | emptyRecvBuf now inv empty => simp [Pass.handling, Handling.receive, empty]
  | headerLong state scanning read =>
      cases read with
      | parserBufOverflow whole clear full inv =>
          have lengths := congrArg List.length whole
          have short := scanning.short
          rw [List.length_append, List.length_append] at lengths
          simp only [Pass.handling, Handling.receive]
          omega
  | headerBad state scanning read =>
      cases read with
      | ready size read whole cut short inv => exact Nat.le_of_lt (block_longer scanning whole cut)
  | headerGood state scanning read =>
      cases read with
      | ready size read whole cut short inv => exact Nat.le_of_lt (block_longer scanning whole cut)
  | bodyShort state part read =>
      cases read with
      | short now missing inv empty => simp [Pass.handling, Handling.receive, empty]
  | bodyWhole state part read =>
      cases read with
      | whole now full split inv =>
          have lengths := congrArg List.length split
          have within := part.within
          rw [List.length_append, List.length_append] at lengths
          simp only [Pass.handling, Handling.receive, Peer.record]
          omega
  | generated state written => exact Nat.le_refl _
  | headSent state sent =>
      obtain ⟨front, puts, _⟩ := sent.puts
      exact Nat.le_of_eq (congrArg (·.content.length) (same puts))
  | cgiStarted state live cgi started =>
      obtain ⟨_, ⟨executor, _, _, rfl⟩, _⟩ := started
      exact Nat.le_refl _
  | staticHead => exact Nat.le_refl _
  | staticPost => exact Nat.le_refl _
  | fileWaits state opened through =>
      exact Nat.le_of_eq (congrArg (·.content.length) (streamed through))
  | fileFails state opened through =>
      exact Nat.le_of_eq (congrArg (·.content.length) (streamed through))
  | fileDone state opened through =>
      exact Nat.le_of_eq (congrArg (·.content.length) (streamed through))

private theorem PassCases.content_lt (result : PassCases cfg os h pass)
    (reading : h.task.state = .recvHeader ∨ h.task.state = .recvBody) (resting : h.task.Resting)
    (waiting : h.peer.receivingBuffer.content ≠ [])
    (stays : ∀ next, pass ≠ .returns .closeConnImmediately next) :
    pass.handling.peer.receivingBuffer.content.length <
      h.peer.receivingBuffer.content.length := by
  have some := List.length_pos_iff.mpr waiting
  cases result with
  | headerShort state scanning read =>
      cases read with
      | emptyRecvBuf now inv empty => simpa [Pass.handling, Handling.receive, empty] using some
  | headerLong => exact absurd rfl (stays _)
  | headerBad => exact absurd rfl (stays _)
  | headerGood state scanning read =>
      cases read with
      | ready size read whole cut short inv => exact block_longer scanning whole cut
  | bodyShort state part read =>
      cases read with
      | short now missing inv empty => simpa [Pass.handling, Handling.receive, empty] using some
  | bodyWhole state part read =>
      simp only [HttpTask.Resting, state] at resting
      cases read with
      | whole now full split inv =>
          have lengths := congrArg List.length split
          have index := part.index
          rw [List.length_append, List.length_append] at lengths
          simp only [Pass.handling, Handling.receive, Peer.record]
          omega
  | generated state => simp [state] at reading
  | headSent state => simp [state] at reading
  | cgiStarted state => simp [state] at reading
  | staticHead state => simp [state] at reading
  | staticPost state => simp [state] at reading
  | fileWaits state => simp [state] at reading
  | fileFails state => simp [state] at reading
  | fileDone state => simp [state] at reading

private theorem PassCases.parked {code : Code}
    (result : PassCases cfg os h (.returns code next)) (stays : code ≠ .closeConnImmediately) :
    Parked next.task next.peer := by
  cases result with
  | headerShort state scanning read =>
      cases read with
      | emptyRecvBuf now inv empty =>
          exact ⟨fun waiting => absurd empty waiting, fun sends => absurd (state.symm.trans sends) nofun⟩
  | headerLong => exact absurd rfl stays
  | headerBad => exact absurd rfl stays
  | bodyShort state part read =>
      cases read with
      | short now missing inv empty =>
          exact ⟨fun waiting => absurd empty waiting, fun sends => absurd (state.symm.trans sends) nofun⟩
  | cgiStarted state live cgi started => exact ⟨fun _ => .inr (.inr rfl), nofun⟩
  | fileWaits state opened streamed =>
      cases streamed with
      | notDone split puts full => exact ⟨fun _ => .inr (.inl state), fun _ => full⟩
  | fileFails => exact absurd rfl stays

end Passes

structure Advances (task : HttpTask) (peer : Peer) (next : HttpTask) (left : Peer) : Prop where
  content : left.receivingBuffer.content.length ≤ peer.receivingBuffer.content.length
  reads : task.stage = 0 → peer.receivingBuffer.content ≠ [] →
    left.receivingBuffer.content.length < peer.receivingBuffer.content.length
  waits : task.stage ≠ 0 → next.pace ≤ task.pace
  answers : task.stage = 1 →
    (task.state = .sendBody → peer.sendingBuffer.content.length < bufDataMaxsize) →
      next.pace < task.pace
  parked : Parked next left

section Loop

variable {cfg : Config} {os : Os} {h next : Handling} {code : Code}

private theorem finishRequest_parked (done : finishRequest h = .ok (code, next)) :
    next.task.state = .recvHeader ∧ next.peer.receivingBuffer = h.peer.receivingBuffer ∧
      Parked next.task next.peer := by
  rcases finishRequest_cases done with ⟨_, ⟨_, rfl⟩ | ⟨_, _, rfl⟩⟩
  · exact ⟨rfl, rfl, fun _ => .inl ⟨rfl, rfl⟩, nofun⟩
  · exact ⟨rfl, rfl, fun _ => .inl ⟨rfl, rfl⟩, nofun⟩

private theorem httpLoop_parked {fuel : Nat} (inv : h.Inv)
    (ran : httpLoop cfg os fuel h = some (.ok (code, next))) (stays : code ≠ .closeConnImmediately) :
    next.peer.receivingBuffer.content.length ≤ h.peer.receivingBuffer.content.length ∧
      Parked next.task next.peer := by
  revert stays
  refine httpLoop_rule
    (P := fun middle =>
      middle.peer.receivingBuffer.content.length ≤ h.peer.receivingBuffer.content.length)
    (Q := fun code next => code ≠ .closeConnImmediately →
      next.peer.receivingBuffer.content.length ≤ h.peer.receivingBuffer.content.length ∧
      Parked next.task next.peer) ?_ ?_ ?_ inv (Nat.le_refl _) ran
  · exact fun middle next valid content result => result.content_le.trans content
  · exact fun middle code next valid content result stays =>
      ⟨result.content_le.trans content, result.parked stays⟩
  · intro middle code next valid content finished ends _
    obtain ⟨_, buffer, parked⟩ := finishRequest_parked ends
    rw [buffer]
    exact ⟨content, parked⟩

private theorem httpLoop_first {fuel : Nat} (inv : h.Inv) (more : h.task.state ≠ .finished)
    (ran : httpLoop cfg os (fuel + 1) h = some (.ok (code, next))) :
    PassCases cfg os h (.returns code next) ∨
      ∃ middle, PassCases cfg os h (.again middle) ∧
        httpLoop cfg os fuel middle = some (.ok (code, next)) := by
  rw [httpLoop, if_neg more] at ran
  cases passed : httpPass cfg os h with
  | error fault =>
      simp only [passed] at ran
      cases ran
  | ok pass =>
      have result := httpPass_cases inv passed
      simp only [passed] at ran
      cases pass with
      | returns code stopped =>
          cases ran
          exact .inl result
      | again middle => exact .inr ⟨middle, result, ran⟩

private theorem httpLoop_reads {fuel : Nat} (inv : h.Inv) (resting : h.task.Resting)
    (reading : h.task.state = .recvHeader ∨ h.task.state = .recvBody)
    (waiting : h.peer.receivingBuffer.content ≠ [])
    (ran : httpLoop cfg os (fuel + 1) h = some (.ok (code, next)))
    (stays : code ≠ .closeConnImmediately) :
    next.peer.receivingBuffer.content.length < h.peer.receivingBuffer.content.length := by
  have more : h.task.state ≠ .finished := by rcases reading with state | state <;> simp [state]
  rcases httpLoop_first inv more ran with result | ⟨middle, result, later⟩
  · refine result.content_lt reading resting waiting fun other same => ?_
    cases same
    exact stays rfl
  · have first := result.content_lt reading resting waiting fun _ => Pass.noConfusion
    exact Nat.lt_of_le_of_lt (httpLoop_parked (result.valid inv) later stays).1 first

private theorem FileStreamed.left {file : File} {peer put : Peer} {fp : Ptr File} {task : HttpTask}
    (state : task.state = .sendBody) (streamed : FileStreamed file peer (.notDone, fp, put)) :
    ({ task with fp } : HttpTask).fileLeft ≤ file.rest.length ∧
      (peer.sendingBuffer.content.length < bufDataMaxsize →
        ({ task with fp } : HttpTask).fileLeft < file.rest.length) := by
  cases streamed with
  | @notDone front rest _ split puts full =>
      have lengths := congrArg List.length split
      have filled := congrArg List.length puts.content
      rw [List.length_append] at lengths
      rw [List.length_append, List.length_map, full] at filled
      have left : ({ task with fp := .live { file with rest } } : HttpTask).fileLeft =
          rest.length := by simp only [HttpTask.fileLeft, state]
      rw [left]
      omega

private theorem httpLoop_answers {fuel : Nat} (inv : h.Inv)
    (answering : h.task.state = .sendBody ∨ h.task.state = .finished)
    (ran : httpLoop cfg os (fuel + 2) h = some (.ok (code, next)))
    (stays : code ≠ .closeConnImmediately) :
    next.task.state = .recvHeader ∨ next.task.state = .sendBody ∧ h.task.state = .sendBody ∧
      next.task.fileLeft ≤ h.task.fileLeft ∧
      (h.peer.sendingBuffer.content.length < bufDataMaxsize →
        next.task.fileLeft < h.task.fileLeft) := by
  have ends {fuel : Nat} {h : Handling} (finished : h.task.state = .finished)
      (ran : httpLoop cfg os (fuel + 1) h = some (.ok (code, next))) :
      next.task.state = .recvHeader := by
    rw [httpLoop, if_pos finished] at ran
    exact (finishRequest_parked (Option.some.inj ran)).1
  rcases answering with state | finished
  · rcases httpLoop_first inv (by simp [state]) ran with result | ⟨middle, result, later⟩
    · cases result with
      | headerShort other => cases state.symm.trans other
      | headerLong other => cases state.symm.trans other
      | headerBad other => cases state.symm.trans other
      | bodyShort other => cases state.symm.trans other
      | cgiStarted other => cases state.symm.trans other
      | fileFails => exact absurd rfl stays
      | fileWaits _ opened streamed =>
          have left := streamed.left state
          rw [HttpTask.fileLeft_live state opened]
          exact .inr ⟨state, state, left⟩
    · cases result with
      | headerGood other => cases state.symm.trans other
      | bodyWhole other => cases state.symm.trans other
      | generated other => cases state.symm.trans other
      | headSent other => cases state.symm.trans other
      | staticHead other => cases state.symm.trans other
      | staticPost other => cases state.symm.trans other
      | fileDone => exact .inl (ends rfl later)
  · exact .inl (ends finished ran)

end Loop

theorem HttpTask.Resting.answering {task : HttpTask} (resting : task.Resting)
    (stage : task.stage = 1) : task.state = .sendBody ∨ task.state = .finished := by
  cases state : task.state <;> simp_all [HttpTask.Resting, HttpTask.stage]

theorem handleHttp_advances {cfg : Config} {os : Os} {request after : Ptr RequestCell}
    {peer left : Peer} {task : HttpTask} {code : Code} (inv : peer.Inv task)
    (called : handleHttp cfg os request peer = .ok (code, after, left))
    (stays : code ≠ .closeConnImmediately) :
    ∃ next, left.httpTask = .live next ∧ Advances task peer next left := by
  have resting := inv.resting
  rcases handleHttp_cases inv.live called with
    ⟨waiting, rfl, rfl, rfl⟩ | ⟨notWaiting, h, rfl, rfl, ran⟩
  · have stage := HttpTask.stage_running waiting
    refine ⟨task, inv.live, Nat.le_refl _, ?_, fun _ => le_refl _, ?_, ?_, ?_⟩
    · simp [stage]
    · simp [stage]
    · exact fun _ => .inr (.inr waiting)
    · simp [waiting]
  · have valid : Handling.Inv ⟨request, task, peer⟩ := ⟨inv.valid, inv.sending, inv.receiving⟩
    obtain ⟨content, parked⟩ := httpLoop_parked valid ran stays
    have answers (stage : task.stage = 1) : h.task.pace ≤ task.pace ∧
        ((task.state = .sendBody → peer.sendingBuffer.content.length < bufDataMaxsize) →
          h.task.pace < task.pace) := by
      rcases httpLoop_answers valid (resting.answering stage) ran stays with
        header | ⟨sends, same, left, shrinks⟩
      · have start : h.task.stage = 0 := by simp only [HttpTask.stage, header]
        have earlier : h.task.stage < task.stage := by omega
        have falls := HttpTask.pace_lt_of_stage earlier
        exact ⟨falls.le, fun _ => falls⟩
      · have level : h.task.stage = task.stage := by
          rw [stage]
          simp only [HttpTask.stage, sends]
        exact ⟨Prod.Lex.toLex_le_toLex.mpr (.inr ⟨level, left⟩), fun room =>
          Prod.Lex.toLex_lt_toLex.mpr (.inr ⟨level, shrinks (room same)⟩)⟩
    refine ⟨h.task, rfl, content, fun reading waiting => ?_, fun later => ?_,
      fun stage => (answers stage).2, parked.reading, parked.streaming⟩
    · exact httpLoop_reads valid resting (HttpTask.stage_zero reading) waiting ran stays
    · exact (answers (HttpTask.stage_one later notWaiting)).1

def Numbered (task : HttpTask) (trace : List Event) : Prop :=
  (Trace.framed trace).length + (if task.state = .recvBody then 1 else 0) = task.requests

section Numbered

variable {cfg : Config} {os : Os} {h next : Handling} {pass : Pass} {task last : HttpTask}
  {trace after : List Event}

theorem Numbered.keeps (numbered : Numbered task trace)
    (same : Trace.framed after = Trace.framed trace) (requests : last.requests = task.requests)
    (body : last.state = .recvBody ↔ task.state = .recvBody) : Numbered last after := by
  rw [Numbered, same, requests, if_congr body rfl rfl]
  exact numbered

theorem Numbered.takes (pair : Bytes × Option Bytes) (numbered : Numbered task trace)
    (state : task.state = .recvHeader) (requests : last.requests = task.requests + 1)
    (framed : Trace.framed after =
      Trace.framed trace ++ if last.state = .recvBody then [] else [pair]) :
    Numbered last after := by
  rw [Numbered, state, if_neg (by decide)] at numbered
  rw [Numbered, framed, requests, List.length_append, ← numbered]
  split <;> simp

theorem Numbered.completes {pair : Bytes × Option Bytes} (numbered : Numbered task trace)
    (state : task.state = .recvBody) (requests : last.requests = task.requests)
    (later : last.state ≠ .recvBody)
    (framed : Trace.framed after = Trace.framed trace ++ [pair]) : Numbered last after := by
  rw [Numbered, if_pos state] at numbered
  rw [Numbered, framed, requests, List.length_append, ← numbered, if_neg later]
  rfl

private theorem Puts.framed {peer put : Peer} {bytes : List OutByte} (puts : Puts peer bytes put) :
    Trace.framed put.trace = Trace.framed peer.trace := by
  obtain ⟨sendingBuffer, rfl⟩ := puts.frame
  rw [Trace.framed_append, Trace.framed_map_put, List.append_nil]

private theorem FileStreamed.framed {file : File} {status : StreamStatus} {fp : Ptr File}
    {peer put : Peer} (streamed : FileStreamed file peer (status, fp, put)) :
    Trace.framed put.trace = Trace.framed peer.trace := by
  obtain ⟨_, middle, events, puts, _, quiet, shape⟩ := streamed.puts
  have none : Trace.framed events = [] := by rcases quiet with rfl | rfl <;> rfl
  simp only at shape
  rw [shape, Peer.record, Trace.framed_append, none, List.append_nil, puts.framed]

theorem PassCases.numbered (numbered : Numbered h.task h.peer.trace)
    (result : PassCases cfg os h pass) :
    Numbered pass.handling.task pass.handling.peer.trace := by
  cases result with
  | headerShort state scanning read =>
      cases read
      exact numbered.keeps rfl rfl Iff.rfl
  | headerLong state scanning read =>
      cases read
      exact numbered.keeps rfl rfl Iff.rfl
  | @headerBad text block next left state scanning read =>
      cases read
      refine numbered.takes (block, none) state rfl ?_
      simp only [Pass.handling, Peer.record, Handling.receive, Trace.framed_append, state]
      rfl
  | @headerGood text block next taken left request state scanning read whole good took =>
      have requests := took.requests
      cases read
      refine numbered.takes (block, none) state requests ?_
      simp only [Pass.handling, Peer.record, Handling.receive, Trace.framed_append]
      by_cases body : taken.state = .recvBody <;>
        simp [body, Trace.framed, Event.framedRequest, List.filterMap_cons]
  | bodyShort state part read =>
      cases read
      exact numbered.keeps rfl rfl Iff.rfl
  | bodyWhole state part read =>
      cases read
      exact numbered.completes state rfl (by simp [Pass.handling]) (Trace.framed_append _ _)
  | generated state written =>
      obtain ⟨responseBuf, rfl⟩ := written.frame
      exact numbered.keeps rfl rfl (by simp [Pass.handling, state])
  | @headSent _ sent _ state result =>
      have leaves : afterHead sent ≠ .recvBody := by
        rcases afterHead_cases sent with same | same <;> simp [same]
      obtain ⟨_, puts, _⟩ := result.puts
      obtain ⟨responseBuf, same, _⟩ := result.left
      have requests := congrArg HttpTask.requests same
      exact numbered.keeps puts.framed requests ⟨fun body => absurd body leaves, fun body =>
        absurd (state.symm.trans body) (by decide)⟩
  | cgiStarted state live cgi started =>
      obtain ⟨executor, _, _, rfl⟩ := started.started
      refine numbered.keeps ?_ rfl (by simp [Pass.handling, state])
      simp only [Pass.handling, Peer.record, Trace.framed_append]
      exact List.append_nil _
  | staticHead state live static method found =>
      cases found with
      | missing path absent =>
          refine numbered.keeps ?_ rfl ?_
          · simp [Pass.handling, Peer.record]
          · simp [Pass.handling, state, notFoundNum, okNum]
      | unopened path present written =>
          obtain ⟨responseBuf, rfl⟩ := written.frame
          refine numbered.keeps ?_ rfl ?_
          · simp [Pass.handling, Peer.record]
          · simp [Pass.handling, state, internalServerErrorNum, okNum]
      | opened path present written =>
          obtain ⟨responseBuf, rfl⟩ := written.frame
          refine numbered.keeps ?_ rfl ?_
          · simp [Pass.handling, Peer.record, Trace.framed, Event.framedRequest]
          · simp [Pass.handling, state]
  | staticPost state live static post =>
      exact numbered.keeps rfl rfl (by simp [Pass.handling, state])
  | fileWaits state opened streamed => exact numbered.keeps streamed.framed rfl Iff.rfl
  | fileFails state opened streamed => exact numbered.keeps streamed.framed rfl Iff.rfl
  | fileDone state opened streamed =>
      exact numbered.keeps streamed.framed rfl (by simp [Pass.handling, state])

theorem httpLoop_numbered {fuel : Nat} {code : Code} (inv : h.Inv)
    (numbered : Numbered h.task h.peer.trace)
    (ran : httpLoop cfg os fuel h = some (.ok (code, next))) :
    Numbered next.task next.peer.trace := by
  refine httpLoop_rule (P := fun h => Numbered h.task h.peer.trace)
    (Q := fun _ h => Numbered h.task h.peer.trace) ?_ ?_ ?_ inv numbered ran
  · exact fun _ _ _ numbered result => result.numbered numbered
  · exact fun _ _ _ _ numbered result => result.numbered numbered
  · intro h code next _ numbered finished done
    rcases finishRequest_cases done with ⟨_, ⟨_, rfl⟩ | ⟨_, _, rfl⟩⟩
    · exact numbered.keeps rfl rfl (by simp [resetHttpTask, finished])
    · refine numbered.keeps ?_ rfl (by simp [resetHttpTask, finished])
      exact (Trace.framed_append _ _).trans (List.append_nil _)

end Numbered

end Liso
