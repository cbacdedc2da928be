import Liso.Http.Calls
import Liso.Message.Trace

/-! What a call of `handle_http` leaves in the trace: its own events, request by
request, and at most the start of a child at its end. -/

namespace Liso

structure Moves (h next : Handling) (events : List Event) : Prop where
  trace : next.peer.trace = h.peer.trace ++ events
  content : next.peer.sendingBuffer.content =
    h.peer.sendingBuffer.content ++ Trace.puts events
  sending : next.peer.sendingBuffer.Inv
  receiving : next.peer.receivingBuffer.Inv
  executor : next.peer.cgiExecutor = h.peer.cgiExecutor
  conn : next.peer.conn = h.peer.conn
  socket : next.peer.socket = h.peer.socket
  passes : ∀ event ∈ events, event.ofPass = true
  requests : h.task.requests ≤ next.task.requests
  inOrder : Trace.InOrder h.task.requests next.task.requests events

namespace Moves

variable {h middle next : Handling} {front back : List Event}

theorem refl (sending : h.peer.sendingBuffer.Inv) (receiving : h.peer.receivingBuffer.Inv) :
    Moves h h [] where
  trace := (List.append_nil _).symm
  content := (List.append_nil _).symm
  sending := sending
  receiving := receiving
  executor := rfl
  conn := rfl
  socket := rfl
  passes := nofun
  requests := Nat.le_refl _
  inOrder := .none rfl

theorem trans (first : Moves h middle front) (second : Moves middle next back) :
    Moves h next (front ++ back) where
  trace := by rw [second.trace, first.trace, List.append_assoc]
  content := by rw [second.content, first.content, Trace.puts_append, List.append_assoc]
  sending := second.sending
  receiving := second.receiving
  executor := second.executor.trans first.executor
  conn := second.conn.trans first.conn
  socket := second.socket.trans first.socket
  passes := by
    intro event member
    rcases List.mem_append.mp member with before | after
    · exact first.passes event before
    · exact second.passes event after
  requests := first.requests.trans second.requests
  inOrder := first.inOrder.append second.inOrder first.requests second.requests

theorem make {bytes : List OutByte} {events : List Event} {put : Peer} {left : Cbuf UInt8}
    (puts : Puts h.peer bytes put)
    (shape : next.peer = ({ put with receivingBuffer := left } : Peer).record events)
    (receiving : left.Inv) (silent : Trace.puts events = [])
    (passes : ∀ event ∈ events, event.ofPass = true)
    (tags : ∀ byte ∈ bytes, byte.req = next.task.requests)
    (ordinals : ∀ req ∈ Trace.ordinals events, req = next.task.requests)
    (requests : h.task.requests ≤ next.task.requests) :
    Moves h next (bytes.map .put ++ events) := by
  have content := puts.content
  have sending := puts.inv
  obtain ⟨sendingBuffer, rfl⟩ := puts.frame
  refine ⟨?_, ?_, ?_, ?_, ?_, ?_, ?_, ?_, requests, .single requests ?_⟩
  · rw [shape]
    exact List.append_assoc _ _ _
  · rw [shape, Trace.puts_append, Trace.puts_map_put, silent, List.append_nil]
    exact content
  · rw [shape]
    exact sending
  · rw [shape]
    exact receiving
  · rw [shape]
    rfl
  · rw [shape]
    rfl
  · rw [shape]
    rfl
  · intro event member
    rcases List.mem_append.mp member with before | after
    · obtain ⟨byte, _, rfl⟩ := List.mem_map.mp before
      rfl
    · exact passes event after
  · intro req member
    rw [Trace.ordinals_append, List.mem_append] at member
    rcases member with before | after
    · obtain ⟨event, put, same⟩ := List.mem_filterMap.mp before
      obtain ⟨byte, isByte, rfl⟩ := List.mem_map.mp put
      cases same
      exact tags byte isByte
    · exact ordinals req after

theorem quiet {bytes : List OutByte} {put : Peer} {left : Cbuf UInt8}
    (puts : Puts h.peer bytes put) (shape : next.peer = { put with receivingBuffer := left })
    (receiving : left.Inv) (tags : ∀ byte ∈ bytes, byte.req = next.task.requests)
    (requests : h.task.requests ≤ next.task.requests) :
    Moves h next (bytes.map .put ++ []) := by
  refine .make puts ?_ receiving rfl nofun tags nofun requests
  rw [shape]
  simp [Peer.record]

end Moves

def Pass.handling : Pass → Handling
  | .again h => h
  | .returns _ h => h

private theorem streams_moves {h : Handling} (next : Handling) {file : File} {status : StreamStatus}
    {fp : Ptr File} (inv : h.Inv) (state : h.task.state = .sendBody)
    (opened : h.task.fp = .live file) (same : next.task.requests = h.task.requests)
    (streamed : FileStreamed file h.peer (status, fp, next.peer)) :
    ∃ events, Moves h next events := by
  have req := inv.openedFor state opened
  obtain ⟨bytes, put, events, puts, tags, closing, shape⟩ := streamed.puts
  have recorded : next.peer =
      ({ put with receivingBuffer := h.peer.receivingBuffer } : Peer).record events := by
    obtain ⟨sendingBuffer, rfl⟩ := puts.frame
    exact shape
  refine ⟨_, .make puts recorded inv.receiving ?_ ?_ ?_ ?_ (Nat.le_of_eq same.symm)⟩
  · rcases closing with rfl | rfl <;> rfl
  · rcases closing with rfl | rfl <;> simp [Event.ofPass]
  · intro byte member
    rw [same, tags byte member, req]
  · rcases closing with rfl | rfl <;> simp [Trace.ordinals, Event.ordinal]

theorem PassCases.moves {cfg : Config} {os : Os} {h : Handling} {pass : Pass} (inv : h.Inv)
    (result : PassCases cfg os h pass) :
    (∃ events, Moves h pass.handling events) ∨
      ∃ next, pass = .returns (if h.task.lastRequest then .closeConn else .keepConn)
        ⟨h.request, { h.task with state := .processingCgi }, next⟩ ∧
        CgiStarted h.peer h.task.requests next := by
  have still := Puts.refl inv.sending
  cases result with
  | headerShort state scanning read =>
      cases read with
      | emptyRecvBuf _ left _ => exact .inl ⟨_, .quiet still rfl left nofun (Nat.le_refl _)⟩
  | headerLong state scanning read =>
      cases read with
      | parserBufOverflow _ _ _ left => exact .inl ⟨_, .quiet still rfl left nofun (Nat.le_refl _)⟩
  | headerBad state scanning read whole bad =>
      cases read with
      | ready _ _ _ _ _ left =>
          refine .inl ⟨_, .make still rfl left rfl ?_ nofun ?_ (Nat.le_succ _)⟩
          · simp [Event.ofPass]
          · simp [Trace.ordinals, Event.ordinal, Pass.handling]
  | headerGood state scanning read whole good took =>
      cases read with
      | ready _ _ _ _ _ left =>
          have requests := took.requests
          refine .inl ⟨_, .make still rfl left ?_ ?_ nofun ?_ ?_⟩
          · split <;> rfl
          · split <;> simp [Event.ofPass]
          · intro req member
            split at member <;>
              simpa [Trace.ordinals, Event.ordinal, Pass.handling, requests] using member
          · simp [Pass.handling, requests]
  | bodyShort state part read =>
      cases read with
      | short _ _ left _ => exact .inl ⟨_, .quiet still rfl left nofun (Nat.le_refl _)⟩
  | bodyWhole state part read =>
      cases read with
      | whole _ _ _ left =>
          refine .inl ⟨_, .make still rfl left rfl ?_ nofun ?_ (Nat.le_refl _)⟩
          · simp [Event.ofPass]
          · simp [Trace.ordinals, Event.ordinal]
  | generated state written =>
      obtain ⟨responseBuf, rfl⟩ := written.frame
      exact .inl ⟨_, .quiet still rfl inv.receiving nofun (Nat.le_refl _)⟩
  | headSent state sent =>
      obtain ⟨front, puts, start⟩ := sent.puts
      obtain ⟨responseBuf, rfl, _, _⟩ := sent.left
      refine .inl ⟨_, .quiet puts ?_ inv.receiving ?_ (Nat.le_refl _)⟩
      · obtain ⟨sendingBuffer, rfl⟩ := puts.frame
        rfl
      · exact fun byte member => inv.task.tags byte (start.subset member)
  | cgiStarted state live cgi started => exact .inr ⟨_, rfl, started⟩
  | staticHead state live static method found =>
      cases found with
      | missing path absent =>
          refine .inl ⟨_, .make still rfl inv.receiving rfl nofun nofun nofun (Nat.le_refl _)⟩
      | unopened path present written described noFile =>
          obtain ⟨responseBuf, rfl⟩ := written.frame
          refine .inl ⟨_, .make still rfl inv.receiving rfl nofun nofun nofun (Nat.le_refl _)⟩
      | opened path present written described hasFile =>
          obtain ⟨responseBuf, rfl⟩ := written.frame
          refine .inl ⟨_, .make still rfl inv.receiving rfl ?_ nofun ?_ (Nat.le_refl _)⟩
          · simp [Event.ofPass]
          · simp [Trace.ordinals, Event.ordinal]
  | staticPost state live static post =>
      exact .inl ⟨_, .quiet still rfl inv.receiving nofun (Nat.le_refl _)⟩
  | fileWaits state opened streamed => exact .inl (streams_moves _ inv state opened rfl streamed)
  | fileFails state opened streamed => exact .inl (streams_moves _ inv state opened rfl streamed)
  | fileDone state opened streamed => exact .inl (streams_moves _ inv state opened rfl streamed)

theorem PassCases.moves_again {cfg : Config} {os : Os} {h next : Handling} (inv : h.Inv)
    (result : PassCases cfg os h (.again next)) : ∃ events, Moves h next events := by
  rcases result.moves inv with moves | ⟨_, impossible, _⟩
  · exact moves
  · cases impossible

/-- A call moves, and then it may start a child. -/
inductive CallEffect (h next : Handling) : Prop
  | moved (events : List Event) (moves : Moves h next events)
  | started (events : List Event) (middle : Handling) (moves : Moves h middle events)
      (start : CgiStarted middle.peer middle.task.requests next.peer)
      (task : next.task = { middle.task with state := .processingCgi })

theorem CallEffect.extends {h next : Handling} (effect : CallEffect h next) :
    ∃ events, next.peer.trace = h.peer.trace ++ events := by
  cases effect with
  | moved events moves => exact ⟨events, moves.trace⟩
  | started events middle moves start task =>
      obtain ⟨executor, _, _, same⟩ := start.started
      have whole := congrArg Peer.trace same
      rw [Peer.record, moves.trace, List.append_assoc] at whole
      exact ⟨_, whole⟩

theorem CallEffect.conn {h next : Handling} (effect : CallEffect h next) :
    next.peer.conn = h.peer.conn := by
  cases effect with
  | moved events moves => exact moves.conn
  | started events middle moves start task =>
      obtain ⟨executor, _, _, same⟩ := start.started
      rw [same]
      exact moves.conn

theorem CallEffect.socket {h next : Handling} (effect : CallEffect h next) :
    next.peer.socket = h.peer.socket := by
  cases effect with
  | moved events moves => exact moves.socket
  | started events middle moves start task =>
      obtain ⟨executor, _, _, same⟩ := start.started
      rw [same]
      exact moves.socket

theorem httpLoop_effect {cfg : Config} {os : Os} {fuel : Nat} {h next : Handling} {code : Code}
    (inv : h.Inv) (ran : httpLoop cfg os fuel h = some (.ok (code, next))) :
    CallEffect h next := by
  refine httpLoop_rule (P := fun middle => ∃ events, Moves h middle events)
    (Q := fun _ => CallEffect h) ?_ ?_ ?_ inv ⟨[], .refl inv.sending inv.receiving⟩ ran
  · rintro middle next valid ⟨front, moves⟩ result
    obtain ⟨back, more⟩ := result.moves_again valid
    exact ⟨_, moves.trans more⟩
  · rintro middle code next valid ⟨front, moves⟩ result
    rcases result.moves valid with ⟨back, more⟩ | ⟨_, stopped, start⟩
    · exact .moved _ (moves.trans more)
    · cases stopped
      exact .started _ middle moves start rfl
  · rintro middle code next valid ⟨front, moves⟩ finished done
    rcases finishRequest_cases done with ⟨rfl, ⟨_, rfl⟩ | ⟨_, _, rfl⟩⟩
    · refine .moved _ (moves.trans (.quiet (.refl valid.sending) rfl valid.receiving nofun ?_))
      exact Nat.le_refl _
    · refine .moved _ (moves.trans
        (.make (.refl valid.sending) rfl valid.receiving rfl ?_ nofun ?_ (Nat.le_refl _)))
      · simp [Event.ofPass]
      · simp [Trace.ordinals, Event.ordinal]

/-- The states in which a call leaves a task, and what is missing when it waits for a body. -/
def HttpTask.Resting (task : HttpTask) : Prop :=
  match task.state with
  | .recvHeader => True
  | .recvBody => task.postBodyIdx < task.bodyBytesNum
  | .sendBody => True
  | .finished => True
  | .processingCgi => True
  | _ => False

/-- A child runs for the current request, or there is none and no state that waits for it. The
pointer may be left over from an earlier connection of the slot. -/
def ChildOf (task : HttpTask) : Ptr CgiExecutor → Prop
  | .live executor =>
      task.state = .processingCgi ∧ executor.Inv ∧ executor.req = task.requests
  | _ => task.state ≠ .processingCgi

def Idle (executor : Ptr CgiExecutor) : Prop := ∀ running, executor ≠ .live running

theorem Idle.childOf {task : HttpTask} {executor : Ptr CgiExecutor} (idle : Idle executor)
    (state : task.state ≠ .processingCgi) : ChildOf task executor := by
  cases executor with
  | live running => exact absurd rfl (idle running)
  | null => exact state
  | freed => exact state

theorem ChildOf.idle {task : HttpTask} {executor : Ptr CgiExecutor} (child : ChildOf task executor)
    (state : task.state ≠ .processingCgi) : Idle executor := by
  rintro running rfl
  exact state child.1

structure Peer.Inv (peer : Peer) (task : HttpTask) : Prop where
  live : peer.httpTask = .live task
  valid : task.Inv
  resting : task.Resting
  child : ChildOf task peer.cgiExecutor
  sending : peer.sendingBuffer.Inv
  receiving : peer.receivingBuffer.Inv

theorem handleHttp_cases {cfg : Config} {os : Os} {request after : Ptr RequestCell}
    {peer next : Peer} {task : HttpTask} {code : Code} (live : peer.httpTask = .live task)
    (called : handleHttp cfg os request peer = .ok (code, after, next)) :
    task.state = .processingCgi ∧ code = .keepConn ∧ after = request ∧ next = peer ∨
      task.state ≠ .processingCgi ∧ ∃ h, after = h.request ∧
        next = { h.peer with httpTask := .live h.task } ∧
        httpLoop cfg os 7 ⟨request, task, peer⟩ = some (.ok (code, h)) := by
  simp only [handleHttp, live] at called
  split at called
  · next waiting =>
      cases called
      exact .inl ⟨waiting, rfl, rfl, rfl⟩
  · next notWaiting =>
      refine .inr ⟨notWaiting, ?_⟩
      generalize httpLoop cfg os 7 ⟨request, task, peer⟩ = ran at called
      match ran with
      | none => cases called
      | some (.error _) => cases called
      | some (.ok (_, h)) =>
          cases called
          exact ⟨h, rfl, rfl, rfl⟩

theorem httpLoop_inv {cfg : Config} {os : Os} {fuel : Nat} {h next : Handling} {code : Code}
    (inv : h.Inv) (idle : Idle h.peer.cgiExecutor)
    (ran : httpLoop cfg os fuel h = some (.ok (code, next))) (stays : code ≠ .closeConnImmediately) :
    ({ next.peer with httpTask := .live next.task } : Peer).Inv next.task := by
  have rest {h : Handling} (inv : h.Inv) (resting : h.task.Resting)
      (child : ChildOf h.task h.peer.cgiExecutor) :
      ({ h.peer with httpTask := .live h.task } : Peer).Inv h.task :=
    ⟨rfl, inv.task, resting, child, inv.sending, inv.receiving⟩
  revert stays
  refine httpLoop_rule (P := fun h => Idle h.peer.cgiExecutor)
    (Q := fun code next => code ≠ .closeConnImmediately →
      ({ next.peer with httpTask := .live next.task } : Peer).Inv next.task) ?_ ?_ ?_ inv idle ran
  · intro h next valid idle result
    obtain ⟨events, moves⟩ := result.moves_again valid
    have same : next.peer.cgiExecutor = h.peer.cgiExecutor := moves.executor
    rwa [same]
  · intro h code next valid idle result stays
    have after := result.valid valid stays
    cases result with
    | headerShort state scanning read =>
        cases read with
        | emptyRecvBuf _ _ _ =>
            apply rest after
            · simp [HttpTask.Resting, state]
            · exact idle.childOf (by simp [state])
    | headerLong => exact absurd rfl stays
    | headerBad => exact absurd rfl stays
    | bodyShort state part read =>
        cases read with
        | short part missing _ _ =>
            apply rest after
            · have index := part.index
              rw [← index] at missing
              simpa [HttpTask.Resting, state] using missing
            · exact idle.childOf (by simp [state])
    | cgiStarted state live cgi started =>
        obtain ⟨executor, req, executorInv, rfl⟩ := started.started
        exact rest after trivial ⟨rfl, executorInv, req⟩
    | @fileWaits _ fp next state opened streamed =>
        obtain ⟨_, moves⟩ :=
          streams_moves ⟨h.request, { h.task with fp }, next⟩ valid state opened rfl streamed
        apply rest after
        · simp [HttpTask.Resting, state]
        · have same : next.cgiExecutor = h.peer.cgiExecutor := moves.executor
          rw [same]
          exact idle.childOf (by simp [state])
    | fileFails => exact absurd rfl stays
  · intro h code next valid idle finished done stays
    have reset := resetHttpTask_inv valid.task.parseSize
    have child : ChildOf (resetHttpTask h.task) h.peer.cgiExecutor := idle.childOf nofun
    rcases finishRequest_cases done with ⟨rfl, ⟨_, rfl⟩ | ⟨_, _, rfl⟩⟩
    · exact rest ⟨reset, valid.sending, valid.receiving⟩ trivial child
    · exact rest ⟨reset, valid.sending, valid.receiving⟩ trivial child

theorem handleHttp_effect {cfg : Config} {os : Os} {request after : Ptr RequestCell}
    {peer next : Peer} {task : HttpTask} {code : Code} (inv : peer.Inv task)
    (called : handleHttp cfg os request peer = .ok (code, after, next)) :
    ∃ h : Handling, next = { h.peer with httpTask := .live h.task } ∧ after = h.request ∧
      CallEffect ⟨request, task, peer⟩ h ∧ (code ≠ .closeConnImmediately → next.Inv h.task) := by
  rcases handleHttp_cases inv.live called with
    ⟨waiting, rfl, rfl, rfl⟩ | ⟨notWaiting, h, rfl, rfl, ran⟩
  · refine ⟨⟨after, task, next⟩, ?_, rfl, .moved [] (.refl inv.sending inv.receiving), fun _ => inv⟩
    rw [← inv.live]
  · have valid : Handling.Inv ⟨request, task, peer⟩ := ⟨inv.valid, inv.sending, inv.receiving⟩
    have idle := inv.child.idle notWaiting
    exact ⟨h, rfl, rfl, httpLoop_effect valid ran, httpLoop_inv valid idle ran⟩

end Liso
