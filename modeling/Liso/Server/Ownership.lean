import Liso.Server.Checks
import Liso.Server.Sharing

/-! The Requests on the heap: `parse` returns one, the global `request` points to it, and
`free_request` gets it back. -/

namespace Liso

abbrev RequestId := Nat × Nat

/-- The Requests that `parse` returned, those of them that are live, and those that
`free_request` was called with. -/
structure Heap where
  returned : List RequestId
  live : List RequestId
  freed : List RequestId

def Heap.empty : Heap := ⟨[], [], []⟩

def pointee : Ptr RequestCell → Option RequestId
  | .live cell => some (cell.conn, cell.req)
  | _ => none

def heapEvent (cfg : Config) (conn : Nat) :
    Option RequestId × Heap → Event → Option RequestId × Heap
  | (_, heap), .parsed req block =>
      match cfg.parse block with
      | .ok (some _) =>
          (some (conn, req), { heap with
            returned := heap.returned ++ [(conn, req)]
            live := heap.live ++ [(conn, req)] })
      | _ => (none, heap)
  | (some id, heap), .requestFreed =>
      (none, { heap with live := heap.live.erase id, freed := heap.freed ++ [id] })
  | state, _ => state

def Event.touchesHeap : Event → Bool
  | .parsed .. => true
  | .requestFreed => true
  | _ => false

theorem heapEvent_quiet (cfg : Config) (conn : Nat) (state : Option RequestId × Heap)
    {event : Event} (quiet : event.touchesHeap = false) :
    heapEvent cfg conn state event = state := by
  obtain ⟨pointer, heap⟩ := state
  cases event <;> first | rfl | cases quiet

theorem heapEvents_quiet (cfg : Config) (conn : Nat) (state : Option RequestId × Heap)
    {events : List Event} (quiet : ∀ event ∈ events, event.touchesHeap = false) :
    events.foldl (heapEvent cfg conn) state = state := by
  induction events with
  | nil => rfl
  | cons event events ih =>
      rw [List.foldl_cons, heapEvent_quiet cfg conn state (quiet event List.mem_cons_self)]
      exact ih fun other member => quiet other (List.mem_cons_of_mem event member)

structure Books (conn : Nat) (task : HttpTask) (heap : Heap) : Prop where
  once : ∀ n, heap.returned.count (conn, n) ≤ 1
  later : ∀ n, task.requests < n → heap.returned.count (conn, n) = 0
  shared : ∀ n, heap.freed.count (conn, n) + heap.live.count (conn, n) =
    heap.returned.count (conn, n)
  live : ∀ n, heap.live.count (conn, n) =
    if task.state ≠ .recvHeader ∧ n = task.requests then 1 else 0

theorem count_own (conn m n : Nat) :
    [((conn, m) : RequestId)].count (conn, n) = if n = m then 1 else 0 := by
  by_cases same : n = m
  · simp [same]
  · simp [same, Ne.symm same]

theorem count_foreign {conn : Nat} (m : Nat) {id : RequestId} (foreign : id.1 ≠ conn) :
    [((conn, m) : RequestId)].count id = 0 := by
  refine List.count_eq_zero.mpr fun member => foreign ?_
  rw [List.mem_singleton.mp member]

structure Elsewhere (conn : Nat) (before after : Heap) : Prop where
  returned : ∀ id : RequestId, id.1 ≠ conn → after.returned.count id = before.returned.count id
  live : ∀ id : RequestId, id.1 ≠ conn → after.live.count id = before.live.count id
  freed : ∀ id : RequestId, id.1 ≠ conn → after.freed.count id = before.freed.count id

structure Holds (conn : Nat) (before : Heap) (task : HttpTask)
    (state : Option RequestId × Heap) : Prop where
  books : Books conn task state.2
  pointer : task.state ≠ .recvHeader → state.1 = some (conn, task.requests)
  elsewhere : Elsewhere conn before state.2

section Holds

variable {cfg : Config} {conn : Nat} {before : Heap} {task after : HttpTask}
  {state : Option RequestId × Heap}

theorem Holds.stays (holds : Holds conn before task state)
    (same : after.state ≠ .recvHeader ↔ task.state ≠ .recvHeader)
    (requests : after.requests = task.requests) : Holds conn before after state := by
  obtain ⟨⟨once, later, shared, live⟩, pointer, elsewhere⟩ := holds
  refine ⟨⟨once, ?_, shared, fun n => ?_⟩, fun other => ?_, elsewhere⟩
  · rwa [requests]
  · rw [live, requests]
    simp only [same]
  · rw [requests]
    exact pointer (same.mp other)

theorem Holds.parsed (holds : Holds conn before task state) {block : Bytes} {request : Request}
    (good : cfg.parse block = .ok (some request)) (between : task.state = .recvHeader)
    (underway : after.state ≠ .recvHeader) (requests : after.requests = task.requests + 1) :
    Holds conn before after (heapEvent cfg conn state (.parsed (task.requests + 1) block)) := by
  obtain ⟨⟨once, later, shared, live⟩, _, elsewhere⟩ := holds
  obtain ⟨pointer, heap⟩ := state
  have none := later (task.requests + 1) (Nat.lt_succ_self _)
  simp only [heapEvent, good]
  refine ⟨⟨fun n => ?_, fun n beyond => ?_, fun n => ?_, fun n => ?_⟩, fun _ => ?_, ?_, ?_, ?_⟩
  · rw [List.count_append, count_own]
    by_cases this : n = task.requests + 1
    · rw [if_pos this, this, none]
    · rw [if_neg this]
      exact once n
  · rw [requests] at beyond
    rw [List.count_append, count_own, if_neg (Nat.ne_of_gt beyond), later n (by omega)]
  · rw [List.count_append, List.count_append, ← shared n, Nat.add_assoc]
  · rw [List.count_append, count_own, live, requests]
    simp [between, underway]
  · rw [requests]
  · intro id foreign
    rw [List.count_append, count_foreign _ foreign, elsewhere.returned id foreign, Nat.add_zero]
  · intro id foreign
    rw [List.count_append, count_foreign _ foreign, elsewhere.live id foreign, Nat.add_zero]
  · exact elsewhere.freed

theorem Holds.refused (holds : Holds conn before task state) {block : Bytes}
    (bad : cfg.parse block = .ok none) (between : task.state = .recvHeader)
    (still : after.state = .recvHeader) (requests : after.requests = task.requests + 1) :
    Holds conn before after (heapEvent cfg conn state (.parsed (task.requests + 1) block)) := by
  obtain ⟨⟨once, later, shared, live⟩, _, elsewhere⟩ := holds
  obtain ⟨pointer, heap⟩ := state
  simp only [heapEvent, bad]
  refine ⟨⟨once, fun n beyond => ?_, shared, fun n => ?_⟩, fun other => absurd still other,
    elsewhere⟩
  · exact later n (by omega)
  · rw [live]
    simp [between, still]

theorem Holds.freed (holds : Holds conn before task state) (underway : task.state ≠ .recvHeader)
    (between : after.state = .recvHeader) (requests : after.requests = task.requests) :
    Holds conn before after (heapEvent cfg conn state .requestFreed) := by
  obtain ⟨⟨once, later, shared, live⟩, pointer, elsewhere⟩ := holds
  obtain ⟨_, heap⟩ := state
  cases pointer underway
  have other (id : RequestId) (foreign : id.1 ≠ conn) : id ≠ (conn, task.requests) := by
    rintro rfl
    exact foreign rfl
  have erased (n : Nat) : (heap.live.erase (conn, task.requests)).count (conn, n) = 0 := by
    have known := live n
    rw [List.count_erase, known]
    by_cases this : n = task.requests
    · simp [this, underway]
    · simp [this, Ne.symm this]
  simp only [heapEvent]
  refine ⟨⟨once, ?_, fun n => ?_, fun n => ?_⟩, fun other => absurd between other,
    elsewhere.returned, ?_, ?_⟩
  · rwa [requests]
  · have known := shared n
    rw [live] at known
    rw [List.count_append, count_own, erased, ← known]
    simp [underway]
  · rw [erased]
    simp [between]
  · intro id foreign
    rw [List.count_erase_of_ne (other id foreign), elsewhere.live id foreign]
  · intro id foreign
    rw [List.count_append, count_foreign _ foreign, elsewhere.freed id foreign, Nat.add_zero]

end Holds

theorem puts_quiet (bytes : List OutByte) :
    ∀ event ∈ bytes.map Event.put, event.touchesHeap = false := by
  intro event member
  obtain ⟨byte, _, rfl⟩ := List.mem_map.mp member
  rfl

def Adds (before after : Peer) (events : List Event) : Prop :=
  after.trace = before.trace ++ events

def Quiet (before after : Peer) : Prop :=
  ∃ events, Adds before after events ∧ ∀ event ∈ events, event.touchesHeap = false

theorem Quiet.same {before after : Peer} (same : after.trace = before.trace) : Quiet before after :=
  ⟨[], by rw [Adds, same, List.append_nil], List.forall_mem_nil _⟩

theorem Quiet.puts {before after : Peer} {bytes : List OutByte} (puts : Puts before bytes after) :
    Quiet before after := by
  obtain ⟨sendingBuffer, rfl⟩ := puts.frame
  exact ⟨_, rfl, puts_quiet bytes⟩

theorem Quiet.record {before : Peer} {events : List Event}
    (quiet : ∀ event ∈ events, event.touchesHeap = false) : Quiet before (before.record events) :=
  ⟨events, rfl, quiet⟩

theorem Quiet.trans {before middle after : Peer} (first : Quiet before middle)
    (second : Quiet middle after) : Quiet before after := by
  obtain ⟨front, added, quietFront⟩ := first
  obtain ⟨back, more, quietBack⟩ := second
  refine ⟨front ++ back, ?_, List.forall_mem_append.mpr ⟨quietFront, quietBack⟩⟩
  rw [Adds, more, added, List.append_assoc]

section Calls

variable {cfg : Config} {os : Os} {h next : Handling} {pass : Pass}

private theorem streams_quiet {file : File} {status : StreamStatus} {fp : Ptr File} {peer : Peer}
    (streamed : FileStreamed file h.peer (status, fp, peer)) : Quiet h.peer peer := by
  obtain ⟨bytes, middle, events, puts, _, closing, shape⟩ := streamed.puts
  have last : peer = middle.record events := shape
  rw [last]
  refine (Quiet.puts puts).trans (.record ?_)
  rcases closing with rfl | rfl <;> simp [Event.touchesHeap]

theorem PassCases.quiet (result : PassCases cfg os h pass) (state : h.task.state ≠ .recvHeader) :
    Quiet h.peer pass.handling.peer ∧ pass.handling.task.state ≠ .recvHeader ∧
      pass.handling.task.requests = h.task.requests := by
  cases result with
  | headerShort here scanning read => exact absurd here state
  | headerLong here scanning read => exact absurd here state
  | headerBad here scanning read whole bad => exact absurd here state
  | headerGood here scanning read whole good took => exact absurd here state
  | bodyShort here part read =>
      cases read
      exact ⟨.same rfl, state, rfl⟩
  | bodyWhole here part read =>
      cases read
      refine ⟨⟨_, rfl, ?_⟩, by simp [Pass.handling], rfl⟩
      simp [Event.touchesHeap]
  | generated here written => exact ⟨.same rfl, by simp [Pass.handling], written.requests⟩
  | @headSent ret sent peer here result =>
      obtain ⟨front, puts, _⟩ := result.puts
      obtain ⟨responseBuf, rfl, _⟩ := result.left
      refine ⟨.puts puts, ?_, rfl⟩
      rcases afterHead_cases { h.task with responseBuf } with body | finished
      · simp [Pass.handling, body]
      · simp [Pass.handling, finished]
  | cgiStarted here live cgi started fed =>
      obtain ⟨executor, _, _, rfl⟩ := started.started
      refine ⟨⟨_, rfl, ?_⟩, by simp [Pass.handling], rfl⟩
      simp [Event.touchesHeap, pipeEvents]
  | @staticHead cell code task changed events here live static method found =>
      have notHeader : (if code = okNum then HttpState.sendHeader else .generateHeader) ≠
          .recvHeader := by
        split <;> simp
      cases found with
      | missing path absent => exact ⟨.record (List.forall_mem_nil _), notHeader, rfl⟩
      | unopened path present written described noFile =>
          exact ⟨.record (List.forall_mem_nil _), notHeader, written.requests⟩
      | opened path present written described hasFile =>
          refine ⟨.record ?_, notHeader, written.requests⟩
          simp [Event.touchesHeap]
  | staticPost here live static post => exact ⟨.same rfl, by simp [Pass.handling], rfl⟩
  | fileWaits here opened streamed => exact ⟨streams_quiet streamed, state, rfl⟩
  | fileFails here opened streamed => exact ⟨streams_quiet streamed, state, rfl⟩
  | fileDone here opened streamed =>
      exact ⟨streams_quiet streamed, by simp [Pass.handling], rfl⟩

def Tracked (cfg : Config) (conn : Nat) (heap : Heap) (pointer : Option RequestId)
    (start after : Peer) (task : HttpTask) : Prop :=
  ∃ events, Adds start after events ∧
    Holds conn heap task (events.foldl (heapEvent cfg conn) (pointer, heap))

section Tracked

variable {conn : Nat} {heap : Heap} {pointer : Option RequestId} {start peer after : Peer}
  {task last : HttpTask}

theorem Tracked.quiet (tracked : Tracked cfg conn heap pointer start peer task)
    (quiet : Quiet peer after) (same : last.state ≠ .recvHeader ↔ task.state ≠ .recvHeader)
    (requests : last.requests = task.requests) :
    Tracked cfg conn heap pointer start after last := by
  obtain ⟨front, added, holds⟩ := tracked
  obtain ⟨back, more, quiet⟩ := quiet
  refine ⟨front ++ back, ?_, ?_⟩
  · rw [Adds, more, added, List.append_assoc]
  · rw [List.foldl_append, heapEvents_quiet cfg conn _ quiet]
    exact holds.stays same requests

theorem Tracked.then (tracked : Tracked cfg conn heap pointer start peer task) (event : Event)
    (rest : List Event) (quiet : ∀ other ∈ rest, other.touchesHeap = false)
    (added : Adds peer after (event :: rest))
    (holds : ∀ state, Holds conn heap task state →
      Holds conn heap last (heapEvent cfg conn state event)) :
    Tracked cfg conn heap pointer start after last := by
  obtain ⟨front, before, kept⟩ := tracked
  refine ⟨front ++ event :: rest, ?_, ?_⟩
  · rw [Adds, added, before, List.append_assoc]
  · rw [List.foldl_append, List.foldl_cons, heapEvents_quiet cfg conn _ quiet]
    exact holds _ kept

end Tracked

private theorem Taken.underway {task after : HttpTask} {request : Request}
    (took : Taken cfg task request after) : after.state ≠ .recvHeader := by
  cases took <;> simp

theorem PassCases.tracked {conn : Nat} {heap : Heap} {pointer : Option RequestId} {start : Peer}
    (tracked : Tracked cfg conn heap pointer start h.peer h.task)
    (result : PassCases cfg os h pass) :
    Tracked cfg conn heap pointer start pass.handling.peer pass.handling.task := by
  by_cases state : h.task.state = .recvHeader
  · cases result with
    | headerShort here scanning read =>
        cases read
        exact tracked.quiet (.same rfl) Iff.rfl rfl
    | headerLong here scanning read =>
        cases read
        exact tracked.quiet (.same rfl) Iff.rfl rfl
    | headerBad here scanning read whole bad =>
        cases read
        refine tracked.then _ _ ?_ rfl fun before holds => ?_
        · simp [Event.touchesHeap]
        · exact holds.refused bad state here rfl
    | headerGood here scanning read whole good took =>
        cases read
        refine tracked.then _ _ ?_ rfl fun before holds => ?_
        · split <;> simp [Event.touchesHeap]
        · exact holds.parsed good state took.underway took.requests
    | bodyShort here | bodyWhole here | generated here | headSent here | cgiStarted here
    | staticHead here | staticPost here | fileWaits here | fileFails here | fileDone here =>
        rw [state] at here
        cases here
  · obtain ⟨quiet, underway, requests⟩ := result.quiet state
    exact tracked.quiet quiet ⟨fun _ => state, fun _ => underway⟩ requests

theorem httpLoop_tracked {conn fuel : Nat} {code : Code} {heap : Heap}
    {pointer : Option RequestId} {start : Peer} (inv : h.Inv) (number : h.peer.conn = conn)
    (own : OwnRequest conn h.request h.task)
    (tracked : Tracked cfg conn heap pointer start h.peer h.task)
    (ran : httpLoop cfg os fuel h = some (.ok (code, next))) :
    Tracked cfg conn heap pointer start next.peer next.task := by
  refine httpLoop_rule (P := fun h => h.peer.conn = conn ∧ OwnRequest conn h.request h.task ∧
      Tracked cfg conn heap pointer start h.peer h.task)
    (Q := fun _ h => Tracked cfg conn heap pointer start h.peer h.task)
    ?_ ?_ ?_ inv ⟨number, own, tracked⟩ ran
  · rintro h next valid ⟨rfl, own, tracked⟩ result
    obtain ⟨events, moves⟩ := result.moves_again valid
    refine ⟨moves.conn, result.own own fun _ => Pass.noConfusion, ?_⟩
    exact result.tracked tracked
  · rintro h code next valid ⟨_, _, tracked⟩ result
    exact result.tracked tracked
  · rintro h code next valid ⟨_, own, tracked⟩ state done
    have underway : h.task.state ≠ .recvHeader := by simp [state]
    obtain ⟨cell, live, _⟩ := own underway
    rcases finishRequest_cases done with ⟨rfl, ⟨null, _⟩ | ⟨_, _, rfl⟩⟩
    · rw [live] at null
      cases null
    · refine tracked.then .requestFreed [] (List.forall_mem_nil _) rfl fun before holds => ?_
      exact holds.freed underway rfl rfl

end Calls

def streamFails (cfg : Config) (os : Os) : Nat → Handling → Bool
  | 0, _ => false
  | fuel + 1, h =>
      if h.task.state = .sendBody then
        (streamFileContent h.task h.peer matches .ok (.error, _, _))
      else
        match httpPass cfg os h with
        | .ok (.again next) => streamFails cfg os fuel next
        | _ => false

/-- The connection is closed with a request underway: because a transfer to or from the client or
the child fails, or because the file cannot be read. -/
def Session.cutsOff (cfg : Config) (s : Session) : PeerEvent → Bool
  | .call os =>
      match s.closed, s.peer.httpTask with
      | false, .live task =>
          decide (task.state ≠ .processingCgi) && streamFails cfg os 7 ⟨s.request, task, s.peer⟩
      | _, _ => false
  | event =>
      s.underway &&
        match sessionStep cfg s event with
        | .ok t => t.closed
        | .error _ => false

private theorem streamFails_pass {cfg : Config} {os : Os} {fuel : Nat} {h next : Handling}
    (inv : h.Inv) (passed : httpPass cfg os h = .ok (.returns .closeConnImmediately next))
    (underway : next.task.state ≠ .recvHeader) : streamFails cfg os (fuel + 1) h = true := by
  have result := httpPass_cases inv passed
  generalize answer : Pass.returns .closeConnImmediately next = pass at result
  cases result with
  | headerLong state scanning read =>
      cases answer
      cases read
      exact absurd state underway
  | headerBad state scanning read whole bad =>
      cases answer
      cases read
      exact absurd state underway
  | cgiStarted =>
      cases last : h.task.lastRequest <;> simp [last] at answer
  | fileFails state opened streamed =>
      rw [streamFails, if_pos state]
      unfold httpPass sendBodyState at passed
      simp only [state] at passed
      split at passed
      · cases passed
      · cases reading : streamFileContent h.task h.peer with
        | error fault =>
            simp only [reading] at passed
            cases passed
        | ok outcome =>
            obtain ⟨status, task, peer⟩ := outcome
            simp only [reading] at passed
            cases status with
            | error => rfl
            | done => cases passed
            | notDone => cases passed
  | headerShort | headerGood | bodyShort | bodyWhole | generated | headSent | staticHead
  | staticPost | fileWaits | fileDone => cases answer

private theorem PassCases.after_body {cfg : Config} {os : Os} {h next : Handling}
    (result : PassCases cfg os h (.again next)) (state : h.task.state = .sendBody) :
    next.task.state = .finished := by
  cases result with
  | fileDone here opened streamed => rfl
  | headerGood here | bodyWhole here | generated here | headSent here | staticHead here
  | staticPost here =>
      rw [state] at here
      cases here

private theorem httpLoop_finished {cfg : Config} {os : Os} {fuel : Nat} {h next : Handling}
    {code : Code} (state : h.task.state = .finished)
    (ran : httpLoop cfg os fuel h = some (.ok (code, next))) : code = .keepConn := by
  cases fuel with
  | zero => cases ran
  | succ fuel =>
      rw [httpLoop, if_pos state] at ran
      exact (finishRequest_cases (Option.some.inj ran)).1

theorem httpLoop_cuts {cfg : Config} {os : Os} {fuel : Nat} {h next : Handling} (inv : h.Inv)
    (ran : httpLoop cfg os fuel h = some (.ok (.closeConnImmediately, next)))
    (underway : next.task.state ≠ .recvHeader) : streamFails cfg os fuel h = true := by
  induction fuel generalizing h with
  | zero => cases ran
  | succ fuel ih =>
      rw [httpLoop] at ran
      split at ran
      · cases (finishRequest_cases (Option.some.inj ran)).1
      · cases passed : httpPass cfg os h with
        | error fault =>
            simp only [passed] at ran
            cases ran
        | ok pass =>
            simp only [passed] at ran
            cases pass with
            | returns code stopped =>
                cases ran
                exact streamFails_pass inv passed underway
            | again middle =>
                have result := httpPass_cases inv passed
                have later := ih (result.valid inv) ran
                rw [streamFails]
                split
                · next body =>
                    have finished := result.after_body body
                    cases httpLoop_finished finished ran
                · simpa only [passed] using later

section Steps

variable {cfg : Config} {s t : Session} {task : HttpTask} {event : PeerEvent} {conn : Nat}
  {heap : Heap}

theorem StepCases.tracked (own : event.own = true) (isOpen : s.closed = false)
    (inv : s.peer.Inv task) (owns : s.Owns conn) (books : Books conn task heap)
    (step : StepCases cfg s task event t) : ∃ last, t.peer.httpTask = .live last ∧
      Tracked cfg conn heap (pointee s.request) s.peer t.peer last := by
  have before := owns.own isOpen task inv.live
  have start : Tracked cfg conn heap (pointee s.request) s.peer s.peer task := by
    refine ⟨[], by rw [Adds, List.append_nil], books, fun underway => ?_, ?_⟩
    · obtain ⟨cell, live, number, req⟩ := before underway
      rw [live]
      simp only [List.foldl_nil, pointee, number, req]
    · exact ⟨fun _ _ => rfl, fun _ _ => rfl, fun _ _ => rfl⟩
  have quietly {peer : Peer} (quiet : Quiet s.peer peer) (live : peer.httpTask = s.peer.httpTask) :
      ∃ last, peer.httpTask = .live last ∧
        Tracked cfg conn heap (pointee s.request) s.peer peer last :=
    ⟨task, live.trans inv.live, start.quiet quiet Iff.rfl rfl⟩
  have received {peer : Peer} (received : Receives s.peer peer) : Quiet s.peer peer := by
    cases received with
    | nothing => exact .same rfl
    | bytes bufInv content => exact .record (by simp [Event.touchesHeap])
  cases step with
  | deliver got => exact quietly (received got) got.httpTask
  | recv got => exact quietly (received got) got.httpTask
  | @call os code h called effect valid =>
      have tracked : Tracked cfg conn heap (pointee s.request) s.peer h.peer h.task := by
        rcases handleHttp_cases inv.live called with
          ⟨waiting, _, _, peer⟩ | ⟨notWaiting, next, _, peer, ran⟩
        · have live := congrArg Peer.httpTask peer
          have trace := congrArg Peer.trace peer
          rw [inv.live] at live
          cases live
          exact start.quiet (.same trace) Iff.rfl rfl
        · have live := congrArg Peer.httpTask peer
          have trace := congrArg Peer.trace peer
          simp only [Ptr.live.injEq] at live
          have whole := httpLoop_tracked ⟨inv.valid, inv.sending, inv.receiving⟩ owns.number before
            start ran
          rw [live]
          exact whole.quiet (.same trace) Iff.rfl rfl
      have told : Quiet h.peer
          (afterCall code h.request { h.peer with httpTask := .live h.task }).peer := by
        cases code <;> exact ⟨[.returned _], rfl, by simp [Event.touchesHeap]⟩
      refine ⟨h.task, ?_, tracked.quiet told Iff.rfl rfl⟩
      cases code <;> rfl
  | send sent =>
      cases sent with
      | nothing empty => exact quietly (.same rfl) rfl
      | accepted count answered bufInv left =>
          exact quietly ⟨_, rfl, by simp [Event.touchesHeap]⟩ rfl
      | failed bufInv => exact quietly (.same rfl) rfl
  | toCgi child sent =>
      cases sent with
      | nothing empty => exact quietly (.same rfl) rfl
      | accepted count bufInv left => exact quietly ⟨_, rfl, by simp [Event.touchesHeap]⟩ rfl
      | failed bufInv refused => exact quietly (.same rfl) rfl
  | @fromCgi answer executor status peer child piped =>
      cases piped with
      | full => exact quietly (.same rfl) rfl
      | failed => exact quietly (.same rfl) rfl
      | ended live =>
          cases live.symm.trans inv.live
          have running := inv.child
          rw [child] at running
          have ended : Quiet s.peer (({ s.peer with
              httpTask := .live { task with state := .finished }
              cgiExecutor := .null } : Peer).record [.cgiEnded executor.req]) :=
            ⟨_, rfl, by simp [Event.touchesHeap]⟩
          exact ⟨_, rfl, start.quiet ended (by simp [running.1]) rfl⟩
      | piped taken puts =>
          have quiet := (Quiet.record (by simp [Event.touchesHeap])).trans (.puts puts)
          obtain ⟨sendingBuffer, rfl⟩ := puts.frame
          exact quietly quiet rfl
  | noChild => exact quietly (.same rfl) rfl
  | others => cases own

theorem StepCases.closes_between (isOpen : s.closed = false) (inv : s.peer.Inv task)
    (stepped : sessionStep cfg s event = .ok t) (step : StepCases cfg s task event t)
    (whole : s.cutsOff cfg event = false) (closed : t.closed = true) :
    ∀ last, t.peer.httpTask = .live last → last.state = .recvHeader := by
  intro last live
  have between (noCall : ∀ os, event ≠ .call os) (same : t.peer.httpTask = s.peer.httpTask) :
      last.state = .recvHeader := by
    cases live.symm.trans (same.trans inv.live)
    have idle : s.underway = false := by
      cases event with
      | call os => exact absurd rfl (noCall os)
      | deliver | recv | send | toCgi | fromCgi | others =>
          simpa [Session.cutsOff, stepped, closed] using whole
    simpa [Session.underway, isOpen, inv.live] using idle
  cases step with
  | deliver got => exact absurd closed (by simp [isOpen])
  | recv got => exact between (by simp) got.httpTask
  | @call os code h called effect valid =>
      cases code with
      | keepConn => cases closed
      | closeConn => cases closed
      | closeConnImmediately =>
          cases live
          rcases handleHttp_cases inv.live called with
            ⟨_, other, _⟩ | ⟨notWaiting, next, _, peer, ran⟩
          · cases other
          · have same := congrArg Peer.httpTask peer
            simp only [Ptr.live.injEq] at same
            by_contra underway
            rw [same] at underway
            have fails := httpLoop_cuts ⟨inv.valid, inv.sending, inv.receiving⟩ ran underway
            simp [Session.cutsOff, isOpen, inv.live, notWaiting, fails] at whole
  | send sent => exact between (by simp) (by cases sent <;> rfl)
  | toCgi child sent => exact between (by simp) (by cases sent <;> rfl)
  | fromCgi child piped =>
      cases piped with
      | full => cases closed
      | failed => exact between (by simp) rfl
      | ended live => cases closed
      | piped taken puts => cases closed
  | noChild => cases isOpen.symm.trans closed
  | others => cases isOpen.symm.trans closed

end Steps

structure Ledger (peers : Nat) where
  sys : System peers
  heap : Heap

/-- What was recorded of a connection, to the end of `close_client_connection` once it is closed. -/
def Connection.events (connection : Connection) : List Event :=
  if connection.closed then
    match closeClientConnection connection.peer with
    | .ok slot => slot.trace
    | .error _ => connection.peer.trace
  else connection.peer.trace

def ledgerStep {peers : Nat} (cfg : Config) (ledger : Ledger peers)
    (event : Fin peers × PeerEvent) : Except Fault (Ledger peers) :=
  (sysStep cfg ledger.sys event).map fun sys =>
    let before := (ledger.sys.connections event.1).events
    let events := (sys.connections event.1).events.drop before.length
    ⟨sys, (events.foldl (heapEvent cfg event.1) (pointee ledger.sys.request, ledger.heap)).2⟩

def ledgerRun {peers : Nat} (cfg : Config) (events : List (Fin peers × PeerEvent))
    (ledger : Ledger peers) : Except Fault (Ledger peers) :=
  Run.run (ledgerStep cfg) events ledger

/-- A request is taken only while no other is underway, and no connection is closed while its
request is. -/
def orderly {peers : Nat} (cfg : Config) (sys : System peers) (event : Fin peers × PeerEvent) :
    Bool :=
  alone sys event && !(sys.session event.1).cutsOff cfg event.2

def Session.current (s : Session) : Option RequestId :=
  match s.closed, s.peer.httpTask with
  | false, .live task =>
      if task.state = .recvHeader then none else some (s.peer.conn, task.requests)
  | _, _ => none

/-- Every Request that `parse` returned is live while its request is underway, and was freed once
when it is not; `request` points to a live one. -/
structure FreedOnce {peers : Nat} (ledger : Ledger peers) : Prop where
  distinct : ledger.heap.returned.Nodup
  once : ∀ id ∈ ledger.heap.returned,
    ledger.heap.freed.count id + ledger.heap.live.count id = 1
  only : ∀ id ∈ ledger.heap.freed, id ∈ ledger.heap.returned
  live : ∀ id, id ∈ ledger.heap.live ↔ ∃ p, (ledger.sys.session p).current = some id
  held : ∀ p id, (ledger.sys.session p).current = some id →
    pointee ledger.sys.request = some id

section Ledger

variable {peers : Nat} {cfg : Config}

theorem Connection.events_quiet (connection : Connection) : ∃ events,
    connection.events = connection.peer.trace ++ events ∧
      ∀ event ∈ events, event.touchesHeap = false := by
  unfold Connection.events
  split
  · cases closing : closeClientConnection connection.peer with
    | error fault => exact ⟨[], (List.append_nil _).symm, List.forall_mem_nil _⟩
    | ok slot =>
        obtain ⟨_, _, rfl⟩ := closeClientConnection_ok.mp closing
        refine ⟨_, rfl, fun event member => ?_⟩
        obtain ⟨fd, _, rfl⟩ := List.mem_map.mp member
        rfl
  · exact ⟨[], (List.append_nil _).symm, List.forall_mem_nil _⟩

theorem Agrees.owns {start sys : System peers} {past : List (Fin peers × PeerEvent)}
    (agrees : Agrees cfg start past sys) (p : Fin peers) : (sys.session p).Owns p := by
  obtain ⟨request, _, _, owns, same⟩ := agrees.solo p
  refine ⟨owns.number, fun isOpen task live underway => ?_⟩
  have isUnderway : (sys.session p).underway = true := by
    simp [Session.underway, isOpen, live, underway]
  cases same isUnderway
  exact owns.own isOpen task live underway

theorem Agrees.inv {start sys : System peers} {past : List (Fin peers × PeerEvent)}
    (agrees : Agrees cfg start past sys) (p : Fin peers) : (sys.session p).Inv := by
  obtain ⟨request, _, inv, _⟩ := agrees.solo p
  exact inv

structure Balanced (ledger : Ledger peers) : Prop where
  books : ∀ p : Fin peers, ∃ task, (ledger.sys.connections p).peer.httpTask = .live task ∧
    Books p task ledger.heap ∧
      ((ledger.sys.connections p).closed = true → task.state = .recvHeader)
  outside : ∀ id : RequestId, (∀ p : Fin peers, id.1 ≠ p) →
    ledger.heap.returned.count id = 0 ∧ ledger.heap.live.count id = 0 ∧
      ledger.heap.freed.count id = 0

theorem Books.elsewhere {conn p : Nat} {task : HttpTask} {before after : Heap}
    (books : Books p task before) (elsewhere : Elsewhere conn before after) (other : p ≠ conn) :
    Books p task after := by
  obtain ⟨once, later, shared, live⟩ := books
  constructor
  · intro n
    rw [elsewhere.returned (p, n) other]
    exact once n
  · intro n beyond
    rw [elsewhere.returned (p, n) other]
    exact later n beyond
  · intro n
    rw [elsewhere.returned (p, n) other, elsewhere.live (p, n) other,
      elsewhere.freed (p, n) other]
    exact shared n
  · intro n
    rw [elsewhere.live (p, n) other]
    exact live n

theorem sessionStep_books {s t : Session} {task : HttpTask} {event : PeerEvent} {conn : Nat}
    {heap : Heap} (own : event.own = true) (valid : s.Inv) (owns : s.Owns conn)
    (live : s.peer.httpTask = .live task) (books : Books conn task heap)
    (between : s.closed = true → task.state = .recvHeader) (whole : s.cutsOff cfg event = false)
    (stepped : sessionStep cfg s event = .ok t) :
    ∃ last, t.peer.httpTask = .live last ∧ (t.closed = true → last.state = .recvHeader) ∧
      ∃ after, Books conn last after ∧ Elsewhere conn heap after ∧
        after = (((Connection.mk t.peer t.closed).events.drop
          (Connection.mk s.peer s.closed).events.length).foldl (heapEvent cfg conn)
            (pointee s.request, heap)).2 := by
  cases isOpen : s.closed with
  | true =>
      rw [sessionStep_closed isOpen] at stepped
      cases stepped
      have still : Elsewhere conn heap heap := ⟨fun _ _ => rfl, fun _ _ => rfl, fun _ _ => rfl⟩
      refine ⟨task, live, between, heap, books, still, ?_⟩
      rw [isOpen, List.drop_length, List.foldl_nil]
  | false =>
      obtain ⟨same, inv⟩ := valid isOpen
      cases live.symm.trans inv.live
      have step := sessionStep_cases isOpen inv stepped
      obtain ⟨last, lastLive, front, added, holds⟩ := step.tracked own isOpen inv owns books
      obtain ⟨back, shape, quiet⟩ := Connection.events_quiet ⟨t.peer, t.closed⟩
      have start : (Connection.mk s.peer false).events = s.peer.trace := rfl
      have drop : (Connection.mk t.peer t.closed).events.drop s.peer.trace.length =
          front ++ back := by
        rw [shape, added, List.append_assoc, List.drop_left]
      refine ⟨last, lastLive, ?_, _, holds.books, holds.elsewhere, ?_⟩
      · exact fun closed => step.closes_between isOpen inv stepped whole closed last lastLive
      · rw [start, drop, List.foldl_append, heapEvents_quiet cfg conn _ quiet]

theorem Balanced.step {start : System peers} {past : List (Fin peers × PeerEvent)}
    {ledger next : Ledger peers} {event : Fin peers × PeerEvent}
    (agrees : Agrees cfg start past ledger.sys) (balanced : Balanced ledger)
    (own : event.2.own = true) (guard : orderly cfg ledger.sys event = true)
    (stepped : ledgerStep cfg ledger event = .ok next) : Balanced next := by
  obtain ⟨p, event⟩ := event
  rw [orderly, Bool.and_eq_true, Bool.not_eq_true'] at guard
  rw [ledgerStep, sysStep] at stepped
  cases ran : sessionStep cfg (ledger.sys.session p) event with
  | error fault =>
      simp only [ran] at stepped
      cases stepped
  | ok t =>
      simp only [ran] at stepped
      obtain ⟨task, live, books, between⟩ := balanced.books p
      obtain ⟨last, lastLive, closes, after, afterBooks, elsewhere, shape⟩ :=
        sessionStep_books own (agrees.inv p) (agrees.owns p) live books between guard.2 ran
      have connection : (ledger.sys.update p t).connections p = ⟨t.peer, t.closed⟩ := by
        simp [System.update]
      have whole : next = ⟨ledger.sys.update p t, after⟩ := by
        have made := (Except.ok.inj stepped).symm
        simp only [connection] at made
        rw [made, shape]
        rfl
      subst whole
      constructor
      · intro q
        by_cases mine : q = p
        · cases mine
          refine ⟨last, ?_, ?_, ?_⟩
          · rw [connection]
            exact lastLive
          · exact afterBooks
          · rw [connection]
            exact closes
        · obtain ⟨other, otherLive, otherBooks, otherBetween⟩ := balanced.books q
          have kept : (ledger.sys.update p t).connections q = ledger.sys.connections q := by
            simp [System.update, mine]
          refine ⟨other, ?_, ?_, ?_⟩
          · rw [kept]
            exact otherLive
          · exact otherBooks.elsewhere elsewhere fun same => mine (Fin.ext same)
          · rw [kept]
            exact otherBetween
      · intro id foreign
        rw [elsewhere.returned id (foreign p), elsewhere.live id (foreign p),
          elsewhere.freed id (foreign p)]
        exact balanced.outside id foreign

theorem ledgerStep_sys {ledger next : Ledger peers} {event : Fin peers × PeerEvent}
    (stepped : ledgerStep cfg ledger event = .ok next) :
    sysStep cfg ledger.sys event = .ok next.sys := by
  rw [ledgerStep] at stepped
  cases ran : sysStep cfg ledger.sys event with
  | error fault =>
      rw [ran] at stepped
      cases stepped
  | ok sys =>
      rw [ran] at stepped
      cases stepped
      rfl

theorem ledgerRun_balanced {start : System peers} {past events : List (Fin peers × PeerEvent)}
    {ledger next : Ledger peers} (agrees : Agrees cfg start past ledger.sys)
    (balanced : Balanced ledger) (own : ∀ event ∈ events, event.2.own = true)
    (guard : Run.guarded (sysStep cfg) (orderly cfg) events ledger.sys = true)
    (ran : ledgerRun cfg events ledger = .ok next) :
    Agrees cfg start (past ++ events) next.sys ∧ Balanced next := by
  induction events generalizing past ledger with
  | nil =>
      cases ran
      rw [List.append_nil]
      exact ⟨agrees, balanced⟩
  | cons event events ih =>
      obtain ⟨now, later⟩ := Run.guarded_cons guard
      obtain ⟨middle, stepped, rest⟩ := Run.run_cons_ok.mp ran
      have sys := ledgerStep_sys stepped
      have mine := own event List.mem_cons_self
      have both := now
      rw [orderly, Bool.and_eq_true] at both
      have reached := ih (agrees.step mine both.1 sys) (balanced.step agrees mine now stepped)
        (fun other member => own other (List.mem_cons_of_mem event member))
        (later middle.sys sys) rest
      rwa [List.append_assoc] at reached

theorem System.Fresh.balanced {start : System peers} (fresh : start.Fresh) :
    Balanced ⟨start, .empty⟩ := by
  constructor
  · intro p
    obtain ⟨slot, sock, addr, _, shape⟩ := fresh p
    have live := congrArg (fun s => s.peer.httpTask) shape
    refine ⟨createHttpTask, live, ?_, fun _ => rfl⟩
    exact ⟨fun _ => Nat.zero_le _, fun _ _ => rfl, fun _ => rfl, fun _ => rfl⟩
  · exact fun _ _ => ⟨rfl, rfl, rfl⟩

theorem Balanced.current {ledger : Ledger peers} (balanced : Balanced ledger) {p : Fin peers}
    (owns : (ledger.sys.session p).Owns p) (n : Nat) :
    ledger.heap.live.count ((p : Nat), n) =
      if (ledger.sys.session p).current = some ((p : Nat), n) then 1 else 0 := by
  obtain ⟨task, live, books, between⟩ := balanced.books p
  have isLive : (ledger.sys.session p).peer.httpTask = .live task := live
  rw [books.live]
  unfold Session.current
  rw [isLive, owns.number]
  cases closed : (ledger.sys.session p).closed with
  | true => simp [between closed]
  | false =>
      by_cases state : task.state = .recvHeader
      · simp [state]
      · simp [state, eq_comm]

private theorem Session.current_own {s : Session} {conn : Nat} {id : RequestId}
    (owns : s.Owns conn) (current : s.current = some id) : ∃ n, id = (conn, n) := by
  unfold Session.current at current
  split at current
  · split at current
    · cases current
    · cases current
      exact ⟨_, by rw [owns.number]⟩
  · cases current

private theorem Session.current_held {s : Session} {conn : Nat} {id : RequestId}
    (owns : s.Owns conn) (current : s.current = some id) : pointee s.request = some id := by
  unfold Session.current at current
  split at current
  · next task isOpen live =>
      split at current
      · cases current
      · next state =>
          obtain ⟨cell, isCell, number, req⟩ := owns.own isOpen task live state
          rw [isCell, pointee, number, req, ← owns.number]
          exact current
  · cases current

theorem Balanced.freedOnce {start : System peers} {past : List (Fin peers × PeerEvent)}
    {ledger : Ledger peers} (agrees : Agrees cfg start past ledger.sys)
    (balanced : Balanced ledger) : FreedOnce ledger := by
  have inside (id : RequestId) (member : id ∈ ledger.heap.returned ∨ id ∈ ledger.heap.live ∨
      id ∈ ledger.heap.freed) : ∃ p : Fin peers, ∃ n, id = ((p : Nat), n) := by
    by_contra none
    have foreign (p : Fin peers) : id.1 ≠ p := fun same => none ⟨p, id.2, by rw [← same]⟩
    obtain ⟨returned, live, freed⟩ := balanced.outside id foreign
    rcases member with member | member | member
    · exact List.count_eq_zero.mp returned member
    · exact List.count_eq_zero.mp live member
    · exact List.count_eq_zero.mp freed member
  constructor
  · rw [List.nodup_iff_count]
    intro id
    by_cases member : id ∈ ledger.heap.returned
    · obtain ⟨p, n, rfl⟩ := inside id (.inl member)
      obtain ⟨task, _, books, _⟩ := balanced.books p
      exact books.once n
    · rw [List.count_eq_zero.mpr member]
      exact Nat.zero_le 1
  · intro id member
    obtain ⟨p, n, rfl⟩ := inside id (.inl member)
    obtain ⟨task, _, books, _⟩ := balanced.books p
    have once := books.once n
    have some := List.count_pos_iff.mpr member
    rw [books.shared]
    omega
  · intro id member
    obtain ⟨p, n, rfl⟩ := inside id (.inr (.inr member))
    obtain ⟨task, _, books, _⟩ := balanced.books p
    have some := List.count_pos_iff.mpr member
    have shared := books.shared n
    exact List.count_pos_iff.mp (by omega)
  · intro id
    constructor
    · intro member
      obtain ⟨p, n, rfl⟩ := inside id (.inr (.inl member))
      have known := balanced.current (agrees.owns p) n
      have some := List.count_pos_iff.mpr member
      refine ⟨p, ?_⟩
      by_contra other
      rw [if_neg other] at known
      omega
    · rintro ⟨p, current⟩
      obtain ⟨n, rfl⟩ := Session.current_own (agrees.owns p) current
      have known := balanced.current (agrees.owns p) n
      rw [if_pos current] at known
      exact List.count_pos_iff.mp (by omega)
  · intro p id current
    exact Session.current_held (agrees.owns p) current

def Unfreed (conn : Nat) (heap : Heap) (task : HttpTask) : Prop :=
  (conn, if task.state = .recvHeader then task.requests + 1 else task.requests) ∉ heap.freed

theorem Reaches.unfreed {os : Os} {conn : Nat} {heap : Heap} {h last : Handling} (inv : h.Inv)
    (number : h.peer.conn = conn) (own : OwnRequest conn h.request h.task)
    (unfreed : Unfreed conn heap h.task) (reaches : Reaches cfg os h last) :
    OwnRequest conn last.request last.task ∧ Unfreed conn heap last.task := by
  induction reaches with
  | here => exact ⟨own, unfreed⟩
  | @onward h middle last more pass later ih =>
      have result := httpPass_cases inv pass
      subst number
      have number : middle.peer.conn = h.peer.conn := by
        obtain ⟨events, moves⟩ := result.moves_again inv
        exact moves.conn
      refine ih (result.valid inv) number (result.own own fun _ => Pass.noConfusion) ?_
      by_cases state : h.task.state = .recvHeader
      · rw [Unfreed, if_pos state] at unfreed
        cases result with
        | headerGood here scanning read whole good took =>
            cases read
            rw [Unfreed, if_neg took.underway, took.requests]
            exact unfreed
        | bodyWhole here | generated here | headSent here | staticHead here | staticPost here
        | fileDone here =>
            rw [state] at here
            cases here
      · obtain ⟨_, underway, requests⟩ := result.quiet state
        change middle.task.state ≠ .recvHeader at underway
        change middle.task.requests = h.task.requests at requests
        rw [Unfreed, if_neg state] at unfreed
        rwa [Unfreed, if_neg underway, requests]

/-- The calls of `free_request` after the loop get the Request of their own request, and it was
not freed before. -/
def FreesOwn (cfg : Config) (ledger : Ledger peers) (p : Fin peers) (os : Os) : Prop :=
  (ledger.sys.session p).closed = false → ∀ task,
    (ledger.sys.session p).peer.httpTask = .live task → task.state ≠ .processingCgi →
    ∀ h, Reaches cfg os ⟨ledger.sys.request, task, (ledger.sys.session p).peer⟩ h →
      h.task.state = .finished →
      pointee h.request = some ((p : Nat), h.task.requests) ∧
        ((p : Nat), h.task.requests) ∉ ledger.heap.freed

theorem Balanced.freesOwn {start : System peers} {past : List (Fin peers × PeerEvent)}
    {ledger : Ledger peers} (agrees : Agrees cfg start past ledger.sys)
    (balanced : Balanced ledger) (p : Fin peers) (os : Os) : FreesOwn cfg ledger p os := by
  intro isOpen task live _ h reaches finished
  obtain ⟨same, inv⟩ := agrees.inv p isOpen
  cases live.symm.trans inv.live
  have owns := agrees.owns p
  obtain ⟨current, isLive, books, _⟩ := balanced.books p
  cases isLive.symm.trans live
  have unfreed : Unfreed p ledger.heap task := by
    rw [Unfreed, ← List.count_eq_zero]
    split
    · have none := books.later (task.requests + 1) (Nat.lt_succ_self _)
      have shared := books.shared (task.requests + 1)
      omega
    · next state =>
        have once := books.once task.requests
        have shared := books.shared task.requests
        have underway := books.live task.requests
        rw [if_pos ⟨state, rfl⟩] at underway
        omega
  obtain ⟨own, notFreed⟩ := reaches.unfreed ⟨inv.valid, inv.sending, inv.receiving⟩ owns.number
    (owns.own isOpen task live) unfreed
  have underway : h.task.state ≠ .recvHeader := by simp [finished]
  obtain ⟨cell, isCell, number, req⟩ := own underway
  rw [Unfreed, if_neg underway] at notFreed
  refine ⟨?_, notFreed⟩
  rw [isCell, pointee, number, req]

end Ledger

structure RequestsFreedOnce {peers : Nat} (cfg : Config) (start : System peers)
    (events : List (Fin peers × PeerEvent)) : Prop where
  freed : ∀ ledger, ledgerRun cfg events ⟨start, .empty⟩ = .ok ledger → FreedOnce ledger
  given : ∀ front p os back ledger, events = front ++ (p, .call os) :: back →
    ledgerRun cfg front ⟨start, .empty⟩ = .ok ledger → FreesOwn cfg ledger p os

/-- When requests are taken one at a time and no connection is closed with its request underway,
every Request is freed once. -/
theorem requests_freed_once {peers : Nat} {cfg : Config} {start : System peers}
    (fresh : start.Fresh) (events : List (Fin peers × PeerEvent))
    (own : ∀ event ∈ events, event.2.own = true)
    (guard : Run.guarded (sysStep cfg) (orderly cfg) events start = true) :
    RequestsFreedOnce cfg start events := by
  constructor
  · intro ledger ran
    obtain ⟨agrees, balanced⟩ := ledgerRun_balanced fresh.agrees fresh.balanced own guard ran
    exact balanced.freedOnce agrees
  · intro front p os back ledger split reached
    have ownFront : ∀ event ∈ front, event.2.own = true := fun event member =>
      own event (by rw [split]; exact List.mem_append_left _ member)
    have guardFront : Run.guarded (sysStep cfg) (orderly cfg) front start = true :=
      Run.guarded_front (split ▸ guard)
    obtain ⟨agrees, balanced⟩ :=
      ledgerRun_balanced fresh.agrees fresh.balanced ownFront guardFront reached
    exact balanced.freesOwn agrees p os

theorem requests_freed_once_inTurn : RequestsFreedOnce sampleConfig twoPeers inTurn :=
  requests_freed_once twoPeers_fresh inTurn (by decide) (by decide +kernel)

def shutDownWaiting : List (Fin 2 × PeerEvent) :=
  [.deliver (str "POST / HTTP/1.1\r\nContent-Length: 1\r\n\r\n"), .call (sampleOs true),
   .recv .shutdown].map (⟨0, Nat.zero_lt_two⟩, ·)

/-- Its Request is never freed. -/
theorem request_lost : ¬ RequestsFreedOnce sampleConfig twoPeers shutDownWaiting := by
  intro freed
  have lost : ((ledgerRun sampleConfig shutDownWaiting ⟨twoPeers, .empty⟩).map fun ledger =>
      (ledger.heap.live, (ledger.sys.session 0).current, (ledger.sys.session 1).current)) =
      .ok ([(0, 1)], none, none) := by
    decide +kernel
  cases ran : ledgerRun sampleConfig shutDownWaiting ⟨twoPeers, .empty⟩ with
  | error fault =>
      rw [ran] at lost
      cases lost
  | ok ledger =>
      rw [ran] at lost
      have known := Except.ok.inj lost
      simp only [Prod.mk.injEq] at known
      obtain ⟨live, first, second⟩ := known
      have member : ((0, 1) : RequestId) ∈ ledger.heap.live := by simp [live]
      obtain ⟨p, current⟩ := ((freed.freed ledger ran).live (0, 1)).mp member
      match p with
      | 0 => rw [first] at current; cases current
      | 1 => rw [second] at current; cases current

end Liso
