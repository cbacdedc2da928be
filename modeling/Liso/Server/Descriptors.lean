import Liso.Lib.Holdings
import Liso.Server.Turns

/-! The descriptors that the server holds besides its listening socket: which of them are
in use, and when one is neither in use nor closed. -/

namespace Liso

open Holdings (Op Leads)

def Event.descriptor : Event → Option (Op Nat)
  | .opened fd => some (.acquire fd)
  | .closed fd => some (.release fd)
  | _ => none

def descriptorOps (events : List Event) : List (Op Nat) := events.filterMap Event.descriptor

theorem descriptorOps_quiet {events : List Event}
    (quiet : ∀ event ∈ events, event.descriptor = none) : descriptorOps events = [] :=
  List.filterMap_eq_nil_iff.mpr quiet

def Exchanges (before after : Peer) (held left : Multiset Nat) : Prop :=
  ∃ events, after.trace = before.trace ++ events ∧ Leads (descriptorOps events) held left

namespace Exchanges

variable {before middle after : Peer} {held between left : Multiset Nat}

theorem quiet {events : List Event} (added : after.trace = before.trace ++ events)
    (quiet : ∀ event ∈ events, event.descriptor = none) (same : left = held) :
    Exchanges before after held left := by
  refine ⟨events, added, ?_⟩
  rw [descriptorOps_quiet quiet, same]
  exact .refl held

theorem same (trace : after.trace = before.trace) (same : left = held) :
    Exchanges before after held left :=
  quiet (trace.trans (List.append_nil _).symm) (List.forall_mem_nil _) same

theorem puts {bytes : List OutByte} (puts : Puts before bytes after) (same : left = held) :
    Exchanges before after held left := by
  obtain ⟨sendingBuffer, rfl⟩ := puts.frame
  refine quiet rfl (fun event member => ?_) same
  obtain ⟨byte, _, rfl⟩ := List.mem_map.mp member
  rfl

theorem record {events : List Event} (leads : Leads (descriptorOps events) held left) :
    Exchanges before (before.record events) held left :=
  ⟨events, rfl, leads⟩

theorem trans (first : Exchanges before middle held between)
    (second : Exchanges middle after between left) : Exchanges before after held left := by
  obtain ⟨front, added, leads⟩ := first
  obtain ⟨back, more, onward⟩ := second
  refine ⟨front ++ back, by rw [more, added, List.append_assoc], ?_⟩
  rw [descriptorOps, List.filterMap_append]
  exact leads.trans onward

theorem frame (exchanged : Exchanges before after held left) (other : Multiset Nat) :
    Exchanges before after (other + held) (other + left) := by
  obtain ⟨events, added, leads⟩ := exchanged
  exact ⟨events, added, leads.frame_left other⟩

end Exchanges

def fileDescriptor : Ptr File → Multiset Nat
  | .live file => {file.fd}
  | _ => 0

/-- The file of a task that streams it, or will when the head is sent. -/
def openFile (task : HttpTask) : Multiset Nat :=
  if task.state = .sendBody ∨ task.state = .sendHeader ∧ afterHead task = .sendBody then
    fileDescriptor task.fp
  else 0

def pipeEnds : Ptr CgiExecutor → Multiset Nat
  | .live executor => {executor.stdinPipe.writeEnd, executor.stdoutPipe.readEnd}
  | _ => 0

def inUse (client : Peer) : Multiset Nat :=
  pipeEnds client.cgiExecutor +
    match client.httpTask with
    | .live task => openFile task
    | _ => 0

def descriptors (client : Peer) : Multiset Nat := client.socket.toList + inUse client

theorem openFile_other {task : HttpTask} (notBody : task.state ≠ .sendBody)
    (notHeader : task.state ≠ .sendHeader) : openFile task = 0 := by
  simp [openFile, notBody, notHeader]

def Handling.holds (h : Handling) : Multiset Nat :=
  pipeEnds h.peer.cgiExecutor + openFile h.task

def canOpen (cfg : Config) (os : Os) (request : Request) : Bool :=
  match makeFullPath cfg.wwwDir request with
  | .error _ => false
  | .ok (fullpath, _) => os.access fullpath && (os.fopen (loweredPath fullpath)).isSome

def opensForHead (cfg : Config) (os : Os) (h : Handling) : Bool :=
  match h.request with
  | .live cell =>
      h.task.state = .checkCgi && h.task.methodType = .head && !isCgi cell.request.httpUri &&
        canOpen cfg os cell.request
  | _ => false

def callOpensForHead (cfg : Config) (os : Os) : Nat → Handling → Bool
  | 0, _ => false
  | fuel + 1, h =>
      opensForHead cfg os h ||
        match httpPass cfg os h with
        | .ok (.again next) => callOpensForHead cfg os fuel next
        | _ => false

section Calls

variable {cfg : Config} {os : Os} {h next : Handling} {pass : Pass}

private theorem streams_exchanges {file : File} {status : StreamStatus} {fp : Ptr File}
    {peer : Peer} {task : HttpTask} (streamed : FileStreamed file h.peer (status, fp, peer))
    (state : h.task.state = .sendBody) (opened : h.task.fp = .live file)
    (left : openFile task = fileDescriptor fp) :
    Exchanges h.peer peer h.holds (Handling.holds ⟨h.request, task, peer⟩) := by
  have before : openFile h.task = {file.fd} := by simp [openFile, state, opened, fileDescriptor]
  have executor : peer.cgiExecutor = h.peer.cgiExecutor := by
    cases streamed with
    | notDone split puts full => obtain ⟨sendingBuffer, rfl⟩ := puts.frame; rfl
    | error fails puts => obtain ⟨sendingBuffer, rfl⟩ := puts.frame; rfl
    | done ends puts => obtain ⟨sendingBuffer, rfl⟩ := puts.frame; rfl
  simp only [Handling.holds, executor, before, left]
  refine Exchanges.frame ?_ _
  cases streamed with
  | notDone split puts full => exact .puts puts rfl
  | error fails puts => exact (Exchanges.puts puts rfl).trans (.record (.release file.fd 0))
  | done ends puts => exact (Exchanges.puts puts rfl).trans (.record (.release file.fd 0))

theorem openFile_afterHead {task : HttpTask}
    (state : task.state = .sendHeader) (responseBuf : Cbuf OutByte) :
    openFile { task with responseBuf, state := afterHead { task with responseBuf } } =
      openFile task := by
  have same : afterHead { task with responseBuf } = afterHead task := rfl
  rw [same]
  rcases afterHead_cases task with body | finished
  · simp [openFile, state, body]
  · simp [openFile, state, finished]

private theorem pipes_opened (pending : Bytes) (stdinPipe stdoutPipe : Pipe) :
    Leads (descriptorOps (.cgiBuffered pending :: pipeEvents stdinPipe stdoutPipe)) 0
      {stdinPipe.writeEnd, stdoutPipe.readEnd} := by
  have order : stdoutPipe.readEnd ::ₘ stdinPipe.writeEnd ::ₘ {stdinPipe.readEnd} =
      stdinPipe.readEnd ::ₘ {stdinPipe.writeEnd, stdoutPipe.readEnd} := by
    rw [Multiset.cons_swap, ← Multiset.cons_zero, Multiset.cons_swap stdoutPipe.readEnd]
    exact Multiset.cons_swap ..
  have opened := ((Leads.acquire stdinPipe.readEnd 0).trans (.acquire stdinPipe.writeEnd _)).trans
    (.acquire stdoutPipe.readEnd _)
  have kept := opened.trans (.both stdoutPipe.writeEnd _)
  rw [Multiset.cons_zero, order] at kept
  exact kept.trans (.release stdinPipe.readEnd _)

theorem Written.openFile {task : HttpTask} (inv : h.Inv) (state : h.task.state = .generateHeader)
    (written : Written h.task (nonbodyHead h.task.responseCode) task) :
    Liso.openFile { task with state := .sendHeader } = 0 := by
  have ready := inv.task.ready
  simp only [HttpTask.Ready, state] at ready
  obtain ⟨valid, _, okPost⟩ := ready
  obtain ⟨responseBuf, rfl⟩ := written.frame
  have ends : afterHead { h.task with responseBuf, state := .sendHeader } = .finished :=
    afterHead_nonbody valid okPost
  simp [Liso.openFile, ends]

private theorem GetHeader.leads {request changed : Request} {code : Int} {task : HttpTask}
    {events : List Event}
    (calm : canOpen cfg os request = true → h.task.methodType = .get)
    (found : GetHeader cfg os h.task request h.task.lastRequest (code, task, changed, events)) :
    Leads (descriptorOps events) 0 (openFile { task with
      responseCode := code
      state := if code = okNum then .sendHeader else .generateHeader }) := by
  cases found with
  | missing path absent =>
      rw [if_neg (by decide), openFile_other (by simp) (by simp)]
      exact .refl 0
  | unopened path present written described noFile =>
      rw [if_neg (by decide), openFile_other (by simp) (by simp)]
      exact .refl 0
  | @opened fullpath _ middle facts file path present written described hasFile =>
      have get := calm (by simp [canOpen, path, present, hasFile])
      obtain ⟨responseBuf, rfl⟩ := written.frame
      have sends : afterHead { h.task with
          responseBuf, fp := .live { file with req := h.task.requests }
          responseCode := okNum, state := .sendHeader } = .sendBody := by
        have fine : errorCode okNum = false := rfl
        simp [afterHead, fine, get]
      simp only [if_pos, openFile, sends, fileDescriptor]
      exact .acquire file.fd 0

theorem PassCases.exchanges (inv : h.Inv) (calm : opensForHead cfg os h = false)
    (result : PassCases cfg os h pass) :
    Exchanges h.peer pass.handling.peer h.holds pass.handling.holds := by
  have idle (task : HttpTask) (state : task.state ≠ .sendBody ∧ task.state ≠ .sendHeader) :
      openFile task = 0 := openFile_other state.1 state.2
  cases result with
  | headerShort state scanning read =>
      cases read
      exact .same rfl rfl
  | headerLong state scanning read =>
      cases read
      exact .same rfl rfl
  | headerBad state scanning read whole bad =>
      cases read
      refine .quiet rfl ?_ rfl
      simp [Event.descriptor]
  | @headerGood text block next taken left request state scanning read whole good took =>
      cases read
      have after : openFile taken = 0 := idle taken (by cases took <;> simp)
      refine .quiet rfl ?_ ?_
      · split <;> simp [Event.descriptor]
      · simp only [Handling.holds, Pass.handling, after, idle h.task (by simp [state])]
        rfl
  | bodyShort state part read =>
      cases read
      exact .same rfl rfl
  | @bodyWhole text next left state part read =>
      cases read
      refine .quiet rfl (by simp [Event.descriptor]) ?_
      simp only [Handling.holds, Pass.handling, idle h.task (by simp [state])]
      rw [idle _ (by simp)]
      rfl
  | @generated next state written =>
      have none := written.openFile inv state
      obtain ⟨responseBuf, rfl⟩ := written.frame
      refine .same rfl ?_
      simp only [Handling.holds, Pass.handling, none, idle h.task (by simp [state])]
  | @headSent ret sent peer state result =>
      obtain ⟨front, puts, _⟩ := result.puts
      obtain ⟨responseBuf, rfl, _⟩ := result.left
      refine .puts puts ?_
      obtain ⟨sendingBuffer, rfl⟩ := puts.frame
      simp only [Handling.holds, Pass.handling, openFile_afterHead state]
  | @cgiStarted cell peer state live cgi started fed =>
      have vacant := started.vacant
      obtain ⟨executor, _, _, rfl⟩ := started.started
      refine .record ?_
      have before : openFile h.task = 0 := idle _ (by simp [state])
      have after : openFile { h.task with state := .processingCgi } = 0 := idle _ (by simp)
      simp only [Handling.holds, Pass.handling, vacant, before, after, pipeEnds, Peer.record,
        add_zero]
      exact pipes_opened _ _ _
  | @staticHead cell code next changed events state live static method found =>
      refine .record ?_
      have before : openFile h.task = 0 := idle _ (by simp [state])
      simp only [Handling.holds, Pass.handling, before, Peer.record]
      refine Leads.frame_left (found.leads fun opens => ?_) _
      refine method.resolve_right fun head => ?_
      simp [opensForHead, live, state, head, static, opens] at calm
  | staticPost state live static post =>
      refine .same rfl ?_
      simp only [Handling.holds, Pass.handling, idle h.task (by simp [state])]
      rw [idle _ (by simp)]
  | fileWaits state opened streamed =>
      apply streams_exchanges streamed state opened
      simp [openFile, state]
  | fileFails state opened streamed =>
      apply streams_exchanges streamed state opened
      simp [openFile, state]
  | fileDone state opened streamed =>
      apply streams_exchanges streamed state opened
      cases streamed
      simp [openFile, fileDescriptor]

theorem httpLoop_exchanges {fuel : Nat} {code : Code} (inv : h.Inv)
    (calm : callOpensForHead cfg os fuel h = false)
    (ran : httpLoop cfg os fuel h = some (.ok (code, next))) :
    Exchanges h.peer next.peer h.holds next.holds := by
  induction fuel generalizing h with
  | zero => cases ran
  | succ fuel ih =>
      rw [callOpensForHead, Bool.or_eq_false_iff] at calm
      obtain ⟨now, later⟩ := calm
      rw [httpLoop] at ran
      split at ran
      · next state =>
          have before : openFile h.task = 0 := openFile_other (by simp [state]) (by simp [state])
          rcases finishRequest_cases (Option.some.inj ran) with ⟨_, ⟨_, rfl⟩ | ⟨_, _, rfl⟩⟩
          · refine .same rfl ?_
            simp only [Handling.holds, before]
            rfl
          · refine .quiet rfl (by simp [Event.descriptor]) ?_
            simp only [Handling.holds, before]
            rfl
      · cases passed : httpPass cfg os h with
        | error fault =>
            simp only [passed] at ran
            cases ran
        | ok pass =>
            have result := httpPass_cases inv passed
            have first := result.exchanges inv now
            simp only [passed] at ran later
            cases pass with
            | returns code stopped =>
                cases ran
                exact first
            | again middle => exact first.trans (ih (result.valid inv) later ran)

end Calls

/-- The step leaves something open that is in use no more: the pipes of a child that has ended, or
a file that was opened for a HEAD request. -/
def Session.leaks (cfg : Config) (s : Session) : PeerEvent → Bool
  | .call os =>
      match s.peer.httpTask with
      | .live task =>
          decide (task.state ≠ .processingCgi) &&
            callOpensForHead cfg os 7 ⟨s.request, task, s.peer⟩
      | _ => false
  | .fromCgi answer =>
      match s.peer.cgiExecutor with
      | .live _ => !bufFull s.peer.sendingBuffer && answer = some []
      | _ => false
  | _ => false

section Session

variable {cfg : Config} {s t : Session} {task : HttpTask} {event : PeerEvent}

theorem inUse_live {client : Peer} (live : client.httpTask = .live task) :
    inUse client = pipeEnds client.cgiExecutor + openFile task := by
  simp only [inUse, live]

theorem StepCases.exchanges (isOpen : s.closed = false) (inv : s.peer.Inv task)
    (calm : s.leaks cfg event = false) (stepped : sessionStep cfg s event = .ok t)
    (step : StepCases cfg s task event t) :
    Exchanges s.peer t.peer (inUse s.peer) (inUse t.peer) := by
  cases step with
  | deliver got =>
      cases got with
      | nothing => exact .same rfl rfl
      | bytes bufInv content => exact .quiet rfl (by simp [Event.descriptor]) rfl
  | recv got =>
      cases got with
      | nothing => exact .same rfl rfl
      | bytes bufInv content => exact .quiet rfl (by simp [Event.descriptor]) rfl
  | @call os code h called effect valid =>
      have told : Exchanges { h.peer with httpTask := .live h.task }
          (afterCall code h.request { h.peer with httpTask := .live h.task }).peer h.holds
          (inUse (afterCall code h.request { h.peer with httpTask := .live h.task }).peer) := by
        cases code <;> exact .quiet rfl (by simp [Event.descriptor]) rfl
      refine Exchanges.trans ?_ told
      have whole : h.holds = inUse { h.peer with httpTask := .live h.task } := rfl
      rw [inUse_live inv.live, whole]
      rcases handleHttp_cases inv.live called with
        ⟨_, _, _, peer⟩ | ⟨notWaiting, next, _, peer, ran⟩
      · rw [peer]
        exact .same rfl (inUse_live inv.live)
      · have opens : callOpensForHead cfg os 7 ⟨s.request, task, s.peer⟩ = false := by
          simpa [Session.leaks, inv.live, notWaiting] using calm
        rw [peer]
        exact httpLoop_exchanges ⟨inv.valid, inv.sending, inv.receiving⟩ opens ran
  | send sent =>
      cases sent with
      | nothing empty => exact .same rfl rfl
      | accepted count answered bufInv left => exact .quiet rfl (by simp [Event.descriptor]) rfl
      | failed bufInv => exact .same rfl rfl
  | toCgi child sent =>
      cases sent with
      | nothing empty => exact .same rfl rfl
      | accepted count bufInv left =>
          refine .quiet rfl (by simp [Event.descriptor]) ?_
          simp only [inUse, child, Peer.record, pipeEnds]
      | failed bufInv refused =>
          refine .same rfl ?_
          simp only [inUse, child, pipeEnds]
  | @fromCgi answer executor status peer child piped =>
      cases piped with
      | full => exact .same rfl rfl
      | failed => exact .same rfl rfl
      | ended live =>
          -- without room for its output the end of the child is not looked for
          have full : bufFull s.peer.sendingBuffer = true := by
            simpa [Session.leaks, child] using calm
          simp only [sessionStep, isOpen, withChild, child, pipeFromCgiProcessToClient, full,
            if_true, Bool.false_eq_true, if_false] at stepped
          have same := congrArg (fun t => t.peer.cgiExecutor) (Except.ok.inj stepped)
          rw [child] at same
          cases same
      | @piped bytes data next taken puts =>
          have read : Exchanges s.peer (s.peer.record [.cgiRead data]) (inUse s.peer)
              (inUse s.peer) := .quiet rfl (by simp [Event.descriptor]) rfl
          refine read.trans (.puts puts ?_)
          obtain ⟨sendingBuffer, rfl⟩ := puts.frame
          rfl
  | noChild => exact .same rfl rfl
  | others => exact .same rfl rfl

theorem StepCases.descriptors_exchanges (isOpen : s.closed = false) (inv : s.peer.Inv task)
    (calm : s.leaks cfg event = false) (stepped : sessionStep cfg s event = .ok t)
    (step : StepCases cfg s task event t) :
    Exchanges s.peer t.peer (descriptors s.peer) (descriptors t.peer) := by
  unfold descriptors
  rw [step.socket]
  exact (step.exchanges isOpen inv calm stepped).frame _

theorem sessionRun_exchanges {events : List PeerEvent} (inv : s.Inv)
    (calm : Run.guarded (sessionStep cfg) (fun s event => !s.leaks cfg event) events s = true)
    (ran : sessionRun cfg events s = .ok t) :
    Exchanges s.peer t.peer (descriptors s.peer) (descriptors t.peer) := by
  induction events generalizing s with
  | nil =>
      cases ran
      exact .same rfl rfl
  | cons event events ih =>
      obtain ⟨now, later⟩ := Run.guarded_cons calm
      obtain ⟨middle, stepped, rest⟩ := Run.run_cons_ok.mp ran
      have onward := ih (sessionStep_inv inv stepped) (later middle stepped) rest
      cases isOpen : s.closed with
      | true =>
          rw [sessionStep_closed isOpen] at stepped
          cases stepped
          exact onward
      | false =>
          obtain ⟨task, valid⟩ := inv isOpen
          have step := sessionStep_cases isOpen valid stepped
          have calmly : s.leaks cfg event = false := by simpa using now
          exact (step.descriptors_exchanges isOpen valid calmly stepped).trans onward

end Session

/-- The turn leaves something open that is in use no more: one of its steps does, or
`close_client_connection` is called for a connection that has a child or a file. -/
def Turn.leaks (cfg : Config) (round : Round) (turn : Turn) : Bool :=
  let steps := clientSteps round turn.i turn.fds turn.request turn.client
  let start : Session := ⟨turn.request, turn.client, false⟩
  !Run.guarded (sessionStep cfg) (fun s event => !s.leaks cfg event) steps start ||
    match sessionRun cfg steps start with
    | .ok t => turn.closes cfg round && decide (inUse t.peer ≠ 0)
    | .error _ => false

def Turn.events (cfg : Config) (round : Round) (turn : Turn) : List Event :=
  match turn.served cfg round with
  | .ok served => served.client.trace.drop turn.client.trace.length
  | .error _ => []

structure Settled (slot : Peer) : Prop where
  tidy : Tidy slot
  free : slot.socket = none → inUse slot = 0

theorem createPeer_settled : Settled createPeer := ⟨createPeer_tidy, fun _ => rfl⟩

section Turns

variable {cfg : Config} {round : Round} {turn : Turn} {served : Served}

theorem Exchanges.drop {before after : Peer} {held left : Multiset Nat}
    (exchanged : Exchanges before after held left) :
    Leads (descriptorOps (after.trace.drop before.trace.length)) held left := by
  obtain ⟨events, added, leads⟩ := exchanged
  rwa [added, List.drop_left]

private theorem closing_exchanges {client slot : Peer}
    (linked : Linked client) (closing : closeClientConnection client = .ok slot)
    (idle : inUse client = 0) :
    Settled slot ∧ Exchanges client slot (descriptors client) (descriptors slot) := by
  obtain ⟨task, live, _⟩ := id linked
  have vacant : client.cgiExecutor = .null := by
    cases child : client.cgiExecutor with
    | null => rfl
    | live executor =>
        rw [inUse, child] at idle
        simp [pipeEnds] at idle
    | freed =>
        exact absurd child (closeClientConnection_ok.mp closing).2.1
  have closes : ∃ other, hangUp .null client = .ok ⟨.null, other, true⟩ ∧ Tidy other ∧
      other.socket = none := hangUp_tidy linked vacant
  obtain ⟨other, hung, tidy, free⟩ := closes
  rw [hangUp, closing] at hung
  cases hung
  obtain ⟨_, _, rfl⟩ := closeClientConnection_ok.mp closing
  have nothing : inUse (closedSlot client) = 0 := by
    simp [inUse, pipeEnds, closedSlot, Peer.record, live, vacant, Ptr.afterFree]
  refine ⟨⟨tidy, fun _ => nothing⟩, _, rfl, ?_⟩
  rw [descriptors, descriptors, idle, nothing, free, add_zero]
  change Leads (descriptorOps (client.socket.toList.map .closed)) _ 0
  cases client.socket with
  | none => exact .refl 0
  | some fd => exact .release fd 0

theorem turn_exchanges (settled : Settled turn.client) (calm : turn.leaks cfg round = false)
    (ran : turn.served cfg round = .ok served) :
    Settled served.client ∧
      Leads (descriptorOps (turn.events cfg round)) (descriptors turn.client)
        (descriptors served.client) := by
  have events : turn.events cfg round =
      served.client.trace.drop turn.client.trace.length := by
    rw [Turn.events, ran]
  rw [events]
  cases socket : turn.client.socket with
  | none =>
      have vacant := (settled.tidy.free socket).2
      have idle : turn.served cfg round = .ok ⟨turn.request, turn.client, false⟩ := by
        simp only [Turn.served, serveClient, servePipes, vacant, socket]
      rw [idle] at ran
      cases ran
      exact ⟨settled, (Exchanges.same rfl rfl).drop⟩
  | some fd =>
      have used : turn.client.socket ≠ none := by simp [socket]
      have sound := settled.tidy.used used
      obtain ⟨inv, ordered⟩ := sound turn.request
      obtain ⟨t, reached, request, outcome⟩ := serveClient_takes ran
      have stillInv := sessionRun_inv inv reached
      have stillOrdered := sessionRun_ordered inv ordered reached
      have same := sessionRun_socket inv reached
      rw [Turn.leaks, reached, Bool.or_eq_false_iff, Bool.not_eq_false'] at calm
      obtain ⟨steps, closing⟩ := calm
      have exchanged := sessionRun_exchanges inv steps reached
      rcases outcome with ⟨isOpen, tOpen, kept⟩ | ⟨closed, left⟩
      · rw [kept]
        refine ⟨⟨⟨fun free => ?_, fun _ request => ?_⟩, fun free => ?_⟩, exchanged.drop⟩
        · exact absurd (same.symm.trans free) used
        · exact ⟨fun _ => stillInv tOpen,
            ⟨stillOrdered.linked, stillOrdered.sorted, fun _ => stillOrdered.current tOpen⟩⟩
        · exact absurd (same.symm.trans free) used
      · have closes : turn.closes cfg round = true := by
          rw [Turn.closes, ran]
          exact closed
        have idle : inUse t.peer = 0 := by simpa [closes] using closing
        obtain ⟨clean, last⟩ := closing_exchanges stillOrdered.linked left idle
        exact ⟨clean, (exchanged.trans last).drop⟩

end Turns

def allDescriptors (connectionList : List Peer) : Multiset Nat :=
  (connectionList.map descriptors).sum

section Lists

variable {cfg : Config} {round : Round} {fds : FdSets}

theorem allDescriptors_cons (client : Peer) (rest : List Peer) :
    allDescriptors (client :: rest) = descriptors client + allDescriptors rest := by
  rw [allDescriptors, List.map_cons, List.sum_cons, allDescriptors]

theorem allDescriptors_unused (count : Nat) :
    allDescriptors (List.replicate count createPeer) = 0 := by
  induction count with
  | zero => rfl
  | succ count ih =>
      rw [List.replicate_succ, allDescriptors_cons, ih]
      rfl

theorem turns_exchanges {i closes : Nat} {request after : Ptr RequestCell}
    {connectionList served : List Peer} (settled : ∀ slot ∈ connectionList, Settled slot)
    (calm : (turns cfg round fds i request connectionList).all
      (fun turn => !turn.leaks cfg round) = true)
    (ran : serveClients cfg round fds i request connectionList = .ok (after, served, closes)) :
    (∀ slot ∈ served, Settled slot) ∧
      Leads (descriptorOps ((turns cfg round fds i request connectionList).flatMap
        (Turn.events cfg round))) (allDescriptors connectionList) (allDescriptors served) := by
  induction connectionList generalizing i request after served closes with
  | nil =>
      cases ran
      exact ⟨settled, .refl 0⟩
  | cons client rest ih =>
      rw [serveClients] at ran
      cases first : serveClient cfg round i fds request client with
      | error fault =>
          simp only [first] at ran
          cases ran
      | ok result =>
          simp only [first] at ran
          cases rested : serveClients cfg round fds (i + 1) result.request rest with
          | error fault =>
              simp only [rested] at ran
              cases ran
          | ok answer =>
              obtain ⟨last, slots, count⟩ := answer
              simp only [rested] at ran
              cases ran
              simp only [turns, first, List.all_cons, Bool.and_eq_true, Bool.not_eq_true'] at calm
              obtain ⟨now, later⟩ := calm
              obtain ⟨clean, leads⟩ :=
                turn_exchanges (settled client List.mem_cons_self) now first
              have others : ∀ slot ∈ rest, Settled slot := fun slot member =>
                settled slot (List.mem_cons_of_mem client member)
              obtain ⟨cleanRest, onward⟩ := ih others later rested
              refine ⟨List.forall_mem_cons.mpr ⟨clean, cleanRest⟩, ?_⟩
              simp only [turns, first, List.flatMap_cons]
              rw [descriptorOps, List.filterMap_append, allDescriptors_cons, allDescriptors_cons]
              exact (leads.frame _).trans (onward.frame_left _)

theorem acceptInto_settled {slot : Peer} (settled : Settled slot) (free : slot.socket = none)
    (newClientSock : Nat) (clientAddr : Address) (conn : Nat) :
    Settled (acceptInto slot newClientSock clientAddr conn) ∧
      descriptors (acceptInto slot newClientSock clientAddr conn) =
        newClientSock ::ₘ descriptors slot := by
  obtain ⟨vacant, noChild⟩ := settled.tidy.free free
  refine ⟨⟨acceptInto_tidy vacant noChild newClientSock clientAddr conn, nofun⟩, ?_⟩
  have before : descriptors slot = 0 := by
    rw [descriptors, free, settled.free free]
    rfl
  rw [before, descriptors, inUse]
  simp only [acceptInto, noChild, pipeEnds]
  rw [openFile_other (by decide) (by decide)]
  rfl

def acceptEvents (answer : Option (Nat × Address)) (connectionList : List Peer) : List Event :=
  match answer with
  | none => []
  | some (newClientSock, _) =>
      if connectionList.any fun client => client.socket.isNone then [.opened newClientSock]
      else [.opened newClientSock, .closed newClientSock]

theorem storeConnection_exchanges {connectionList : List Peer}
    (settled : ∀ slot ∈ connectionList, Settled slot) (newClientSock : Nat)
    (clientAddr : Address) (conn : Nat) :
    (∀ slot ∈ storeConnection (acceptInto · newClientSock clientAddr conn) connectionList,
        Settled slot) ∧
      Leads (descriptorOps (acceptEvents (some (newClientSock, clientAddr)) connectionList))
        (allDescriptors connectionList)
        (allDescriptors
          (storeConnection (acceptInto · newClientSock clientAddr conn) connectionList)) := by
  induction connectionList with
  | nil => exact ⟨settled, .both newClientSock 0⟩
  | cons client rest ih =>
      have mine := settled client List.mem_cons_self
      have others : ∀ slot ∈ rest, Settled slot := fun slot member =>
        settled slot (List.mem_cons_of_mem client member)
      cases socket : client.socket with
      | none =>
          obtain ⟨clean, held⟩ := acceptInto_settled mine socket newClientSock clientAddr conn
          have free : client.socket.isNone = true := by rw [socket]; rfl
          rw [storeConnection, if_pos free, allDescriptors_cons, allDescriptors_cons, held,
            Multiset.cons_add]
          refine ⟨List.forall_mem_cons.mpr ⟨clean, others⟩, ?_⟩
          simp only [acceptEvents, List.any_cons, free, Bool.true_or, if_true]
          exact .acquire newClientSock _
      | some fd =>
          obtain ⟨clean, leads⟩ := ih others
          have used : ¬ client.socket.isNone = true := by simp [socket]
          rw [storeConnection, if_neg used, allDescriptors_cons, allDescriptors_cons]
          refine ⟨List.forall_mem_cons.mpr ⟨mine, clean⟩, ?_⟩
          have same : acceptEvents (some (newClientSock, clientAddr)) (client :: rest) =
              acceptEvents (some (newClientSock, clientAddr)) rest := by
            simp [acceptEvents, socket]
          rw [same]
          exact leads.frame_left _

end Lists

def passEvents (cfg : Config) (server : Server) (round : Round) : List Event :=
  (match buildFdSets server.httpSockFd server.connectionList,
      highSock server.httpSockFd server.connectionList with
    | .ok sets, .ok high =>
        if server.httpSockFd ∈ (select round high sets).read then
          acceptEvents round.accept server.connectionList
        else []
    | _, _ => []) ++
  (passTurns cfg server round).flatMap (Turn.events cfg round)

/-- The server, and the descriptors that it holds besides its listening socket and the standard
streams. -/
structure Process where
  server : Server
  held : Multiset Nat

def processStep (cfg : Config) (process : Process) (round : Round) : Except Fault Process :=
  (serverStep cfg process.server round).map fun server =>
    ⟨server, Holdings.run (descriptorOps (passEvents cfg process.server round)) process.held⟩

def processRun (cfg : Config) (rounds : List Round) (process : Process) : Except Fault Process :=
  Run.run (processStep cfg) rounds process

def leaksNothing (cfg : Config) (server : Server) (round : Round) : Bool :=
  (passTurns cfg server round).all fun turn => !turn.leaks cfg round

section Passes

variable {cfg : Config} {round : Round} {server next : Server}

theorem handleNewConnection_exchanges (answer : Option (Nat × Address))
    (settled : ∀ slot ∈ server.connectionList, Settled slot) :
    (∀ slot ∈ (handleNewConnection answer server).connectionList, Settled slot) ∧
      Leads (descriptorOps (acceptEvents answer server.connectionList))
        (allDescriptors server.connectionList)
        (allDescriptors (handleNewConnection answer server).connectionList) := by
  cases answer with
  | none => exact ⟨settled, .refl _⟩
  | some connection =>
      exact storeConnection_exchanges settled connection.1 connection.2 server.accepted

theorem pass_exchanges (settled : ∀ slot ∈ server.connectionList, Settled slot)
    (calm : leaksNothing cfg server round = true)
    (stepped : serverStep cfg server round = .ok next) :
    (∀ slot ∈ next.connectionList, Settled slot) ∧
      Leads (descriptorOps (passEvents cfg server round)) (allDescriptors server.connectionList)
        (allDescriptors next.connectionList) := by
  have looked := stepped
  rw [serverStep, bind_ok] at looked
  obtain ⟨sets, built, looked⟩ := looked
  rw [bind_ok] at looked
  obtain ⟨high, found, _⟩ := looked
  obtain ⟨accepting, closes, _, entered, passed, _, ran⟩ :=
    serverStep_turns cfg built found stepped
  rw [leaksNothing, passed] at calm
  have accepted : (∀ slot ∈ accepting.connectionList, Settled slot) ∧
      Leads (descriptorOps (if server.httpSockFd ∈ (select round high sets).read then
          acceptEvents round.accept server.connectionList else []))
        (allDescriptors server.connectionList) (allDescriptors accepting.connectionList) := by
    rw [entered]
    split
    · exact handleNewConnection_exchanges round.accept settled
    · exact ⟨settled, .refl _⟩
  obtain ⟨clean, leads⟩ := turns_exchanges accepted.1 calm ran
  refine ⟨clean, ?_⟩
  rw [passEvents, built, found, passed, descriptorOps, List.filterMap_append]
  exact accepted.2.trans leads

theorem processRun_exchanges {rounds : List Round} {process after : Process}
    (settled : ∀ slot ∈ process.server.connectionList, Settled slot)
    (held : process.held = allDescriptors process.server.connectionList)
    (calm : Run.guarded (serverStep cfg) (leaksNothing cfg) rounds process.server = true)
    (ran : processRun cfg rounds process = .ok after) :
    (∀ slot ∈ after.server.connectionList, Settled slot) ∧
      after.held = allDescriptors after.server.connectionList := by
  induction rounds generalizing process with
  | nil =>
      cases ran
      exact ⟨settled, held⟩
  | cons round rounds ih =>
      obtain ⟨now, later⟩ := Run.guarded_cons calm
      obtain ⟨middle, stepped, rest⟩ := Run.run_cons_ok.mp ran
      rw [processStep] at stepped
      cases served : serverStep cfg process.server round with
      | error fault =>
          rw [served] at stepped
          cases stepped
      | ok next =>
          rw [served] at stepped
          cases stepped
          obtain ⟨clean, leads⟩ := pass_exchanges settled now served
          refine ih clean ?_ (later next served) rest
          rw [held]
          exact leads.run_eq

end Passes

/-- What is held is what is in use: the sockets of the slots in use, the pipe ends of each child,
and the file of each task that streams one. -/
structure HeldInUse (process : Process) : Prop where
  held : process.held = allDescriptors process.server.connectionList
  free : ∀ slot ∈ process.server.connectionList, slot.socket = none → descriptors slot = 0
  between : ∀ slot ∈ process.server.connectionList, ∀ socket task, slot.socket = some socket →
    slot.httpTask = .live task → task.state = .recvHeader → descriptors slot = {socket}
  streaming : ∀ slot ∈ process.server.connectionList, ∀ socket task, slot.socket = some socket →
    slot.httpTask = .live task → task.state = .sendBody →
    ∃ file, task.fp = .live file ∧ descriptors slot = {socket, file.fd}
  running : ∀ slot ∈ process.server.connectionList, ∀ socket executor,
    slot.socket = some socket → slot.cgiExecutor = .live executor →
    descriptors slot = {socket, executor.stdinPipe.writeEnd, executor.stdoutPipe.readEnd}

theorem Settled.idle {slot : Peer} {socket : Nat} {task : HttpTask} (settled : Settled slot)
    (used : slot.socket = some socket) (live : slot.httpTask = .live task)
    (notWaiting : task.state ≠ .processingCgi) :
    descriptors slot = socket ::ₘ openFile task := by
  have sound := settled.tidy.used (by simp [used])
  have vacant : pipeEnds slot.cgiExecutor = 0 := by
    rw [sound.asserted live notWaiting]
    rfl
  calc
    descriptors slot = {socket} + (pipeEnds slot.cgiExecutor + openFile task) := by
      rw [descriptors, used, inUse_live live]
      rfl
    _ = {socket} + openFile task := by rw [vacant, zero_add]

/-- When nothing is left open that is in use no more, what is held is what is in use. -/
theorem held_in_use (cfg : Config) (httpSockFd : Nat) (rounds : List Round)
    (calm : Run.guarded (serverStep cfg) (leaksNothing cfg) rounds (initServer httpSockFd) = true)
    (process : Process) (ran : processRun cfg rounds ⟨initServer httpSockFd, 0⟩ = .ok process) :
    HeldInUse process := by
  have unused : ∀ slot ∈ (initServer httpSockFd).connectionList, slot = createPeer :=
    fun slot member => List.eq_of_mem_replicate member
  have start : ∀ slot ∈ (initServer httpSockFd).connectionList, Settled slot := by
    intro slot member
    rw [unused slot member]
    exact createPeer_settled
  have nothing : (0 : Multiset Nat) = allDescriptors (initServer httpSockFd).connectionList :=
    (allDescriptors_unused maxClients).symm
  obtain ⟨settled, held⟩ := processRun_exchanges start nothing calm ran
  have inv (slot : Peer) (member : slot ∈ process.server.connectionList)
      (used : slot.socket ≠ none) : ∃ task, slot.Inv task :=
    ((settled slot member).tidy.used used).inv
  refine ⟨held, fun slot member free => ?_, ?_, ?_, ?_⟩
  · rw [descriptors, free, (settled slot member).free free]
    rfl
  · intro slot member socket task used live state
    rw [(settled slot member).idle used live (by simp [state]),
      openFile_other (by simp [state]) (by simp [state])]
    rfl
  · intro slot member socket task used live state
    obtain ⟨same, valid⟩ := inv slot member (by simp [used])
    cases live.symm.trans valid.live
    have ready := valid.valid.ready
    simp only [HttpTask.Ready, state] at ready
    obtain ⟨_, file, opened, _⟩ := ready
    refine ⟨file, opened, ?_⟩
    rw [(settled slot member).idle used live (by simp [state])]
    simp [openFile, state, opened, fileDescriptor]
  · intro slot member socket executor used child
    obtain ⟨task, valid⟩ := inv slot member (by simp [used])
    have linked := valid.child
    rw [child] at linked
    rw [descriptors, used, inUse_live valid.live, child, pipeEnds,
      openFile_other (by simp [linked.1]) (by simp [linked.1])]
    rfl

def fileThenNonsense : List Round :=
  [readRound 3 (some (5, ⟨str "1.2.3.4", 80⟩)) .wouldBlock,
   readRound 5 none (.bytes 0x47 (str "ET /a.html HTTP/1.1\r\n\r\n")),
   readRound 5 none (.bytes 0x42 (str "AD\r\n\r\n"))]

theorem held_in_use_file : ∃ process,
    processRun sampleConfig fileThenNonsense ⟨initServer 3, 0⟩ = .ok process ∧
      HeldInUse process := by
  have calm : Run.guarded (serverStep sampleConfig) (leaksNothing sampleConfig) fileThenNonsense
      (initServer 3) = true := by
    decide +kernel
  have reached : ((processRun sampleConfig fileThenNonsense ⟨initServer 3, 0⟩).map
      fun process => process.server.closes) = .ok 1 := by
    decide +kernel
  cases ran : processRun sampleConfig fileThenNonsense ⟨initServer 3, 0⟩ with
  | error fault =>
      rw [ran] at reached
      cases reached
  | ok process => exact ⟨process, rfl, held_in_use sampleConfig 3 fileThenNonsense calm process ran⟩

def headOfFile : List Round :=
  [readRound 3 (some (5, ⟨str "1.2.3.4", 80⟩)) .wouldBlock,
   readRound 5 none (.bytes 0x48 (str "EAD /a.html HTTP/1.1\r\n\r\n"))]

/-- The file stays open, and nothing uses it. -/
theorem file_left_open : ∃ process,
    processRun sampleConfig headOfFile ⟨initServer 3, 0⟩ = .ok process ∧ ¬ HeldInUse process := by
  have left : ((processRun sampleConfig headOfFile ⟨initServer 3, 0⟩).map fun process =>
      decide (process.held = allDescriptors process.server.connectionList)) = .ok false := by
    decide +kernel
  cases ran : processRun sampleConfig headOfFile ⟨initServer 3, 0⟩ with
  | error fault =>
      rw [ran] at left
      cases left
  | ok process =>
      rw [ran] at left
      exact ⟨process, rfl, fun inUse => of_decide_eq_false (Except.ok.inj left) inUse.held⟩

end Liso
