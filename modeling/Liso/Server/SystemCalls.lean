import Liso.Lib.Processes
import Liso.Server.Leaks
import Liso.Server.Shutdown

/-! The system calls that the loop makes, in the order of the trace, with both sides of the `fork`
in `start_CGI_script`; and which descriptors the server closes: sockets, files, and of each pipe the
child's end. -/

namespace Liso

open Processes (Action Call)

/-- What the child does before `execve`: it reads from `stdin_pipe` as its standard input and
writes to `stdout_pipe` as its standard output. What comes after, the calls of the script or, if
`execve` fails, the writes of `execveFailure`, is left open. -/
def childCalls (stdinPipe stdoutPipe : Pipe) : List (Call UInt8) :=
  [.close stdoutPipe.readEnd, .dup2 stdoutPipe.writeEnd 1,
   .close stdinPipe.writeEnd, .dup2 stdinPipe.readEnd 0]

def parentCalls (stdinPipe stdoutPipe : Pipe) : List (Call UInt8) :=
  [.close stdoutPipe.writeEnd, .close stdinPipe.readEnd]

def startActions (stdinPipe stdoutPipe : Pipe) : List (Action UInt8) :=
  [.call (.pipe stdinPipe.readEnd stdinPipe.writeEnd),
   .call (.pipe stdoutPipe.readEnd stdoutPipe.writeEnd),
   .fork (childCalls stdinPipe stdoutPipe) (parentCalls stdinPipe stdoutPipe),
   .call (.close stdoutPipe.writeEnd), .call (.close stdinPipe.readEnd)]

/-- The call that an event stands for; those to and from a child are made with the descriptors of the
executor. -/
def Event.actions (executor : Ptr CgiExecutor) : Event → List (Action UInt8)
  | .opened fd => [.call (.create fd)]
  | .closed fd => [.call (.close fd)]
  | .cgiWritten bytes =>
      match executor with
      | .live executor => [.call (.write executor.stdinPipe.writeEnd bytes)]
      | _ => []
  | .cgiRead bytes =>
      match executor with
      | .live executor => [.call (.read executor.stdoutPipe.readEnd bytes)]
      | _ => []
  | .cgiEnded _ =>
      match executor with
      | .live executor => [.call (.read executor.stdoutPipe.readEnd [])]
      | _ => []
  | _ => []

/-- The calls that a trace stands for; `start_CGI_script` fills the buffer of the executor, opens the
two pipes and closes two ends of them. -/
def systemActions (executor : Ptr CgiExecutor) : List Event → List (Action UInt8)
  | .cgiBuffered _ :: .opened stdin0 :: .opened stdin1 :: .opened stdout0 :: .opened stdout1 ::
      .closed _ :: .closed _ :: rest =>
      startActions ⟨stdin0, stdin1⟩ ⟨stdout0, stdout1⟩ ++ systemActions executor rest
  | event :: rest => event.actions executor ++ systemActions executor rest
  | [] => []

def acceptedEvents (server : Server) (round : Round) : List Event :=
  match buildFdSets server.httpSockFd server.connectionList,
      highSock server.httpSockFd server.connectionList with
  | .ok sets, .ok high =>
      if server.httpSockFd ∈ (select round high sets).read then
        acceptEvents round.accept server.connectionList
      else []
  | _, _ => []

def passActions (cfg : Config) (server : Server) (round : Round) : List (Action UInt8) :=
  systemActions .null (acceptedEvents server round) ++
    (passTurns cfg server round).flatMap fun turn =>
      systemActions turn.client.cgiExecutor (turn.events cfg round)

def runActions (cfg : Config) : List Round → Server → List (Action UInt8)
  | [], _ => []
  | round :: rest, server =>
      passActions cfg server round ++
        match serverStep cfg server round with
        | .ok next => runActions cfg rest next
        | .error _ => []

def Event.plain : Event → Bool
  | .opened _ => false
  | .closed _ => false
  | .cgiBuffered _ => false
  | _ => true

/-- Of `held` and what is opened on the way at least `left` is there at the end; nothing else is
closed but the child's ends of the pipes. -/
inductive Spends : List Event → Multiset Nat → Multiset Nat → Prop
  | nil {held left : Multiset Nat} (kept : left ≤ held) : Spends [] held left
  | plain {event : Event} {rest : List Event} {held left : Multiset Nat} (plain : event.plain = true)
      (later : Spends rest held left) : Spends (event :: rest) held left
  | opened {fd : Nat} {rest : List Event} {held left : Multiset Nat}
      (later : Spends rest (fd ::ₘ held) left) : Spends (.opened fd :: rest) held left
  | closed {fd : Nat} {rest : List Event} {held left : Multiset Nat} (member : fd ∈ held)
      (later : Spends rest (held.erase fd) left) : Spends (.closed fd :: rest) held left
  | started {bytes : Bytes} {stdinPipe stdoutPipe : Pipe} {rest : List Event}
      {held left : Multiset Nat} (later : Spends rest held left) :
      Spends (.cgiBuffered bytes :: (pipeEvents stdinPipe stdoutPipe ++ rest)) held left

inductive Orderly : List (Action UInt8) → Multiset Nat → Prop
  | nil {held : Multiset Nat} : Orderly [] held
  | create {fd : Nat} {rest : List (Action UInt8)} {held : Multiset Nat}
      (later : Orderly rest (fd ::ₘ held)) : Orderly (.call (.create fd) :: rest) held
  | close {fd : Nat} {rest : List (Action UInt8)} {held : Multiset Nat} (member : fd ∈ held)
      (later : Orderly rest (held.erase fd)) : Orderly (.call (.close fd) :: rest) held
  | write {fd : Nat} {bytes : Bytes} {rest : List (Action UInt8)} {held : Multiset Nat}
      (later : Orderly rest held) : Orderly (.call (.write fd bytes) :: rest) held
  | read {fd : Nat} {bytes : Bytes} {rest : List (Action UInt8)} {held : Multiset Nat}
      (later : Orderly rest held) : Orderly (.call (.read fd bytes) :: rest) held
  | start {stdinPipe stdoutPipe : Pipe} {rest : List (Action UInt8)} {held : Multiset Nat}
      (later : Orderly rest held) : Orderly (startActions stdinPipe stdoutPipe ++ rest) held

theorem Orderly.mono {actions : List (Action UInt8)} {held more : Multiset Nat}
    (orderly : Orderly actions held) (wider : held ≤ more) : Orderly actions more := by
  induction orderly generalizing more with
  | nil => exact .nil
  | create _ ih => exact .create (ih ((Multiset.cons_le_cons_iff _).mpr wider))
  | close member _ ih =>
      exact .close (Multiset.mem_of_le wider member) (ih (Multiset.erase_le_erase _ wider))
  | write _ ih => exact .write (ih wider)
  | read _ ih => exact .read (ih wider)
  | start _ ih => exact .start (ih wider)

theorem systemActions_plain {event : Event} (plain : event.plain = true)
    (executor : Ptr CgiExecutor) (rest : List Event) :
    systemActions executor (event :: rest) =
      event.actions executor ++ systemActions executor rest := by
  cases event <;> first | rfl | cases plain

theorem Orderly.plain {event : Event} (plain : event.plain = true) (executor : Ptr CgiExecutor)
    {rest : List (Action UInt8)} {held : Multiset Nat} (later : Orderly rest held) :
    Orderly (event.actions executor ++ rest) held := by
  cases event with
  | opened | closed | cgiBuffered => cases plain
  | cgiWritten bytes =>
      cases executor with
      | live executor => exact .write later
      | null | freed => exact later
  | cgiRead bytes =>
      cases executor with
      | live executor => exact .read later
      | null | freed => exact later
  | cgiEnded req =>
      cases executor with
      | live executor => exact .read later
      | null | freed => exact later
  | received | parsed | framed | requestFreed | put | lost | sent | returned => exact later

namespace Spends

variable {front back events : List Event} {held middle left more : Multiset Nat}

theorem mono (spends : Spends events held left) (wider : held ≤ more) :
    Spends events more left := by
  induction spends generalizing more with
  | nil kept => exact .nil (kept.trans wider)
  | plain plain _ ih => exact .plain plain (ih wider)
  | opened _ ih => exact .opened (ih ((Multiset.cons_le_cons_iff _).mpr wider))
  | closed member _ ih =>
      exact .closed (Multiset.mem_of_le wider member) (ih (Multiset.erase_le_erase _ wider))
  | started _ ih => exact .started (ih wider)

theorem trans (first : Spends front held middle) (second : Spends back middle left) :
    Spends (front ++ back) held left := by
  induction first with
  | nil kept => exact second.mono kept
  | plain plain _ ih => exact .plain plain (ih second)
  | opened _ ih => exact .opened (ih second)
  | closed member _ ih => exact .closed member (ih second)
  | @started bytes stdinPipe stdoutPipe rest _ _ _ ih => exact .started (ih second)

theorem frame (spends : Spends events held left) (other : Multiset Nat) :
    Spends events (other + held) (other + left) := by
  induction spends with
  | nil kept => exact .nil (add_le_add_right kept other)
  | plain plain _ ih => exact .plain plain ih
  | opened _ ih =>
      rw [Multiset.add_cons] at ih
      exact .opened ih
  | @closed fd rest held left member _ ih =>
      refine .closed (Multiset.mem_add.mpr (.inr member)) ?_
      rwa [Multiset.erase_add_right_pos _ member]
  | started _ ih => exact .started ih

theorem quiet (plain : ∀ event ∈ events, event.plain = true) (kept : left ≤ held) :
    Spends events held left := by
  induction events with
  | nil => exact .nil kept
  | cons event rest ih =>
      obtain ⟨first, others⟩ := List.forall_mem_cons.mp plain
      exact .plain first (ih others)

theorem orderly (spends : Spends events held left) (executor : Ptr CgiExecutor)
    {rest : List (Action UInt8)} (later : Orderly rest left) :
    Orderly (systemActions executor events ++ rest) held := by
  induction spends with
  | nil kept => exact later.mono kept
  | plain plain _ ih =>
      rw [systemActions_plain plain, List.append_assoc]
      exact .plain plain executor (ih later)
  | opened _ ih => exact .create (ih later)
  | closed member _ ih => exact .close member (ih later)
  | started _ ih => exact .start (ih later)

end Spends

def Spent (before after : Peer) (held left : Multiset Nat) : Prop :=
  ∃ events, after.trace = before.trace ++ events ∧ Spends events held left

namespace Spent

variable {before middle after : Peer} {held between left : Multiset Nat}

theorem record {events : List Event} (spends : Spends events held left) :
    Spent before (before.record events) held left := ⟨events, rfl, spends⟩

theorem quiet {events : List Event} (added : after.trace = before.trace ++ events)
    (plain : ∀ event ∈ events, event.plain = true) (kept : left ≤ held) :
    Spent before after held left := ⟨events, added, .quiet plain kept⟩

theorem same (trace : after.trace = before.trace) (kept : left ≤ held) :
    Spent before after held left :=
  quiet (trace.trans (List.append_nil _).symm) (List.forall_mem_nil _) kept

theorem puts {bytes : List OutByte} (puts : Puts before bytes after) (kept : left ≤ held) :
    Spent before after held left := by
  obtain ⟨sendingBuffer, rfl⟩ := puts.frame
  refine quiet rfl (fun event member => ?_) kept
  obtain ⟨byte, _, rfl⟩ := List.mem_map.mp member
  rfl

theorem trans (first : Spent before middle held between) (second : Spent middle after between left) :
    Spent before after held left := by
  obtain ⟨front, added, spends⟩ := first
  obtain ⟨back, more, onward⟩ := second
  exact ⟨front ++ back, by rw [more, added, List.append_assoc], spends.trans onward⟩

theorem frame (spent : Spent before after held left) (other : Multiset Nat) :
    Spent before after (other + held) (other + left) := by
  obtain ⟨events, added, spends⟩ := spent
  exact ⟨events, added, spends.frame other⟩

end Spent

section Calls

variable {cfg : Config} {os : Os} {h next : Handling} {pass : Pass}

private theorem streamed_spends {file : File} {status : StreamStatus} {fp : Ptr File}
    {peer : Peer} {task : HttpTask} (streamed : FileStreamed file h.peer (status, fp, peer))
    (state : h.task.state = .sendBody) (opened : h.task.fp = .live file)
    (left : openFile task = fileDescriptor fp) :
    Spent h.peer peer (openFile h.task) (openFile task) := by
  have before : openFile h.task = {file.fd} := by simp [openFile, state, opened, fileDescriptor]
  have closes : Spends [.closed file.fd] {file.fd} 0 :=
    .closed (Multiset.mem_singleton_self _) (.nil (Multiset.zero_le _))
  rw [before, left]
  cases streamed with
  | notDone split puts full => exact .puts puts le_rfl
  | error fails puts => exact (Spent.puts puts le_rfl).trans (.record closes)
  | done ends puts => exact (Spent.puts puts le_rfl).trans (.record closes)

private theorem GetHeader.spends {task : HttpTask} {request changed : Request} {code : Int}
    {last : Bool} {held : Multiset Nat} {next : HttpTask} {events : List Event}
    (found : GetHeader cfg os task request last (code, next, changed, events)) :
    Spends events held (openFile { next with
      responseCode := code
      state := if code = okNum then .sendHeader else .generateHeader }) := by
  have idle (task : HttpTask) (state : task.state ≠ .sendBody ∧ task.state ≠ .sendHeader) :
      openFile task ≤ held := by
    rw [openFile_other state.1 state.2]
    exact Multiset.zero_le held
  cases found with
  | missing path absent =>
      rw [if_neg (by decide)]
      exact .nil (idle _ (by simp))
  | unopened path present written described noFile =>
      rw [if_neg (by decide)]
      exact .nil (idle _ (by simp))
  | @opened fullpath _ middle facts file path present written described hasFile =>
      obtain ⟨responseBuf, rfl⟩ := written.frame
      refine .opened (.nil ?_)
      have most (next : HttpTask) (fp : next.fp = .live { file with req := task.requests }) :
          openFile next ≤ {file.fd} := by
        unfold openFile
        split
        · rw [fp]
          exact le_rfl
        · exact Multiset.zero_le _
      exact (most _ rfl).trans (Multiset.singleton_le.mpr (Multiset.mem_cons_self ..))

theorem PassCases.spends (inv : h.Inv) (result : PassCases cfg os h pass) :
    Spent h.peer pass.handling.peer (openFile h.task) (openFile pass.handling.task) := by
  have idle (task : HttpTask) (state : task.state ≠ .sendBody ∧ task.state ≠ .sendHeader)
      (held : Multiset Nat) : openFile task ≤ held := by
    rw [openFile_other state.1 state.2]
    exact Multiset.zero_le held
  cases result with
  | headerShort state scanning read =>
      cases read
      exact .same rfl le_rfl
  | headerLong state scanning read =>
      cases read
      exact .same rfl le_rfl
  | headerBad state scanning read whole bad =>
      cases read
      exact .quiet rfl (by simp [Event.plain]) le_rfl
  | @headerGood text block next taken left request state scanning read whole good took =>
      have ready : taken.state ≠ .sendBody ∧ taken.state ≠ .sendHeader := by
        cases took <;> simp
      cases read
      refine .quiet rfl ?_ (idle taken ready _)
      split <;> simp [Event.plain]
  | bodyShort state part read =>
      cases read
      exact .same rfl le_rfl
  | bodyWhole state part read =>
      cases read
      exact .quiet rfl (by simp [Event.plain]) (idle _ (by simp [Pass.handling]) _)
  | @generated next state written =>
      exact .same rfl ((written.openFile inv state).trans_le (Multiset.zero_le _))
  | @headSent ret sent peer state result =>
      obtain ⟨front, puts, _⟩ := result.puts
      obtain ⟨responseBuf, rfl, _⟩ := result.left
      exact .puts puts (openFile_afterHead state responseBuf).le
  | @cgiStarted cell peer state live cgi started fed =>
      obtain ⟨executor, _, _, rfl⟩ := started.started
      refine .record ?_
      have starts : Spends (.cgiBuffered executor.pending ::
          (pipeEvents executor.stdinPipe executor.stdoutPipe ++ [])) (openFile h.task)
          (openFile { h.task with state := .processingCgi }) :=
        .started (.nil (idle _ (by simp) _))
      rwa [List.append_nil] at starts
  | staticHead state live static method found => exact .record found.spends
  | staticPost state live static post => exact .same rfl (idle _ (by simp [Pass.handling]) _)
  | fileWaits state opened streamed =>
      apply streamed_spends streamed state opened
      simp [openFile, state, Pass.handling]
  | fileFails state opened streamed =>
      apply streamed_spends streamed state opened
      simp [openFile, state, Pass.handling]
  | fileDone state opened streamed =>
      apply streamed_spends streamed state opened
      cases streamed
      simp [openFile, fileDescriptor, Pass.handling]

theorem httpLoop_spends {fuel : Nat} {code : Code} (inv : h.Inv)
    (ran : httpLoop cfg os fuel h = some (.ok (code, next))) :
    Spent h.peer next.peer (openFile h.task) (openFile next.task) := by
  induction fuel generalizing h with
  | zero => cases ran
  | succ fuel ih =>
      rw [httpLoop] at ran
      split at ran
      · rcases finishRequest_cases (Option.some.inj ran) with ⟨_, ⟨_, rfl⟩ | ⟨_, _, rfl⟩⟩
        · exact .same rfl (Multiset.zero_le _)
        · exact .quiet rfl (by simp [Event.plain]) (Multiset.zero_le _)
      · cases passed : httpPass cfg os h with
        | error fault =>
            simp only [passed] at ran
            cases ran
        | ok pass =>
            have result := httpPass_cases inv passed
            have first := result.spends inv
            simp only [passed] at ran
            cases pass with
            | returns code stopped =>
                cases ran
                exact first
            | again middle => exact first.trans (ih (result.valid inv) ran)

end Calls

def fileInUse (client : Peer) : Multiset Nat :=
  match client.httpTask with
  | .live task => openFile task
  | _ => 0

/-- The descriptors of a connection that the server will close. -/
def closable (client : Peer) : Multiset Nat := client.socket.toList + fileInUse client

section Session

variable {cfg : Config} {s t : Session} {task : HttpTask} {event : PeerEvent}

theorem StepCases.spends (inv : s.peer.Inv task) (step : StepCases cfg s task event t) :
    Spent s.peer t.peer (fileInUse s.peer) (fileInUse t.peer) := by
  have live := inv.live
  have received {peer : Peer} (got : Receives s.peer peer) :
      Spent s.peer peer (fileInUse s.peer) (fileInUse peer) := by
    cases got with
    | nothing => exact .same rfl le_rfl
    | bytes bufInv content => exact .quiet rfl (by simp [Event.plain]) le_rfl
  cases step with
  | deliver got => exact received got
  | recv got => exact received got
  | @call os code h called effect valid =>
      have told : Spent { h.peer with httpTask := .live h.task }
          (afterCall code h.request { h.peer with httpTask := .live h.task }).peer (openFile h.task)
          (fileInUse (afterCall code h.request { h.peer with httpTask := .live h.task }).peer) := by
        cases code <;> exact .quiet rfl (by simp [Event.plain]) le_rfl
      refine Spent.trans ?_ told
      have before : fileInUse s.peer = openFile task := by rw [fileInUse, live]
      rw [before]
      rcases handleHttp_cases live called with
        ⟨_, _, _, peer⟩ | ⟨notWaiting, next, _, peer, ran⟩
      · have same : h.task = task := Ptr.live.inj ((congrArg Peer.httpTask peer).trans live)
        exact .same (congrArg Peer.trace peer) (by rw [same])
      · have same : h.task = next.task := Ptr.live.inj (congrArg Peer.httpTask peer)
        obtain ⟨events, added, spends⟩ :=
          httpLoop_spends ⟨inv.valid, inv.sending, inv.receiving⟩ ran
        refine ⟨events, (congrArg Peer.trace peer).trans added, ?_⟩
        rwa [same]
  | send sent =>
      cases sent with
      | nothing empty => exact .same rfl le_rfl
      | accepted count answered bufInv left => exact .quiet rfl (by simp [Event.plain]) le_rfl
      | failed bufInv => exact .same rfl le_rfl
  | toCgi child sent =>
      cases sent with
      | nothing empty => exact .same rfl le_rfl
      | accepted count bufInv left => exact .quiet rfl (by simp [Event.plain]) le_rfl
      | failed bufInv refused => exact .same rfl le_rfl
  | @fromCgi answer executor status peer child piped =>
      cases piped with
      | full => exact .same rfl le_rfl
      | failed => exact .same rfl le_rfl
      | ended isLive =>
          refine .quiet rfl (by simp [Event.plain]) ?_
          have finished (next : HttpTask) (state : next.state = .finished) : openFile next = 0 :=
            openFile_other (by simp [state]) (by simp [state])
          exact (finished _ rfl).trans_le (Multiset.zero_le _)
      | @piped bytes data next taken puts =>
          have read : Spent s.peer (s.peer.record [.cgiRead data]) (fileInUse s.peer)
              (fileInUse s.peer) := .quiet rfl (by simp [Event.plain]) le_rfl
          refine read.trans (.puts puts ?_)
          obtain ⟨sendingBuffer, rfl⟩ := puts.frame
          exact le_rfl
  | noChild => exact .same rfl le_rfl
  | others => exact .same rfl le_rfl

theorem sessionRun_spends {events : List PeerEvent} (inv : s.Inv)
    (ran : sessionRun cfg events s = .ok t) :
    Spent s.peer t.peer (closable s.peer) (closable t.peer) := by
  induction events generalizing s with
  | nil =>
      cases ran
      exact .same rfl le_rfl
  | cons event events ih =>
      obtain ⟨middle, stepped, rest⟩ := Run.run_cons_ok.mp ran
      have onward := ih (sessionStep_inv inv stepped) rest
      cases isOpen : s.closed with
      | true =>
          rw [sessionStep_closed isOpen] at stepped
          cases stepped
          exact onward
      | false =>
          obtain ⟨task, valid⟩ := inv isOpen
          have step := sessionStep_cases isOpen valid stepped
          have first : Spent s.peer middle.peer (closable s.peer) (closable middle.peer) := by
            unfold closable
            rw [step.socket]
            exact (step.spends valid).frame _
          exact first.trans onward

end Session

section Turns

variable {cfg : Config} {round : Round} {turn : Turn} {served : Served}

theorem closing_spends {client slot : Peer} (closing : closeClientConnection client = .ok slot) :
    Spent client slot (closable client) (closable slot) := by
  obtain ⟨trace, noTask⟩ := closeClientConnection_trace closing
  have free := (closeClientConnection_leaves closing).1
  have nothing : closable slot = 0 := by
    have noFile : fileInUse slot = 0 := by
      unfold fileInUse
      split
      · next live => exact absurd live (noTask _)
      · rfl
    rw [closable, free, noFile]
    rfl
  refine ⟨_, trace, ?_⟩
  rw [nothing]
  cases socket : client.socket with
  | none => exact .nil (Multiset.zero_le _)
  | some fd =>
      refine .closed ?_ (.nil (Multiset.zero_le _))
      rw [closable, socket]
      exact Multiset.mem_add.mpr (.inl (Multiset.mem_singleton_self fd))

theorem turn_spends (lasting : Lasting turn.client) (ran : turn.served cfg round = .ok served) :
    Spends (turn.events cfg round) (closable turn.client) (closable served.client) := by
  have events : turn.events cfg round =
      served.client.trace.drop turn.client.trace.length := by
    rw [Turn.events, ran]
  have spent : Spent turn.client served.client (closable turn.client) (closable served.client) := by
    cases socket : turn.client.socket with
    | none =>
        obtain ⟨_, still⟩ := serveClient_free lasting socket ran
        rw [still]
        exact .same rfl le_rfl
    | some fd =>
        obtain ⟨inv, _⟩ := lasting.used (by simp [socket]) turn.request
        obtain ⟨t, reached, _, outcome⟩ := serveClient_takes ran
        have run := sessionRun_spends inv reached
        rcases outcome with ⟨_, _, same⟩ | ⟨_, closing⟩
        · rw [same]
          exact run
        · exact run.trans (closing_spends closing)
  obtain ⟨added, trace, spends⟩ := spent
  rw [events, trace, List.drop_left]
  exact spends

def allClosable (connectionList : List Peer) : Multiset Nat := (connectionList.map closable).sum

theorem allClosable_cons (client : Peer) (rest : List Peer) :
    allClosable (client :: rest) = closable client + allClosable rest := by
  rw [allClosable, List.map_cons, List.sum_cons]
  rfl

theorem allClosable_unused (count : Nat) :
    allClosable (List.replicate count createPeer) = 0 := by
  induction count with
  | zero => rfl
  | succ count ih =>
      rw [List.replicate_succ, allClosable_cons, ih]
      rfl

theorem turns_orderly {fds : FdSets} {i closes : Nat} {request after : Ptr RequestCell}
    {connectionList served : List Peer} {others : Multiset Nat} {rest : List (Action UInt8)}
    (lasting : ∀ slot ∈ connectionList, Lasting slot)
    (ran : serveClients cfg round fds i request connectionList = .ok (after, served, closes))
    (later : Orderly rest (others + allClosable served)) :
    Orderly ((turns cfg round fds i request connectionList).flatMap (fun turn =>
        systemActions turn.client.cgiExecutor (turn.events cfg round)) ++ rest)
      (others + allClosable connectionList) := by
  induction connectionList generalizing i request after served closes others with
  | nil =>
      cases ran
      exact later
  | cons client slots ih =>
      obtain ⟨mine, theirs⟩ := List.forall_mem_cons.mp lasting
      rw [serveClients] at ran
      cases first : serveClient cfg round i fds request client with
      | error fault =>
          simp only [first] at ran
          cases ran
      | ok result =>
          simp only [first] at ran
          cases rested : serveClients cfg round fds (i + 1) result.request slots with
          | error fault =>
              simp only [rested] at ran
              cases ran
          | ok answer =>
              obtain ⟨last, left, count⟩ := answer
              simp only [rested] at ran
              cases ran
              have turn : Turn.served cfg round ⟨fds, i, request, client⟩ = .ok result := first
              have spends := (turn_spends mine turn).frame (others + allClosable slots)
              simp only [turns, first, List.flatMap_cons, List.append_assoc]
              rw [allClosable_cons, add_comm (closable client), ← add_assoc]
              refine spends.orderly _ ?_
              rw [add_right_comm]
              refine ih theirs rested ?_
              rwa [add_assoc, ← allClosable_cons]

end Turns

section Passes

variable {cfg : Config} {round : Round} {server next : Server}

theorem storeConnection_spends (connectionList : List Peer) (newClientSock : Nat)
    (clientAddr : Address) (conn : Nat) :
    Spends (acceptEvents (some (newClientSock, clientAddr)) connectionList)
      (allClosable connectionList)
      (allClosable
        (storeConnection (acceptInto · newClientSock clientAddr conn) connectionList)) := by
  induction connectionList with
  | nil => exact .opened (.closed (Multiset.mem_cons_self ..) (.nil (Multiset.zero_le _)))
  | cons client rest ih =>
      rw [storeConnection]
      cases socket : client.socket with
      | none =>
          have events : acceptEvents (some (newClientSock, clientAddr)) (client :: rest) =
              [.opened newClientSock] := by
            simp [acceptEvents, socket]
          have own : closable (acceptInto client newClientSock clientAddr conn) =
              {newClientSock} := by
            have noFile : openFile createHttpTask = 0 := openFile_other (by decide) (by decide)
            rw [closable, fileInUse, acceptInto]
            simp only [noFile, add_zero]
            rfl
          rw [events, if_pos Option.isNone_none, allClosable_cons, allClosable_cons, own,
            Multiset.singleton_add]
          refine .opened (.nil ?_)
          exact (Multiset.cons_le_cons_iff _).mpr (Multiset.le_add_left ..)
      | some fd =>
          have events : acceptEvents (some (newClientSock, clientAddr)) (client :: rest) =
              acceptEvents (some (newClientSock, clientAddr)) rest := by
            simp [acceptEvents, socket]
          rw [events, if_neg (by simp), allClosable_cons, allClosable_cons]
          exact ih.frame _

theorem pass_orderly (lasting : ∀ slot ∈ server.connectionList, Lasting slot)
    (stepped : serverStep cfg server round = .ok next) {rest : List (Action UInt8)}
    (later : Orderly rest (allClosable next.connectionList)) :
    Orderly (passActions cfg server round ++ rest) (allClosable server.connectionList) := by
  have looked := stepped
  rw [serverStep, bind_ok] at looked
  obtain ⟨sets, built, looked⟩ := looked
  rw [bind_ok] at looked
  obtain ⟨high, found, _⟩ := looked
  obtain ⟨accepting, closes, _, entered, passed, _, ran⟩ :=
    serverStep_turns cfg built found stepped
  have known := fun slot member => ((highSock_ok found).2 slot member).1
  have accepted : (∀ slot ∈ accepting.connectionList, Lasting slot) ∧
      Spends (acceptedEvents server round) (allClosable server.connectionList)
        (allClosable accepting.connectionList) := by
    rw [entered, acceptedEvents, built, found]
    dsimp only
    split
    · cases answer : round.accept with
      | none => exact ⟨lasting, .nil le_rfl⟩
      | some connection =>
          exact ⟨(storeConnection_conserves connection.1 connection.2 server.accepted lasting
            known).1, storeConnection_spends _ connection.1 connection.2 server.accepted⟩
    · exact ⟨lasting, .nil le_rfl⟩
  rw [passActions, passed, List.append_assoc]
  refine accepted.2.orderly _ ?_
  have turnsOrderly := turns_orderly accepted.1 ran
    (show Orderly rest (0 + allClosable next.connectionList) by rwa [zero_add])
  rwa [zero_add] at turnsOrderly

/-- In no run does the server close its own ends of the pipes to a child, or anything but the
sockets and files that it has opened itself. -/
theorem run_orderly {rounds : List Round} {after : Server}
    (lasting : ∀ slot ∈ server.connectionList, Lasting slot)
    (ran : serverRun cfg rounds server = .ok after) :
    Orderly (runActions cfg rounds server) (allClosable server.connectionList) := by
  induction rounds generalizing server with
  | nil => exact .nil
  | cons round rounds ih =>
      obtain ⟨middle, stepped, rest⟩ := Run.run_cons_ok.mp ran
      rw [runActions, stepped]
      exact pass_orderly lasting stepped (ih (serverStep_lasting lasting stepped) rest)

end Passes

end Liso
