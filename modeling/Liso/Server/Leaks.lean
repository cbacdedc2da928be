import Liso.Server.Descriptors
import Liso.Server.Lasting

/-! The descriptors that are left open, and by what: in every run the server holds what is in
use, and what HEAD requests, children that ended and closed connections have left behind. -/

namespace Liso

open Holdings (Leads)

def fileForHead (cfg : Config) (os : Os) (h : Handling) : Multiset Nat :=
  match h.request with
  | .live cell =>
      match makeFullPath cfg.wwwDir cell.request with
      | .ok (fullpath, _) =>
          match opensForHead cfg os h, os.fopen (loweredPath fullpath) with
          | true, some file => {file.fd}
          | _, _ => 0
      | .error _ => 0
  | _ => 0

def filesForHead (cfg : Config) (os : Os) : Nat → Handling → Multiset Nat
  | 0, _ => 0
  | fuel + 1, h =>
      if h.task.state = .finished then 0
      else
        fileForHead cfg os h +
          match httpPass cfg os h with
          | .ok (.again next) => filesForHead cfg os fuel next
          | _ => 0

section Calls

variable {cfg : Config} {os : Os} {h next : Handling} {pass : Pass}

theorem fileForHead_none (calm : opensForHead cfg os h = false) : fileForHead cfg os h = 0 := by
  unfold fileForHead
  rw [calm]
  split
  · split <;> rfl
  · rfl

theorem PassCases.accounts (inv : h.Inv) (result : PassCases cfg os h pass) :
    Exchanges h.peer pass.handling.peer h.holds
      (fileForHead cfg os h + pass.handling.holds) := by
  cases opens : opensForHead cfg os h with
  | false =>
      rw [fileForHead_none opens, zero_add]
      exact result.exchanges inv opens
  | true =>
      obtain ⟨cell, live, ⟨⟨state, head⟩, static⟩, openable⟩ :
          ∃ cell, h.request = .live cell ∧ ((h.task.state = .checkCgi ∧ h.task.methodType = .head) ∧
            isCgi cell.request.httpUri = false) ∧ canOpen cfg os cell.request = true := by
        unfold opensForHead at opens
        split at opens
        · next cell live => exact ⟨cell, live, by simpa using opens⟩
        · cases opens
      cases result with
      | cgiStarted _ same cgi =>
          cases live.symm.trans same
          cases static.symm.trans cgi
      | staticPost _ _ _ post => cases head.symm.trans post
      | headerShort other | headerLong other | headerBad other | headerGood other
      | bodyShort other | bodyWhole other | generated other | headSent other
      | fileWaits other | fileFails other | fileDone other => cases state.symm.trans other
      | @staticHead _ code next changed events _ same _ method found =>
          cases live.symm.trans same
          cases found with
          | missing path absent => simp [canOpen, path, absent] at openable
          | unopened path present written described noFile => simp [canOpen, path, noFile] at openable
          | @opened fullpath _ middle facts file path present written described hasFile =>
              have left : fileForHead cfg os h = {file.fd} := by
                simp [fileForHead, live, path, opens, hasFile]
              have before : openFile h.task = 0 := openFile_other (by simp [state]) (by simp [state])
              obtain ⟨responseBuf, rfl⟩ := written.frame
              have unused : openFile { h.task with
                  responseBuf, fp := .live { file with req := h.task.requests }
                  responseCode := okNum, state := .sendHeader } = 0 := by
                have fine : errorCode okNum = false := rfl
                simp [openFile, afterHead, fine, head]
              rw [left, Multiset.singleton_add]
              refine Exchanges.record ?_
              simp only [Handling.holds, Pass.handling, before, Peer.record, if_pos, unused]
              exact .acquire file.fd _

theorem httpLoop_accounts {fuel : Nat} {code : Code} (inv : h.Inv)
    (ran : httpLoop cfg os fuel h = some (.ok (code, next))) :
    Exchanges h.peer next.peer h.holds (filesForHead cfg os fuel h + next.holds) := by
  induction fuel generalizing h with
  | zero => cases ran
  | succ fuel ih =>
      rw [filesForHead]
      rw [httpLoop] at ran
      split at ran
      · next state =>
          have before : openFile h.task = 0 := openFile_other (by simp [state]) (by simp [state])
          rw [if_pos state, zero_add]
          rcases finishRequest_cases (Option.some.inj ran) with ⟨_, ⟨_, rfl⟩ | ⟨_, _, rfl⟩⟩
          · refine .same rfl ?_
            simp only [Handling.holds, before]
            rfl
          · refine .quiet rfl (by simp [Event.descriptor]) ?_
            simp only [Handling.holds, before]
            rfl
      · next state =>
        rw [if_neg state]
        cases passed : httpPass cfg os h with
        | error fault =>
            simp only [passed] at ran
            cases ran
        | ok pass =>
            have result := httpPass_cases inv passed
            have first := result.accounts inv
            simp only [passed] at ran
            cases pass with
            | returns code stopped =>
                cases ran
                rw [add_zero]
                exact first
            | again middle =>
                have later := (ih (result.valid inv) ran).frame (fileForHead cfg os h)
                rw [← add_assoc] at later
                exact first.trans later

end Calls

/-- What a step leaves open that is in use no more. -/
def Session.leaves (cfg : Config) (s : Session) : PeerEvent → Multiset Nat
  | .call os =>
      match s.peer.httpTask with
      | .live task =>
          if task.state = .processingCgi then 0 else filesForHead cfg os 7 ⟨s.request, task, s.peer⟩
      | _ => 0
  | .fromCgi answer =>
      if !bufFull s.peer.sendingBuffer && answer = some [] then pipeEnds s.peer.cgiExecutor else 0
  | _ => 0

def Session.leftOpen (cfg : Config) : List PeerEvent → Session → Multiset Nat
  | [], _ => 0
  | event :: rest, s =>
      (if s.closed then 0 else s.leaves cfg event) +
        match sessionStep cfg s event with
        | .ok next => Session.leftOpen cfg rest next
        | .error _ => 0

section Session

variable {cfg : Config} {s t : Session} {task : HttpTask} {event : PeerEvent}

private theorem call_accounts {os : Os} (isOpen : s.closed = false) (inv : s.peer.Inv task)
    (stepped : sessionStep cfg s (.call os) = .ok t) :
    Exchanges s.peer t.peer (inUse s.peer) (s.leaves cfg (.call os) + inUse t.peer) := by
  unfold sessionStep at stepped
  rw [if_neg (by simp [isOpen])] at stepped
  cases called : handleHttp cfg os s.request s.peer with
  | error fault =>
      simp only [called] at stepped
      cases stepped
  | ok result =>
      obtain ⟨code, after, left⟩ := result
      simp only [called] at stepped
      cases stepped
      obtain ⟨h, rfl, rfl, effect, valid⟩ := handleHttp_effect inv called
      have told : Exchanges { h.peer with httpTask := .live h.task }
          (afterCall code h.request { h.peer with httpTask := .live h.task }).peer h.holds
          (inUse (afterCall code h.request { h.peer with httpTask := .live h.task }).peer) := by
        cases code <;> exact .quiet rfl (by simp [Event.descriptor]) rfl
      refine Exchanges.trans ?_ (told.frame _)
      have whole : h.holds = inUse { h.peer with httpTask := .live h.task } := rfl
      rw [inUse_live inv.live, whole]
      rcases handleHttp_cases inv.live called with
        ⟨waiting, _, _, peer⟩ | ⟨notWaiting, next, _, peer, ran⟩
      · simp only [Session.leaves, inv.live, if_pos waiting]
        rw [peer, zero_add]
        exact .same rfl (inUse_live inv.live)
      · simp only [Session.leaves, inv.live, if_neg notWaiting]
        rw [peer]
        exact httpLoop_accounts ⟨inv.valid, inv.sending, inv.receiving⟩ ran

private theorem childEnd_accounts {executor : CgiExecutor} (isOpen : s.closed = false)
    (inv : s.peer.Inv task) (child : s.peer.cgiExecutor = .live executor)
    (room : bufFull s.peer.sendingBuffer = false)
    (stepped : sessionStep cfg s (.fromCgi (some [])) = .ok t) :
    Exchanges s.peer t.peer (inUse s.peer)
      (s.leaves cfg (.fromCgi (some [])) + inUse t.peer) := by
  have linked := inv.child
  rw [child] at linked
  simp only [sessionStep, isOpen, withChild, child, pipeFromCgiProcessToClient, room, inv.live,
    Bool.false_eq_true, if_false] at stepped
  have leaves : s.leaves cfg (.fromCgi (some [])) = pipeEnds s.peer.cgiExecutor := by
    simp [Session.leaves, room]
  have waiting : openFile task = 0 := openFile_other (by simp [linked.1]) (by simp [linked.1])
  rw [leaves, inUse_live inv.live, waiting, child]
  cases stepped
  refine .quiet rfl (by simp [Event.descriptor]) ?_
  simp only [inUse, Peer.record, pipeEnds]
  rw [openFile_other (by simp) (by simp)]
  rfl

theorem sessionStep_accounts (isOpen : s.closed = false) (inv : s.peer.Inv task)
    (stepped : sessionStep cfg s event = .ok t) :
    Exchanges s.peer t.peer (inUse s.peer) (s.leaves cfg event + inUse t.peer) := by
  have quietly (calm : s.leaks cfg event = false) (nothing : s.leaves cfg event = 0) :
      Exchanges s.peer t.peer (inUse s.peer) (s.leaves cfg event + inUse t.peer) := by
    rw [nothing, zero_add]
    exact (sessionStep_cases isOpen inv stepped).exchanges isOpen inv calm stepped
  cases event with
  | call os => exact call_accounts isOpen inv stepped
  | fromCgi answer =>
      by_cases ends : bufFull s.peer.sendingBuffer = false ∧ answer = some []
      · obtain ⟨room, rfl⟩ := ends
        cases child : s.peer.cgiExecutor with
        | live executor => exact childEnd_accounts isOpen inv child room stepped
        | null =>
            exact quietly (by simp [Session.leaks, child])
              (by simp [Session.leaves, child, pipeEnds])
        | freed =>
            exact quietly (by simp [Session.leaks, child])
              (by simp [Session.leaves, child, pipeEnds])
      · have calm : (!bufFull s.peer.sendingBuffer && answer = some []) = false := by
          simpa using ends
        refine quietly ?_ ?_
        · simp only [Session.leaks]
          split
          · exact calm
          · rfl
        · simp [Session.leaves, calm]
  | deliver piece => exact quietly rfl rfl
  | recv answer => exact quietly rfl rfl
  | send answer => exact quietly rfl rfl
  | toCgi answer => exact quietly rfl rfl
  | others request => exact quietly rfl rfl

theorem sessionRun_accounts {events : List PeerEvent} (inv : s.Inv)
    (ran : sessionRun cfg events s = .ok t) :
    Exchanges s.peer t.peer (descriptors s.peer)
      (Session.leftOpen cfg events s + descriptors t.peer) := by
  induction events generalizing s with
  | nil =>
      cases ran
      exact .same rfl (zero_add _)
  | cons event events ih =>
      obtain ⟨middle, stepped, rest⟩ := Run.run_cons_ok.mp ran
      have onward := ih (sessionStep_inv inv stepped) rest
      rw [Session.leftOpen]
      cases isOpen : s.closed with
      | true =>
          rw [sessionStep_closed isOpen] at stepped ⊢
          cases stepped
          rw [if_pos rfl, zero_add]
          exact onward
      | false =>
          obtain ⟨task, valid⟩ := inv isOpen
          have step := sessionStep_accounts isOpen valid stepped
          have socket := (sessionStep_cases isOpen valid stepped).socket
          have first : Exchanges s.peer middle.peer (descriptors s.peer)
              (s.leaves cfg event + descriptors middle.peer) := by
            unfold descriptors
            rw [socket, add_left_comm]
            exact step.frame _
          simp only [stepped, Bool.false_eq_true, if_false]
          rw [add_assoc]
          exact first.trans (onward.frame _)

end Session

/-- What a turn leaves open that is in use no more: what its steps do, and what a connection has in
use when it is closed. -/
def Turn.leftOpen (cfg : Config) (round : Round) (turn : Turn) : Multiset Nat :=
  let steps := clientSteps round turn.i turn.fds turn.request turn.client
  let start : Session := ⟨turn.request, turn.client, false⟩
  Session.leftOpen cfg steps start +
    match turn.closes cfg round, sessionRun cfg steps start with
    | true, .ok t => inUse t.peer
    | _, _ => 0

structure Holding (slot : Peer) : Prop where
  lasting : Lasting slot
  free : slot.socket = none → inUse slot = 0

theorem createPeer_holding : Holding createPeer :=
  ⟨⟨fun _ => createPeer_vacant, createPeer_tidy.used⟩, fun _ => rfl⟩

section Turns

variable {cfg : Config} {round : Round} {turn : Turn} {served : Served}

theorem closeClientConnection_trace {client slot : Peer}
    (closing : closeClientConnection client = .ok slot) :
    slot.trace = client.trace ++ client.socket.toList.map .closed ∧
      ∀ task, slot.httpTask ≠ .live task := by
  obtain ⟨_, _, rfl⟩ := closeClientConnection_ok.mp closing
  exact ⟨rfl, Ptr.afterFree_ne_live client.httpTask⟩

private theorem closing_accounts {client slot : Peer}
    (closing : closeClientConnection client = .ok slot) :
    inUse slot = 0 ∧
      Exchanges client slot (descriptors client) (inUse client + descriptors slot) := by
  obtain ⟨free, idle, _⟩ := closeClientConnection_leaves closing
  obtain ⟨trace, noTask⟩ := closeClientConnection_trace closing
  have noPipes : pipeEnds slot.cgiExecutor = 0 := by
    cases executor : slot.cgiExecutor with
    | live running => exact absurd executor (idle running)
    | _ => rfl
  have nothing : inUse slot = 0 := by
    unfold inUse
    rw [noPipes, zero_add]
    split
    · next live => exact absurd live (noTask _)
    · rfl
  refine ⟨nothing, _, trace, ?_⟩
  rw [descriptors, descriptors, free, nothing, add_comm]
  refine Leads.frame_left ?_ _
  cases client.socket with
  | none => exact .refl 0
  | some fd => exact .release fd 0

theorem turn_accounts (holding : Holding turn.client)
    (ran : turn.served cfg round = .ok served) :
    Holding served.client ∧
      Leads (descriptorOps (turn.events cfg round)) (descriptors turn.client)
        (turn.leftOpen cfg round + descriptors served.client) := by
  have events : turn.events cfg round =
      served.client.trace.drop turn.client.trace.length := by
    rw [Turn.events, ran]
  have closes : turn.closes cfg round = served.closed := by
    rw [Turn.closes, ran]
  rw [events, Turn.leftOpen, closes]
  cases socket : turn.client.socket with
  | none =>
      obtain ⟨noChild, still⟩ := serveClient_free holding.lasting socket ran
      have noSteps :
          clientSteps round turn.i turn.fds turn.request turn.client = [] := by
        simp only [clientSteps, pipeSteps, servePipes, noChild, socket, List.append_nil]
      rw [still, noSteps]
      refine ⟨holding, (Exchanges.same rfl ?_).drop⟩
      simp [Session.leftOpen]
  | some fd =>
      have used : turn.client.socket ≠ none := by simp [socket]
      have sound := holding.lasting.used used
      obtain ⟨inv, ordered⟩ := sound turn.request
      obtain ⟨t, reached, request, outcome⟩ := serveClient_takes ran
      have exchanged := sessionRun_accounts inv reached
      rw [reached]
      rcases outcome with ⟨isOpen, tOpen, kept⟩ | ⟨closed, left⟩
      · have same := sessionRun_socket inv reached
        rcases (serveClient_takes ran).follows.sound sound with ⟨_, after, _⟩ | ⟨closed, _⟩
        · rw [isOpen, add_zero]
          rw [kept] at after ⊢
          have stillUsed : t.peer.socket ≠ none := fun free => used (same.symm.trans free)
          exact ⟨⟨⟨fun free => absurd free stillUsed, fun _ => after⟩,
            fun free => absurd free stillUsed⟩, exchanged.drop⟩
        · cases isOpen.symm.trans closed
      · obtain ⟨nothing, last⟩ := closing_accounts left
        have free := (closeClientConnection_leaves left).1
        rw [closed, add_assoc]
        refine ⟨⟨⟨fun _ => closeClientConnection_vacant left, fun other => absurd free other⟩,
          fun _ => nothing⟩, (exchanged.trans (last.frame _)).drop⟩

end Turns

section Lists

variable {cfg : Config} {round : Round} {fds : FdSets}

theorem turns_accounts {i closes : Nat} {request after : Ptr RequestCell}
    {connectionList served : List Peer} (holding : ∀ slot ∈ connectionList, Holding slot)
    (ran : serveClients cfg round fds i request connectionList = .ok (after, served, closes)) :
    (∀ slot ∈ served, Holding slot) ∧
      Leads (descriptorOps ((turns cfg round fds i request connectionList).flatMap
          (Turn.events cfg round))) (allDescriptors connectionList)
        (((turns cfg round fds i request connectionList).map (Turn.leftOpen cfg round)).sum +
          allDescriptors served) := by
  induction connectionList generalizing i request after served closes with
  | nil =>
      cases ran
      exact ⟨holding, .refl 0⟩
  | cons client rest ih =>
      obtain ⟨mine, others⟩ := List.forall_mem_cons.mp holding
      rw [serveClients] at ran
      cases first : serveClient cfg round i fds request client with
      | error fault =>
          simp only [first] at ran
          cases ran
      | ok result =>
          simp only [first] at ran
          cases rested : serveClients cfg round fds (i + 1) result.request rest with
          | error fault =>
              simp only [rested] at ran
              cases ran
          | ok answer =>
              obtain ⟨last, slots, count⟩ := answer
              simp only [rested] at ran
              cases ran
              have turn : Turn.served cfg round ⟨fds, i, request, client⟩ = .ok result := first
              obtain ⟨kept, leads⟩ := turn_accounts mine turn
              obtain ⟨keptRest, onward⟩ := ih others rested
              refine ⟨List.forall_mem_cons.mpr ⟨kept, keptRest⟩, ?_⟩
              simp only [turns, first, List.flatMap_cons, List.map_cons, List.sum_cons]
              rw [descriptorOps, List.filterMap_append, allDescriptors_cons, allDescriptors_cons,
                add_add_add_comm]
              exact (leads.frame _).trans (onward.frame_left _)

end Lists

def passLeaves (cfg : Config) (server : Server) (round : Round) : Multiset Nat :=
  ((passTurns cfg server round).map (Turn.leftOpen cfg round)).sum

def leftOpen (cfg : Config) : List Round → Server → Multiset Nat
  | [], _ => 0
  | round :: rest, server =>
      passLeaves cfg server round +
        match serverStep cfg server round with
        | .ok next => leftOpen cfg rest next
        | .error _ => 0

section Passes

variable {cfg : Config} {round : Round} {server next : Server}

theorem Holding.settled {slot : Peer} (holding : Holding slot)
    (known : slot.cgiExecutor ≠ .freed) : Settled slot := by
  refine ⟨⟨fun free => ⟨holding.lasting.free free, ?_⟩, holding.lasting.used⟩, holding.free⟩
  cases executor : slot.cgiExecutor with
  | null => rfl
  | live running => exact absurd executor ((holding.lasting.free free).idle running)
  | freed => exact absurd executor known

theorem Settled.holding {slot : Peer} (settled : Settled slot) : Holding slot :=
  ⟨⟨fun free => (settled.tidy.free free).1, settled.tidy.used⟩, settled.free⟩

theorem pass_leaves (holding : ∀ slot ∈ server.connectionList, Holding slot)
    (stepped : serverStep cfg server round = .ok next) :
    (∀ slot ∈ next.connectionList, Holding slot) ∧
      Leads (descriptorOps (passEvents cfg server round)) (allDescriptors server.connectionList)
        (passLeaves cfg server round + allDescriptors next.connectionList) := by
  have looked := stepped
  rw [serverStep, bind_ok] at looked
  obtain ⟨sets, built, looked⟩ := looked
  rw [bind_ok] at looked
  obtain ⟨high, found, _⟩ := looked
  obtain ⟨accepting, closes, _, entered, passed, _, ran⟩ :=
    serverStep_turns cfg built found stepped
  have settled : ∀ slot ∈ server.connectionList, Settled slot := fun slot member =>
    (holding slot member).settled ((highSock_ok found).2 slot member).1
  have accepted : (∀ slot ∈ accepting.connectionList, Settled slot) ∧
      Leads (descriptorOps (if server.httpSockFd ∈ (select round high sets).read then
          acceptEvents round.accept server.connectionList else []))
        (allDescriptors server.connectionList) (allDescriptors accepting.connectionList) := by
    rw [entered]
    split
    · exact handleNewConnection_exchanges round.accept settled
    · exact ⟨settled, .refl _⟩
  obtain ⟨kept, leads⟩ := turns_accounts (fun slot member => (accepted.1 slot member).holding) ran
  refine ⟨kept, ?_⟩
  rw [passEvents, built, found, passLeaves, passed, descriptorOps, List.filterMap_append]
  exact accepted.2.trans leads

theorem processRun_leaves {rounds : List Round} {process after : Process} {left : Multiset Nat}
    (holding : ∀ slot ∈ process.server.connectionList, Holding slot)
    (held : process.held = left + allDescriptors process.server.connectionList)
    (ran : processRun cfg rounds process = .ok after) :
    after.held = left + leftOpen cfg rounds process.server +
      allDescriptors after.server.connectionList := by
  induction rounds generalizing process left with
  | nil =>
      cases ran
      rw [leftOpen, add_zero]
      exact held
  | cons round rounds ih =>
      obtain ⟨middle, stepped, rest⟩ := Run.run_cons_ok.mp ran
      rw [processStep] at stepped
      cases served : serverStep cfg process.server round with
      | error fault =>
          rw [served] at stepped
          cases stepped
      | ok next =>
          rw [served] at stepped
          cases stepped
          obtain ⟨kept, leads⟩ := pass_leaves holding served
          have heldNext : Holdings.run (descriptorOps (passEvents cfg process.server round))
              process.held = left + passLeaves cfg process.server round +
                allDescriptors next.connectionList := by
            rw [held, (leads.frame_left left).run_eq, add_assoc]
          have onward := ih kept heldNext rest
          rw [onward, leftOpen, served, add_assoc left]

end Passes

/-- In every run, what is held besides the descriptors of before is what is in use and what was
left open: the file of each HEAD request whose file could be opened, the pipe ends of each child
whose output has ended, and what each connection had in use when it was closed, its child's pipe
ends or its file. Nothing else is left open, and whatever `others` are held, none of them is ever
closed. -/
theorem held_accounts (cfg : Config) (httpSockFd : Nat) (rounds : List Round)
    (others : Multiset Nat) (process : Process)
    (ran : processRun cfg rounds ⟨initServer httpSockFd, others⟩ = .ok process) :
    process.held = others + leftOpen cfg rounds (initServer httpSockFd) +
      allDescriptors process.server.connectionList := by
  have holding : ∀ slot ∈ (initServer httpSockFd).connectionList, Holding slot := by
    intro slot member
    rw [List.eq_of_mem_replicate member]
    exact createPeer_holding
  have nothing : others = others + allDescriptors (initServer httpSockFd).connectionList := by
    have unused : allDescriptors (initServer httpSockFd).connectionList = 0 :=
      allDescriptors_unused maxClients
    rw [unused, add_zero]
  exact processRun_leaves holding nothing ran

theorem held_accounts_head : ∃ process,
    processRun sampleConfig headOfFile ⟨initServer 3, {0, 1, 2, 3}⟩ = .ok process ∧
      process.held = {0, 1, 2, 3} + leftOpen sampleConfig headOfFile (initServer 3) +
        allDescriptors process.server.connectionList ∧
      leftOpen sampleConfig headOfFile (initServer 3) ≠ 0 := by
  have goesOn : (processRun sampleConfig headOfFile ⟨initServer 3, {0, 1, 2, 3}⟩).isOk = true := by
    decide +kernel
  have some : leftOpen sampleConfig headOfFile (initServer 3) ≠ 0 := by
    decide +kernel
  cases ran : processRun sampleConfig headOfFile ⟨initServer 3, {0, 1, 2, 3}⟩ with
  | error fault =>
      rw [ran] at goesOn
      cases goesOn
  | ok process =>
      exact ⟨process, rfl, held_accounts sampleConfig 3 headOfFile {0, 1, 2, 3} process ran, some⟩

end Liso
