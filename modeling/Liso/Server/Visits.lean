import Liso.Http.Advance
import Liso.Server.Turns

/-! What a pass of the loop does for a connection that stays open: `handle_http` is called, or there
is nothing to call it for. -/

namespace Liso

def PeerEvent.isCall : PeerEvent → Bool
  | .call _ => true
  | _ => false

def PeerEvent.isSend : PeerEvent → Bool
  | .send _ => true
  | _ => false

def Peer.consumed (peer : Peer) : Nat :=
  (Trace.received peer.trace).length - peer.receivingBuffer.content.length

def Hears (client peer : Peer) : Prop :=
  ∃ bytes, Trace.received peer.trace = Trace.received client.trace ++ bytes ∧
    peer.receivingBuffer.content = client.receivingBuffer.content ++ bytes

namespace Hears

variable {client peer after : Peer}

theorem still {events : List Event} (trace : peer.trace = client.trace ++ events)
    (none : Trace.received events = [])
    (same : peer.receivingBuffer.content = client.receivingBuffer.content) : Hears client peer := by
  refine ⟨[], ?_, same.trans (List.append_nil _).symm⟩
  rw [trace, Trace.received_append, none]

theorem refl (client : Peer) : Hears client client := still (List.append_nil _).symm rfl rfl

theorem trans (first : Hears client peer) (second : Hears peer after) : Hears client after := by
  obtain ⟨bytes, received, content⟩ := first
  obtain ⟨more, receivedMore, contentMore⟩ := second
  refine ⟨bytes ++ more, ?_, ?_⟩
  · rw [receivedMore, received, List.append_assoc]
  · rw [contentMore, content, List.append_assoc]

theorem receives (received : Receives client peer) : Hears client peer := by
  cases received with
  | nothing => exact refl client
  | bytes inv content =>
      refine ⟨_, ?_, content⟩
      rw [Peer.record, Trace.received_append]
      simp [Trace.received, Event.receivedBytes]

theorem consumed (hears : Hears client peer) : peer.consumed = client.consumed := by
  obtain ⟨bytes, received, content⟩ := hears
  rw [Peer.consumed, Peer.consumed, received, content, List.length_append, List.length_append]
  omega

end Hears

structure Fills (client peer : Peer) : Prop where
  sent : Trace.sent peer.trace = Trace.sent client.trace
  content : client.sendingBuffer.content <+: peer.sendingBuffer.content

namespace Fills

variable {client peer after : Peer}

theorem still {events : List Event} (trace : peer.trace = client.trace ++ events)
    (none : Trace.sent events = [])
    (same : peer.sendingBuffer.content = client.sendingBuffer.content) : Fills client peer where
  sent := by rw [trace, Trace.sent_append, none, List.append_nil]
  content := by rw [same]

theorem refl (client : Peer) : Fills client client := still (List.append_nil _).symm rfl rfl

theorem trans (first : Fills client peer) (second : Fills peer after) : Fills client after where
  sent := second.sent.trans first.sent
  content := first.content.trans second.content

end Fills

def Tended (task next : HttpTask) : Prop :=
  next = task ∨ task.state = .processingCgi ∧ next = { task with state := .finished }

section Steps

variable {cfg : Config} {s t : Session} {task : HttpTask} {event : PeerEvent}

theorem StepCases.hears (uncalled : event.isCall = false) (step : StepCases cfg s task event t) :
    Hears s.peer t.peer := by
  cases step with
  | deliver got => exact .receives got
  | recv got => exact .receives got
  | call => cases uncalled
  | send sent =>
      cases sent with
      | nothing empty => exact .refl _
      | accepted => exact .still rfl rfl rfl
      | failed => exact .still (List.append_nil _).symm rfl rfl
  | toCgi child sent =>
      cases sent with
      | nothing empty => exact .refl _
      | accepted => exact .still rfl rfl rfl
      | failed => exact .still (List.append_nil _).symm rfl rfl
  | @fromCgi answer executor status peer child piped =>
      cases piped with
      | full => exact .refl _
      | failed => exact .refl _
      | ended isLive =>
          have none : Trace.received [Event.cgiEnded executor.req] = [] := rfl
          exact .still rfl none rfl
      | piped taken puts =>
          obtain ⟨sendingBuffer, rfl⟩ := puts.frame
          refine .still (List.append_assoc _ _ _) ?_ rfl
          rw [Trace.received_append, Trace.received_map_put]
          rfl
  | noChild => exact .refl _
  | others => exact .refl _

theorem StepCases.tended (uncalled : event.isCall = false) (inv : s.peer.Inv task)
    (step : StepCases cfg s task event t) :
    ∃ next, t.peer.httpTask = .live next ∧ Tended task next := by
  have live := inv.live
  cases step with
  | deliver got => exact ⟨task, got.httpTask.trans live, .inl rfl⟩
  | recv got => exact ⟨task, got.httpTask.trans live, .inl rfl⟩
  | call => cases uncalled
  | send sent => exact ⟨task, by cases sent <;> exact live, .inl rfl⟩
  | toCgi child sent => exact ⟨task, by cases sent <;> exact live, .inl rfl⟩
  | fromCgi child piped =>
      cases piped with
      | full => exact ⟨task, live, .inl rfl⟩
      | failed => exact ⟨task, live, .inl rfl⟩
      | ended isLive =>
          cases isLive.symm.trans live
          have running := inv.child
          rw [child] at running
          exact ⟨_, rfl, .inr ⟨running.1, rfl⟩⟩
      | piped taken puts =>
          obtain ⟨sendingBuffer, rfl⟩ := puts.frame
          exact ⟨task, live, .inl rfl⟩
  | noChild => exact ⟨task, live, .inl rfl⟩
  | others => exact ⟨task, live, .inl rfl⟩

theorem StepCases.fills (uncalled : event.isCall = false) (unsent : event.isSend = false)
    (step : StepCases cfg s task event t) : Fills s.peer t.peer := by
  have received {peer : Peer} (received : Receives s.peer peer) : Fills s.peer peer := by
    cases received with
    | nothing => exact .refl _
    | bytes inv content => exact .still rfl rfl rfl
  cases step with
  | deliver got => exact received got
  | recv got => exact received got
  | call => cases uncalled
  | send => cases unsent
  | toCgi child sent =>
      cases sent with
      | nothing empty => exact .refl _
      | accepted => exact .still rfl rfl rfl
      | failed => exact .still (List.append_nil _).symm rfl rfl
  | @fromCgi answer executor status peer child piped =>
      cases piped with
      | full => exact .refl _
      | failed => exact .refl _
      | ended isLive =>
          have none : Trace.sent [Event.cgiEnded executor.req] = [] := rfl
          exact .still rfl none rfl
      | @piped bytes data next taken puts =>
          have content := puts.content
          obtain ⟨sendingBuffer, rfl⟩ := puts.frame
          refine ⟨?_, content ▸ List.prefix_append _ _⟩
          have passes : ∀ event ∈ (data.map (⟨·, executor.req⟩ : UInt8 → OutByte)).map Event.put,
              event.ofPass = true := by simp [Event.ofPass]
          simp only [Peer.record, Trace.sent_append, Trace.sent_ofPass passes, List.append_nil]
          exact List.append_nil _
  | noChild => exact .refl _
  | others => exact .refl _

theorem sessionRun_fills {events : List PeerEvent} (inv : s.Inv)
    (quiet : ∀ event ∈ events, event.isCall = false ∧ event.isSend = false)
    (ran : sessionRun cfg events s = .ok t) : Fills s.peer t.peer := by
  have keeps {r t : Session} {now : HttpTask} {event : PeerEvent} (_ : r.closed = false)
      (_ : r.peer.Inv now) (fills : Fills s.peer r.peer)
      (quiet : event.isCall = false ∧ event.isSend = false) (step : StepCases cfg r now event t) :
      Fills s.peer t.peer := fills.trans (step.fills quiet.1 quiet.2)
  exact sessionRun_keeps keeps inv (.refl _) quiet ran

theorem sessionRun_tended {events : List PeerEvent} (inv : s.peer.Inv task)
    (uncalled : ∀ event ∈ events, event.isCall = false) (ran : sessionRun cfg events s = .ok t) :
    Hears s.peer t.peer ∧ ∃ next, t.peer.httpTask = .live next ∧ Tended task next := by
  have keeps {r t : Session} {now : HttpTask} {event : PeerEvent} (_ : r.closed = false)
      (valid : r.peer.Inv now)
      (tended : Hears s.peer r.peer ∧ ∃ next, r.peer.httpTask = .live next ∧ Tended task next)
      (uncalled : event.isCall = false) (step : StepCases cfg r now event t) :
      Hears s.peer t.peer ∧ ∃ next, t.peer.httpTask = .live next ∧ Tended task next := by
    obtain ⟨hears, last, live, tended⟩ := tended
    cases live.symm.trans valid.live
    refine ⟨hears.trans (step.hears uncalled), ?_⟩
    obtain ⟨next, live, more⟩ := step.tended uncalled valid
    refine ⟨next, live, ?_⟩
    rcases tended with rfl | ⟨running, finished⟩
    · exact more
    · rcases more with rfl | ⟨again, _⟩
      · exact .inr ⟨running, finished⟩
      · rw [finished] at again
        cases again
  exact sessionRun_keeps keeps (fun _ => ⟨task, inv⟩) ⟨.refl _, task, inv.live, .inl rfl⟩ uncalled
    ran

end Steps

structure Drains (client peer : Peer) : Prop where
  room : peer.sendingBuffer.content.length < bufDataMaxsize
  sent : client.sendingBuffer.content ≠ [] →
    (Trace.sent client.trace).length < (Trace.sent peer.trace).length

/-- `handle_http` is called, once the client `takes` what it can; or it is not, because nothing was
received that waits for it, and nothing could be sent. -/
inductive Visit (cfg : Config) (takes : Prop) (start : Session) : Session → Prop
  | called {events : List PeerEvent} {s t : Session} {os : Os}
      (uncalled : ∀ event ∈ events, event.isCall = false)
      (ran : sessionRun cfg events start = .ok s) (isOpen : s.closed = false)
      (drains : takes → Drains start.peer s.peer)
      (stepped : sessionStep cfg s (.call os) = .ok t) : Visit cfg takes start t
  | rested {events : List PeerEvent} {s : Session}
      (uncalled : ∀ event ∈ events, event.isCall = false)
      (ran : sessionRun cfg events start = .ok s)
      (nothingReceived : s.peer.receivingBuffer.content = [])
      (nothingToSend : takes → start.peer.sendingBuffer.content = [])
      (same : Idle start.peer.cgiExecutor → s.peer = start.peer) : Visit cfg takes start s

theorem Visit.mono {cfg : Config} {takes fewer : Prop} {start t : Session}
    (visit : Visit cfg takes start t) (weaken : fewer → takes) : Visit cfg fewer start t := by
  cases visit with
  | called uncalled ran isOpen drains stepped =>
      exact .called uncalled ran isOpen (drains ∘ weaken) stepped
  | rested uncalled ran nothingReceived nothingToSend same =>
      exact .rested uncalled ran nothingReceived (nothingToSend ∘ weaken) same

theorem sendToPeer_status {peer next : Peer} {answer : WriteAnswer} {status : SendStatus}
    (sending : peer.sendingBuffer.Inv) (ran : sendToPeer peer answer = .ok (status, next)) :
    (status = .nothingToSend → next = peer ∧ peer.sendingBuffer.content = []) ∧
      (status = .success → ∀ count, answer = .accepted (count + 1) → Drains peer next) := by
  unfold sendToPeer at ran
  by_cases empty : bufEmpty peer.sendingBuffer = true
  · have none : peer.sendingBuffer.content = [] := sending.refines.empty_iff.mp empty
    rw [if_pos empty] at ran
    split at ran
    · obtain ⟨task, _, result⟩ := bind_ok.mp ran
      simp only [pure_ok, Except.ok.injEq, Prod.mk.injEq] at result
      obtain ⟨told, rfl⟩ := result
      refine ⟨fun _ => ⟨rfl, none⟩, fun success => ?_⟩
      rw [success] at told
      split at told <;> cases told
    · cases ran
      exact ⟨fun _ => ⟨rfl, none⟩, fun success => by cases success⟩
  · obtain ⟨drained, drain, refines⟩ := drain_content sending
    have some : 0 < peer.sendingBuffer.content.length :=
      List.length_pos_iff.mpr (mt sending.refines.empty_iff.mpr empty)
    have fits := sending.content_fits
    rw [if_neg empty, drain, ok_bind] at ran
    have restored := putbackLoop_restores refines fits
    cases answer with
    | accepted count =>
        obtain ⟨buf, back, inv, left⟩ := restored count
        simp only [back, ok_bind, pure_ok, Except.ok.injEq, Prod.mk.injEq] at ran
        obtain ⟨told, rfl⟩ := ran
        refine ⟨fun nothing => ?_, ?_⟩
        · rw [nothing] at told
          split at told <;> cases told
        · rintro _ more ⟨⟩
          constructor
          · change buf.content.length < _
            rw [left, List.length_drop]
            omega
          · intro _
            simp only [Peer.record, Trace.sent_append, List.length_append]
            simp only [Trace.sent, List.flatMap_singleton, Event.sentBytes, List.length_take]
            omega
    | wouldBlock =>
        obtain ⟨buf, back, inv, left⟩ := restored 0
        simp only [back, ok_bind, pure_ok, Except.ok.injEq, Prod.mk.injEq] at ran
        obtain ⟨told, rfl⟩ := ran
        refine ⟨fun nothing => ?_, fun _ _ impossible => by cases impossible⟩
        rw [nothing] at told
        split at told <;> cases told
    | error =>
        cases ran
        exact ⟨fun nothing => (by cases nothing), fun success => (by cases success)⟩

section Serve

variable {cfg : Config} {round : Round} {i socket : Nat} {fds : FdSets}
  {request : Ptr RequestCell} {client next : Peer} {result : Served}

private theorem pipeSteps_quiet (event : PeerEvent)
    (member : event ∈ pipeSteps round i fds client) :
    event.isCall = false ∧ event.isSend = false := by
  have output (client : Peer) (member : event ∈ pipeOutSteps round i fds client) :
      event.isCall = false ∧ event.isSend = false := by
    unfold pipeOutSteps at member
    split at member
    · split at member
      · rw [List.mem_singleton.mp member]
        exact ⟨rfl, rfl⟩
      · cases member
    · cases member
  unfold pipeSteps at member
  split at member
  · split at member
    · rcases List.mem_cons.mp member with rfl | later
      · exact ⟨rfl, rfl⟩
      · split at later
        · exact output _ later
        · cases later
    · exact output _ member
  · cases member

theorem servePipes_open (cfg : Config) (sound : Sound client)
    (ran : servePipes round i fds request client = .ok result) (isOpen : result.closed = false) :
    ∃ events, (∀ event ∈ events, event.isCall = false ∧ event.isSend = false) ∧
      sessionRun cfg events ⟨request, client, false⟩ =
        .ok ⟨result.request, result.client, false⟩ ∧
      (Idle client.cgiExecutor → result.client = client) := by
  have takes : Takes cfg (pipeSteps round i fds client) ⟨request, client, false⟩ result :=
    servePipes_takes ran
  obtain ⟨t, stepped, after, ⟨_, tOpen, peer⟩ | ⟨closed, _⟩⟩ := takes
  · refine ⟨pipeSteps round i fds client, pipeSteps_quiet, ?_, fun idle => ?_⟩
    · rw [stepped, after, peer, ← tOpen]
    · rcases sound.executor with none | ⟨executor, live⟩
      · unfold servePipes at ran
        simp only [none] at ran
        cases ran
        rfl
      · exact absurd live (idle executor)
  · cases isOpen.symm.trans closed

theorem serveRecv_open (cfg : Config) (request : Ptr RequestCell) {hasRead : Bool}
    (receiving : client.receivingBuffer.Inv)
    (ran : serveRecv round i fds socket client = (some hasRead, next)) :
    ∃ events, (∀ event ∈ events, event.isCall = false ∧ event.isSend = false) ∧
      sessionRun cfg events ⟨request, client, false⟩ = .ok ⟨request, next, false⟩ ∧
      (hasRead = false → next = client ∧ client.receivingBuffer.content = []) := by
  unfold serveRecv at ran
  split at ran
  · cases received : receiveFromPeer client (round.recv i) with
    | mk status peer =>
        cases status with
        | success =>
            simp only [received] at ran
            cases ran
            refine ⟨[.recv (round.recv i)], ?_, ?_, nofun⟩
            · simp [PeerEvent.isCall, PeerEvent.isSend]
            · simp [sessionRun, Run.run, sessionStep, received]
        | failure =>
            simp only [received] at ran
            cases ran
  · cases ran
    refine ⟨[], by simp, rfl, fun empty => ⟨rfl, receiving.refines.empty_iff.mp ?_⟩⟩
    simpa using empty

theorem serveSend_open (cfg : Config) (request : Ptr RequestCell) {hasSent : Bool}
    (sending : client.sendingBuffer.Inv)
    (ran : serveSend round i fds socket client = .ok (some hasSent, next)) :
    ∃ events, (∀ event ∈ events, event.isCall = false) ∧
      sessionRun cfg events ⟨request, client, false⟩ = .ok ⟨request, next, false⟩ ∧
      (hasSent = false → next = client ∧
        (socket ∈ fds.write → client.sendingBuffer.content = [])) ∧
      (socket ∈ fds.write → ∀ count, round.send i = .accepted (count + 1) →
        Drains client next) := by
  unfold serveSend at ran
  split at ran
  · next writable =>
      cases sent : sendToPeer client (round.send i) with
      | error fault =>
          simp only [sent] at ran
          cases ran
      | ok answer =>
          obtain ⟨status, peer⟩ := answer
          have told := sendToPeer_status sending sent
          cases status with
          | failure =>
              simp only [sent] at ran
              cases ran
          | success =>
              simp only [sent] at ran
              cases ran
              refine ⟨[.send (round.send i)], by simp [PeerEvent.isCall], ?_, nofun,
                fun _ => told.2 rfl⟩
              simp [sessionRun, Run.run, sessionStep, sent]
          | nothingToSend =>
              simp only [sent] at ran
              cases ran
              obtain ⟨rfl, empty⟩ := told.1 rfl
              refine ⟨[.send (round.send i)], by simp [PeerEvent.isCall], ?_,
                fun _ => ⟨rfl, fun _ => empty⟩, fun _ _ _ => ⟨?_, fun some => absurd empty some⟩⟩
              · simp [sessionRun, Run.run, sessionStep, sent]
              · rw [empty]
                decide
  · next other =>
      cases ran
      exact ⟨[], by simp, rfl, fun _ => ⟨rfl, fun writable => absurd writable other⟩,
        fun writable => absurd writable other⟩

theorem Sound.run {events : List PeerEvent} {after : Ptr RequestCell} (sound : Sound client)
    (ran : sessionRun cfg events ⟨request, client, false⟩ = .ok ⟨after, next, false⟩) :
    Sound next ∧ next.socket = client.socket := by
  have follows : Follows cfg ⟨request, client, false⟩ ⟨after, next, false⟩ :=
    ⟨events, _, ran, rfl, .inl ⟨rfl, rfl, rfl⟩⟩
  rcases follows.sound sound with ⟨_, still⟩ | ⟨closed, _⟩
  · exact still
  · cases closed

private theorem hangUp_closed (ran : hangUp request client = .ok result) : result.closed = true := by
  unfold hangUp at ran
  cases closing : closeClientConnection client with
  | error fault =>
      simp only [closing] at ran
      cases ran
  | ok slot =>
      simp only [closing] at ran
      cases ran
      rfl

private theorem serveHttp_open {os : Os} (ran : serveHttp cfg os request client = .ok result)
    (isOpen : result.closed = false) :
    sessionStep cfg ⟨request, client, false⟩ (.call os) =
      .ok ⟨result.request, result.client, false⟩ := by
  obtain ⟨t, stepped, after, ⟨_, tOpen, peer⟩ | ⟨closed, _⟩⟩ := serveHttp_takes ran
  · obtain ⟨next, first, rest⟩ := Run.run_cons_ok.mp stepped
    cases rest
    rw [first, after, peer, ← tOpen]
  · cases isOpen.symm.trans closed

def Taking (round : Round) (i : Nat) (fds : FdSets) (socket : Nat) : Prop :=
  socket ∈ fds.write ∧ ∃ count, round.send i = .accepted (count + 1)

private theorem serveRest_visits {start : Session} {events : List PeerEvent} {hasRead : Bool}
    (quiet : ∀ event ∈ events, event.isCall = false ∧ event.isSend = false)
    (steps : sessionRun cfg events start = .ok ⟨request, client, false⟩) (inv : start.Inv)
    (sending : client.sendingBuffer.Inv)
    (unread : hasRead = false → client.receivingBuffer.content = [] ∧
      (Idle start.peer.cgiExecutor → client = start.peer))
    (ran : serveRest cfg round i fds socket request hasRead client = .ok result)
    (isOpen : result.closed = false) :
    Visit cfg (Taking round i fds socket) start ⟨result.request, result.client, false⟩ := by
  have fills : Fills start.peer client := sessionRun_fills inv quiet steps
  unfold serveRest at ran
  cases sent : serveSend round i fds socket client with
  | error fault =>
      simp only [sent] at ran
      cases ran
  | ok answer =>
      obtain ⟨hasSent, left⟩ := answer
      cases hasSent with
      | none =>
          simp only [sent] at ran
          cases isOpen.symm.trans (hangUp_closed ran)
      | some hasSent =>
          simp only [sent] at ran
          obtain ⟨last, uncalledLast, stepped, unsent, drains⟩ :=
            serveSend_open cfg request sending sent
          have allSteps := Run.run_append_ok.mpr ⟨_, steps, stepped⟩
          have allUncalled (event : PeerEvent) (member : event ∈ events ++ last) :
              event.isCall = false := by
            rcases List.mem_append.mp member with early | late
            · exact (quiet event early).1
            · exact uncalledLast event late
          split at ran
          · cases isOpen.symm.trans (hangUp_closed ran)
          · split at ran
            · refine .called allUncalled allSteps rfl (fun takes => ?_) (serveHttp_open ran isOpen)
              obtain ⟨writable, count, accepted⟩ := takes
              obtain ⟨room, gone⟩ := drains writable count accepted
              refine ⟨room, fun some => ?_⟩
              rw [← fills.sent]
              refine gone fun empty => some ?_
              exact List.prefix_nil.mp (empty ▸ fills.content)
            · next idle =>
                cases ran
                obtain ⟨noRead, noSend⟩ : hasRead = false ∧ hasSent = false := by simpa using idle
                obtain ⟨empty, same⟩ := unread noRead
                obtain ⟨rfl, drained⟩ := unsent noSend
                refine .rested allUncalled allSteps empty (fun takes => ?_) same
                exact List.prefix_nil.mp (drained takes.1 ▸ fills.content)

theorem serveClient_visits (sound : Sound client) (used : client.socket = some socket)
    (ran : serveClient cfg round i fds request client = .ok result)
    (isOpen : result.closed = false) :
    Visit cfg (Taking round i fds socket) ⟨request, client, false⟩
      ⟨result.request, result.client, false⟩ := by
  unfold serveClient at ran
  cases piped : servePipes round i fds request client with
  | error fault =>
      simp only [piped] at ran
      cases ran
  | ok served =>
      simp only [piped] at ran
      have takes : Takes cfg (pipeSteps round i fds client) ⟨request, client, false⟩ served :=
        servePipes_takes piped
      rcases takes.follows.sound sound with
        ⟨pipesOpen, pipesSound, kept⟩ | ⟨closed, abandoned⟩
      · obtain ⟨events, quiet, steps, same⟩ := servePipes_open cfg sound piped pipesOpen
        rw [kept.trans used] at ran
        simp only [serveSocket] at ran
        cases received : serveRecv round i fds socket served.client with
        | mk hasRead heard =>
            obtain ⟨task, inv⟩ := pipesSound.inv
            cases hasRead with
            | none =>
                simp only [received] at ran
                cases isOpen.symm.trans (hangUp_closed ran)
            | some hasRead =>
                simp only [received] at ran
                obtain ⟨more, quietToo, stepsToo, unread⟩ :=
                  serveRecv_open cfg served.request inv.receiving received
                obtain ⟨_, after⟩ := (pipesSound.run stepsToo).1.inv
                refine serveRest_visits (List.forall_mem_append.mpr ⟨quiet, quietToo⟩)
                  (Run.run_append_ok.mpr ⟨_, steps, stepsToo⟩) (sound request).1 after.sending
                  (fun noRead => ?_) ran isOpen
                obtain ⟨rfl, empty⟩ := unread noRead
                exact ⟨empty, same⟩
      · rw [abandoned.socket] at ran
        cases ran
        cases isOpen.symm.trans closed

end Serve

end Liso
