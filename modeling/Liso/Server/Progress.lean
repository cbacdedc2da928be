import Liso.Lib.Endless
import Liso.Server.ChildFailure
import Liso.Server.Framing
import Liso.Server.Lasting

/-! Progress: as long as a client takes what it is sent, the requests that it has sent are answered,
or its connection ends, or it waits for a child that does not end. -/

namespace Liso

structure Forward (takes : Prop) (client after : Peer) (task next : HttpTask) : Prop where
  consumed : client.consumed ≤ after.consumed
  reads : task.stage = 0 → client.receivingBuffer.content ≠ [] → client.consumed < after.consumed
  waits : task.stage ≠ 0 → next.pace ≤ task.pace
  answers : takes → task.stage = 1 →
    (task.state = .finished → client.receivingBuffer.content ≠ []) → next.pace < task.pace
  sends : takes → client.sendingBuffer.content ≠ [] →
    (Trace.sent client.trace).length < (Trace.sent after.trace).length
  parked : Parked next after

section Visits

variable {cfg : Config} {s t : Session} {os : Os} {task : HttpTask}

private theorem CallEffect.silent {h next : Handling} (effect : CallEffect h next) :
    Trace.received next.peer.trace = Trace.received h.peer.trace ∧
      Trace.sent next.peer.trace = Trace.sent h.peer.trace := by
  have moved {h next : Handling} {events : List Event} (moves : Moves h next events) :
      Trace.received next.peer.trace = Trace.received h.peer.trace ∧
        Trace.sent next.peer.trace = Trace.sent h.peer.trace := by
    rw [moves.trace, Trace.received_append, Trace.received_ofPass moves.passes,
      Trace.sent_append, Trace.sent_ofPass moves.passes]
    simp
  cases effect with
  | moved events moves => exact moved moves
  | started events middle moves start task =>
      obtain ⟨executor, _, _, same⟩ := start.started
      obtain ⟨received, sent⟩ := moved moves
      rw [same]
      simp only [Peer.record, Trace.received_append, Trace.sent_append, received, sent]
      exact ⟨List.append_nil _, List.append_nil _⟩

theorem call_advances (inv : s.peer.Inv task) (isOpen : s.closed = false)
    (stays : t.closed = false) (stepped : sessionStep cfg s (.call os) = .ok t) :
    Trace.received t.peer.trace = Trace.received s.peer.trace ∧
      Trace.sent t.peer.trace = Trace.sent s.peer.trace ∧
      ∃ next, t.peer.httpTask = .live next ∧ Advances task s.peer next t.peer := by
  unfold sessionStep at stepped
  rw [if_neg (by simp [isOpen])] at stepped
  cases called : handleHttp cfg os s.request s.peer with
  | error fault =>
      simp only [called] at stepped
      cases stepped
  | ok answer =>
      obtain ⟨code, after, left⟩ := answer
      simp only [called] at stepped
      cases stepped
      have later : code ≠ .closeConnImmediately := by
        rintro rfl
        cases stays
      obtain ⟨h, rfl, rfl, effect, _⟩ := handleHttp_effect inv called
      obtain ⟨received, sent⟩ := effect.silent
      obtain ⟨next, live, advances⟩ := handleHttp_advances inv called later
      have trace : Trace.received (h.peer.trace ++ [.returned code]) = Trace.received s.peer.trace ∧
          Trace.sent (h.peer.trace ++ [.returned code]) = Trace.sent s.peer.trace := by
        rw [Trace.received_append, Trace.sent_append, received, sent]
        exact ⟨List.append_nil _, List.append_nil _⟩
      cases code with
      | closeConnImmediately => exact absurd rfl later
      | closeConn => exact ⟨trace.1, trace.2, next, live, advances.content, advances.reads,
          advances.waits, advances.answers, advances.parked.reading, advances.parked.streaming⟩
      | keepConn => exact ⟨trace.1, trace.2, next, live, advances.content, advances.reads,
          advances.waits, advances.answers, advances.parked.reading, advances.parked.streaming⟩

private theorem Session.Framing.waiting (framing : s.Framing cfg) :
    s.peer.receivingBuffer.content.length ≤ (Trace.received s.peer.trace).length := by
  obtain ⟨part, framed, _⟩ := framing
  rw [framed.account, List.length_append, List.length_append]
  omega

private theorem Tended.pace {next : HttpTask} (tended : Tended task next) : next.pace ≤ task.pace := by
  rcases tended with rfl | ⟨running, rfl⟩
  · exact le_refl _
  · refine (HttpTask.pace_lt_of_stage ?_).le
    rw [HttpTask.stage_running running]
    exact Nat.lt_succ_self 1

private theorem Tended.same {next : HttpTask} (tended : Tended task next) (stage : task.stage ≠ 2) :
    next = task := by
  rcases tended with same | ⟨running, _⟩
  · exact same
  · exact absurd (HttpTask.stage_running running) stage

private theorem called_forward {takes : Prop} {client : Peer} {middle : HttpTask}
    (hears : Hears client s.peer) (tended : Tended task middle) (inv : s.peer.Inv middle)
    (framing : s.Framing cfg) (drains : takes → Drains client s.peer) (isOpen : s.closed = false)
    (stays : t.closed = false) (stepped : sessionStep cfg s (.call os) = .ok t) :
    ∃ next, t.peer.httpTask = .live next ∧ Forward takes client t.peer task next := by
  obtain ⟨received, sent, next, live, advances⟩ := call_advances inv isOpen stays stepped
  have waiting := framing.waiting
  have same : s.peer.consumed = client.consumed := hears.consumed
  have content := advances.content
  obtain ⟨bytes, _, grown⟩ := hears
  refine ⟨next, live, ?_, fun reading some => ?_, fun stage => ?_, fun taking stage finished => ?_,
    fun taking some => ?_, advances.parked⟩
  · rw [← same, Peer.consumed, Peer.consumed, received]
    omega
  · obtain rfl := tended.same (by omega)
    have reads := advances.reads reading fun empty => some (by
      rw [grown] at empty
      exact (List.append_eq_nil_iff.mp empty).1)
    rw [← same, Peer.consumed, Peer.consumed, received]
    omega
  · by_cases early : middle.stage = 0
    · obtain rfl : middle = task := by
        rcases tended with same | ⟨_, rfl⟩
        · exact same
        · cases early
      exact absurd early stage
    · exact (advances.waits early).trans tended.pace
  · obtain rfl := tended.same (by omega)
    exact advances.answers stage fun _ => (drains taking).room
  · rw [sent]
    exact (drains taking).sent some

private theorem rested_forward {takes : Prop} {client peer : Peer} {next : HttpTask}
    (hears : Hears client peer) (tended : Tended task next) (inv : client.Inv task)
    (parked : Parked task client) (empty : peer.receivingBuffer.content = [])
    (drained : takes → client.sendingBuffer.content = [])
    (same : Idle client.cgiExecutor → peer = client) : Forward takes client peer task next := by
  have none : client.receivingBuffer.content = [] := by
    obtain ⟨bytes, _, grown⟩ := hears
    rw [empty] at grown
    exact (List.append_eq_nil_iff.mp grown.symm).1
  refine ⟨Nat.le_of_eq hears.consumed.symm, fun _ some => absurd none some, fun _ => tended.pace,
    fun taking stage finished => ?_, fun taking some => absurd (drained taking) some, ?_, ?_⟩
  · rcases inv.resting.answering stage with sends | ends
    · have full := parked.streaming sends
      rw [drained taking] at full
      cases full
    · exact absurd none (finished ends)
  · exact fun some => absurd empty some
  · intro sends
    rcases tended with rfl | ⟨_, rfl⟩
    · rw [same (inv.child.idle (by simp [sends]))]
      exact parked.streaming sends
    · cases sends

theorem Visit.forward {takes : Prop} (visit : Visit cfg takes s t) (inv : s.peer.Inv task)
    (framing : s.Framing cfg) (parked : Parked task s.peer) (stays : t.closed = false) :
    ∃ next, t.peer.httpTask = .live next ∧ Forward takes s.peer t.peer task next := by
  cases visit with
  | called uncalled ran isOpen drains stepped =>
      obtain ⟨hears, middle, live, tended⟩ := sessionRun_tended inv uncalled ran
      obtain ⟨other, valid⟩ := sessionRun_inv (fun _ => ⟨task, inv⟩) ran isOpen
      cases live.symm.trans valid.live
      exact called_forward hears tended valid
        (sessionRun_framing (fun _ => ⟨task, inv⟩) framing ran) drains isOpen stays stepped
  | rested uncalled ran nothingReceived nothingToSend same =>
      obtain ⟨hears, next, live, tended⟩ := sessionRun_tended inv uncalled ran
      exact ⟨next, live, rested_forward hears tended inv parked nothingReceived nothingToSend same⟩

end Visits

def HttpTask.done (task : HttpTask) : Nat :=
  match task.state with
  | .recvHeader => task.requests
  | .finished => task.requests
  | _ => task.requests - 1

structure Behind (count : Nat) (start : List Event) (task : HttpTask) (trace : List Event) :
    Prop where
  done : count ≤ task.done
  underway : ¬ task.Between → 1 ≤ task.requests
  later : ∃ events, trace = start ++ events ∧ ∀ byte ∈ Trace.puts events, count < byte.req

section Behind

variable {task next : HttpTask} {count : Nat} {start trace events : List Event}

theorem HttpTask.done_between (between : task.Between) : task.done = task.requests := by
  rcases between with state | state <;> simp only [HttpTask.done, state]

theorem HttpTask.done_midway (midway : ¬ task.Between) : task.done = task.requests - 1 := by
  unfold HttpTask.done
  split
  · next state => exact absurd (.inl state) midway
  · next state => exact absurd (.inr state) midway
  · rfl

theorem HttpTask.done_bounds (task : HttpTask) :
    task.requests - 1 ≤ task.done ∧ task.done ≤ task.requests := by
  unfold HttpTask.done
  split <;> omega

theorem Behind.refl (underway : ¬ task.Between → 1 ≤ task.requests) (bound : count ≤ task.done)
    (trace : List Event) : Behind count trace task trace :=
  ⟨bound, underway, [], (List.append_nil _).symm, nofun⟩

theorem Behind.trans {middle : List Event} (first : Behind count start task middle)
    (second : Behind count middle next trace) : Behind count start next trace := by
  obtain ⟨past, rfl, late⟩ := first.later
  obtain ⟨more, rfl, later⟩ := second.later
  refine ⟨second.done, second.underway, past ++ more, List.append_assoc _ _ _, ?_⟩
  rw [Trace.puts_append]
  exact List.forall_mem_append.mpr ⟨late, later⟩

theorem Behind.received (behind : Behind count start task trace) :
    Trace.received start <+: Trace.received trace := by
  obtain ⟨events, rfl, _⟩ := behind.later
  rw [Trace.received_append]
  exact List.prefix_append _ _

theorem Replies.behind (replies : Replies task next events)
    (behind : Behind count start task trace) : Behind count start next (trace ++ events) := by
  obtain ⟨past, rfl, late⟩ := behind.later
  have bounds := next.done_bounds
  have before := task.done_bounds
  have done := behind.done
  have stays (puts : ∀ byte ∈ Trace.puts events, count < byte.req) :
      ∃ more, start ++ past ++ events = start ++ more ∧
        ∀ byte ∈ Trace.puts more, count < byte.req := by
    refine ⟨past ++ events, List.append_assoc _ _ _, ?_⟩
    rw [Trace.puts_append]
    exact List.forall_mem_append.mpr ⟨late, puts⟩
  have silence (silent : Trace.puts events = []) : ∀ byte ∈ Trace.puts events, count < byte.req := by
    rw [silent]
    exact fun _ member => absurd member List.not_mem_nil
  cases replies with
  | quiet silent still requests unanswered between running =>
      refine ⟨?_, fun midway => ?_, stays (silence silent)⟩
      · by_cases here : task.Between
        · have now := HttpTask.done_between (between here)
          have same := HttpTask.done_between here
          omega
        · have now := HttpTask.done_midway here
          omega
      · rw [requests]
        exact behind.underway (midway ∘ between)
  | parsed silent requests idle => exact ⟨by omega, fun _ => by omega, stays (silence silent)⟩
  | put tags requests answering after =>
      have some := behind.underway answering
      have now := HttpTask.done_midway answering
      refine ⟨by omega, fun _ => by omega, stays fun byte member => ?_⟩
      rw [tags byte member]
      omega
  | started silent fresh requests unanswered running =>
      have answering : ¬ task.Between := by
        rintro (state | state) <;> rcases unanswered with other | other <;>
          cases state.symm.trans other
      have some := behind.underway answering
      have now := HttpTask.done_midway answering
      exact ⟨by omega, fun _ => by omega, stays (silence silent)⟩
  | piped data puts reads running same =>
      have answering : ¬ task.Between := by
        rintro (state | state) <;> cases state.symm.trans running
      have some := behind.underway answering
      have now := HttpTask.done_midway answering
      subst same
      refine ⟨done, behind.underway, stays fun byte member => ?_⟩
      rw [puts] at member
      obtain ⟨c, _, rfl⟩ := List.mem_map.mp member
      change count < next.requests
      omega
  | ended silent requests running finished =>
      have now := HttpTask.done_between (.inr finished)
      exact ⟨by omega, fun midway => absurd (.inr finished) midway, stays (silence silent)⟩

end Behind

section Serviced

variable {cfg : Config} {s t : Session} {task : HttpTask} {event : PeerEvent}

theorem StepCases.numbered (inv : s.peer.Inv task) (numbered : Numbered task s.peer.trace)
    (step : StepCases cfg s task event t) : t.Now Numbered := by
  have live := inv.live
  have still {peer : Peer} {events : List Event} {request : Ptr RequestCell} {closed : Bool}
      (same : peer.httpTask = s.peer.httpTask) (trace : peer.trace = s.peer.trace ++ events)
      (none : Trace.framed events = []) : Session.Now Numbered ⟨request, peer, closed⟩ := by
    refine ⟨task, same.trans live, numbered.keeps ?_ rfl Iff.rfl⟩
    rw [trace, Trace.framed_append, none, List.append_nil]
  have quiet {peer : Peer} {request : Ptr RequestCell} {closed : Bool}
      (same : peer.httpTask = s.peer.httpTask) (trace : peer.trace = s.peer.trace) :
      Session.Now Numbered ⟨request, peer, closed⟩ :=
    still same (trace.trans (List.append_nil _).symm) rfl
  have received {peer : Peer} {closed : Bool} (received : Receives s.peer peer) :
      Session.Now Numbered ⟨s.request, peer, closed⟩ := by
    cases received with
    | nothing => exact quiet rfl rfl
    | bytes inv content => exact still rfl rfl rfl
  cases step with
  | deliver got => exact received got
  | recv got => exact received got
  | @call os code h called effect valid =>
      have counted : Numbered h.task h.peer.trace := by
        rcases handleHttp_cases live called with
          ⟨waiting, _, same, peer⟩ | ⟨notWaiting, next, same, peer, ran⟩
        · have tasks := congrArg Peer.httpTask peer
          rw [live] at tasks
          cases tasks
          have trace := congrArg Peer.trace peer
          rw [← trace] at numbered
          exact numbered
        · have start : Handling.Inv ⟨s.request, task, s.peer⟩ :=
            ⟨inv.valid, inv.sending, inv.receiving⟩
          have tasks := congrArg Peer.httpTask peer
          have trace := congrArg Peer.trace peer
          simp only [Ptr.live.injEq] at tasks
          simp only at trace
          rw [tasks, trace]
          exact httpLoop_numbered start numbered ran
      have after : Numbered h.task (h.peer.trace ++ [.returned code]) :=
        counted.keeps ((Trace.framed_append _ _).trans (List.append_nil _)) rfl Iff.rfl
      cases code <;> exact ⟨h.task, rfl, after⟩
  | send sent =>
      cases sent with
      | nothing empty => exact quiet rfl rfl
      | accepted => exact still rfl rfl rfl
      | failed => exact quiet rfl rfl
  | toCgi child sent =>
      cases sent with
      | nothing empty => exact quiet rfl rfl
      | accepted => exact still rfl rfl rfl
      | failed => exact quiet rfl rfl
  | @fromCgi answer executor status peer child piped =>
      cases piped with
      | full => exact quiet rfl rfl
      | failed => exact quiet rfl rfl
      | ended isLive =>
          cases isLive.symm.trans live
          have running := inv.child
          rw [child] at running
          refine ⟨_, rfl, numbered.keeps ?_ rfl (by simp [running.1])⟩
          exact (Trace.framed_append _ _).trans (List.append_nil _)
      | piped taken puts =>
          obtain ⟨sendingBuffer, rfl⟩ := puts.frame
          refine still rfl (List.append_assoc _ _ _) ?_
          rw [Trace.framed_append, Trace.framed_map_put]
          rfl
  | noChild => exact ⟨task, live, numbered⟩
  | others => exact ⟨task, live, numbered⟩

/-- What holds of every connection between two passes. -/
structure Serviced (cfg : Config) (slot : Peer) : Prop where
  framing : Session.Framing cfg ⟨.null, slot, false⟩
  streams : Streams slot
  numbered : ∀ task, slot.httpTask = .live task → Numbered task slot.trace
  underway : ∀ task, slot.httpTask = .live task → ¬ task.Between → 1 ≤ task.requests
  parked : ∀ task, slot.httpTask = .live task → Parked task slot

theorem acceptInto_serviced {slot : Peer} (newClientSock : Nat) (clientAddr : Address) (conn : Nat)
    (vacant : Vacant slot) : Serviced cfg (acceptInto slot newClientSock clientAddr conn) where
  framing := freshSession_framing vacant .null newClientSock clientAddr conn
  streams := freshSession_streams vacant .null newClientSock clientAddr conn
  numbered := by
    rintro _ ⟨⟩
    rfl
  underway := by
    rintro _ ⟨⟩ midway
    exact absurd (.inl rfl) midway
  parked := by
    rintro _ ⟨⟩
    exact ⟨fun some => absurd vacant.nothingReceived some, nofun⟩

theorem Visit.run {takes : Prop} (visit : Visit cfg takes s t) :
    ∃ events, sessionRun cfg events s = .ok t := by
  cases visit with
  | @called events middle _ os uncalled ran isOpen drains stepped =>
      refine ⟨events ++ [.call os], Run.run_append_ok.mpr ⟨middle, ran, ?_⟩⟩
      exact Run.run_cons_ok.mpr ⟨t, stepped, rfl⟩
  | rested uncalled ran => exact ⟨_, ran⟩

theorem Serviced.visit {client left : Peer} {takes : Prop} {request after : Ptr RequestCell}
    (serviced : Serviced cfg client) (inv : client.Inv task)
    (visit : Visit cfg takes ⟨request, client, false⟩ ⟨after, left, false⟩) :
    Serviced cfg left ∧ ∃ next, left.httpTask = .live next ∧ Forward takes client left task next ∧
      ∀ count, count ≤ task.done → Behind count client.trace next left.trace := by
  obtain ⟨events, ran⟩ := visit.run
  have start : Session.Inv ⟨request, client, false⟩ := fun _ => ⟨task, inv⟩
  have parked := serviced.parked task inv.live
  obtain ⟨next, live, forward⟩ := visit.forward inv serviced.framing parked rfl
  have numbered : Session.Now Numbered ⟨after, left, false⟩ :=
    sessionRun_keeps (P := Session.Now Numbered)
      (fun _ valid now _ step => step.numbered valid (now.of_live valid.live)) start
      ⟨task, inv.live, serviced.numbered task inv.live⟩ (fun _ _ => trivial) ran
  have behind (count : Nat) (bound : count ≤ task.done) :
      Behind count client.trace next left.trace := by
    have now := sessionRun_now (P := Behind count client.trace) (fun replies => replies.behind) start
      ⟨task, inv.live, .refl (serviced.underway task inv.live) bound client.trace⟩ ran
    exact now.of_live live
  have framing : Session.Framing cfg ⟨after, left, false⟩ :=
    sessionRun_framing start serviced.framing ran
  refine ⟨⟨framing, sessionRun_streams_open start serviced.streams ran rfl, ?_, ?_, ?_⟩, next, live,
    forward, behind⟩
  · exact fun _ isLive => numbered.of_live isLive
  · intro _ isLive
    cases isLive.symm.trans live
    exact (behind 0 (Nat.zero_le _)).underway
  · intro _ isLive
    cases isLive.symm.trans live
    exact forward.parked

theorem serverRun_serviced {rounds : List Round} {httpSockFd : Nat} {server : Server}
    (ran : serverRun cfg rounds (initServer httpSockFd) = .ok server) :
    ∀ slot ∈ server.connectionList, slot.socket ≠ none → Serviced cfg slot := by
  refine serverRun_slots (P := Serviced cfg)
    (fun newClientSock clientAddr conn vacant _ =>
      acceptInto_serviced newClientSock clientAddr conn vacant) (fun sound serviced visit => ?_) ran
  obtain ⟨task, inv⟩ := sound.inv
  exact (serviced.visit inv visit).1

/-- In every state that the server reaches between two passes, every byte that a connection
received is part of a completed request, of an incomplete one or still in its receiving buffer,
every byte put for it is sent or in its sending buffer, and bytes are left in the receiving buffer
only behind a request that is complete, a file that the client has no room for or a child. -/
theorem connections_serviced (cfg : Config) (httpSockFd : Nat) (rounds : List Round)
    {server : Server} (ran : serverRun cfg rounds (initServer httpSockFd) = .ok server) {slot : Peer}
    (member : slot ∈ server.connectionList) (used : slot.socket ≠ none) :
    Serviced cfg slot ∧ ∃ task, slot.httpTask = .live task ∧ Parked task slot := by
  have serviced := serverRun_serviced ran slot member used
  obtain ⟨task, inv⟩ := ((serverRun_lasting ran slot member).used used).inv
  exact ⟨serviced, task, inv.live, serviced.parked task inv.live⟩

end Serviced

def fileUntaken : List Round :=
  [readRound 3 (some (5, ⟨str "1.2.3.4", 80⟩)) .wouldBlock,
   readRound 5 none (.bytes 0x47 (str "ET /a.html HTTP/1.1\r\n\r\nGET"))]

theorem connections_serviced_untaken : ∃ server slot,
    serverRun sampleConfig fileUntaken (initServer 3) = .ok server ∧
    slot ∈ server.connectionList ∧ slot.receivingBuffer.content = str "GET" ∧
    Serviced sampleConfig slot ∧ ∃ task, slot.httpTask = .live task ∧ Parked task slot := by
  have waits : ((serverRun sampleConfig fileUntaken (initServer 3)).map fun server =>
      server.connectionList.any fun slot => slot.socket.isSome &&
        slot.receivingBuffer.content = str "GET") = .ok true := by
    decide +kernel
  cases ran : serverRun sampleConfig fileUntaken (initServer 3) with
  | error fault =>
      rw [ran] at waits
      cases waits
  | ok server =>
      rw [ran] at waits
      obtain ⟨slot, member, both⟩ := List.any_eq_true.mp (Except.ok.inj waits)
      obtain ⟨used, content⟩ := Bool.and_eq_true_iff.mp both
      exact ⟨server, slot, rfl, member, of_decide_eq_true content,
        connections_serviced sampleConfig 3 fileUntaken ran member
          (Option.isSome_iff_ne_none.mp used)⟩

end Liso
