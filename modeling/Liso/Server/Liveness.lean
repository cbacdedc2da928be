import Liso.Server.Progress

/-! Endless runs of the server: what becomes of the requests that a connection has sent, as long
as its client takes what it is sent. -/

namespace Liso

open Endless

def serverAt (cfg : Config) (httpSockFd : Nat) (rounds : Nat → Round) (n : Nat) :
    Except Fault Server :=
  serverRun cfg ((List.range n).map rounds) (initServer httpSockFd)

/-- The connection in slot `i`, while the server runs and the slot is in use. -/
def connectionAt (cfg : Config) (httpSockFd : Nat) (rounds : Nat → Round) (i n : Nat) :
    Option Peer :=
  match serverAt cfg httpSockFd rounds n with
  | .ok server => (server.connectionList[i]?).filter fun slot => slot.socket.isSome
  | .error _ => none

section Runs

variable {cfg : Config} {httpSockFd i n : Nat} {rounds : Nat → Round} {client left : Peer}

theorem connectionAt_some (found : connectionAt cfg httpSockFd rounds i n = some client) :
    ∃ server, serverAt cfg httpSockFd rounds n = .ok server ∧
      server.connectionList[i]? = some client ∧ client.socket ≠ none := by
  unfold connectionAt at found
  split at found
  · next server ran =>
      obtain ⟨here, used⟩ := Option.filter_eq_some_iff.mp found
      exact ⟨server, ran, here, Option.isSome_iff_ne_none.mp used⟩
  · cases found

theorem serverAt_succ {next : Server} (ran : serverAt cfg httpSockFd rounds (n + 1) = .ok next) :
    ∃ server, serverAt cfg httpSockFd rounds n = .ok server ∧
      serverStep cfg server (rounds n) = .ok next := by
  unfold serverAt at ran
  rw [List.range_succ, List.map_append, List.map_singleton] at ran
  obtain ⟨server, before, last⟩ := Run.run_append_ok.mp ran
  obtain ⟨after, stepped, rest⟩ := Run.run_cons_ok.mp last
  cases rest
  exact ⟨server, before, stepped⟩

theorem connectionAt_sound (found : connectionAt cfg httpSockFd rounds i n = some client) :
    Sound client ∧ Serviced cfg client := by
  obtain ⟨server, ran, here, used⟩ := connectionAt_some found
  have member := List.mem_of_getElem? here
  exact ⟨(serverRun_lasting ran client member).used used, serverRun_serviced ran client member used⟩

theorem connectionAt_succ {socket : Nat}
    (found : connectionAt cfg httpSockFd rounds i n = some client)
    (used : client.socket = some socket)
    (later : connectionAt cfg httpSockFd rounds i (n + 1) = some left) :
    left.socket = some socket ∧ ∃ request after,
      Visit cfg ((rounds n).takes i socket) ⟨request, client, false⟩ ⟨after, left, false⟩ := by
  obtain ⟨next, ran, there, stillUsed⟩ := connectionAt_some later
  obtain ⟨server, before, stepped⟩ := serverAt_succ ran
  obtain ⟨same, isSame, here, _⟩ := connectionAt_some found
  cases before.symm.trans isSame
  obtain ⟨slot, isSlot, outcome⟩ := serverStep_outcome (serverRun_lasting before) stepped there
  cases here.symm.trans isSlot
  cases outcome with
  | empty free => exact absurd free stillUsed
  | closed vacant free => exact absurd free stillUsed
  | fresh free => exact absurd (free.symm.trans used) nofun
  | stays isUsed kept sound visit =>
      cases isUsed.symm.trans used
      exact ⟨kept, _, _, visit⟩

end Runs

def workLeft (bytes : Nat) (peer : Peer) (task : HttpTask) : ℕ ×ₗ ℕ ×ₗ ℕ :=
  toLex (bytes - peer.consumed, task.pace)

section Work

variable {cfg : Config} {client peer left : Peer} {task next : HttpTask} {bytes : Nat}
  {takes : Prop}

theorem Serviced.answered (serviced : Serviced cfg peer) (live : peer.httpTask = .live task)
    (received : Trace.received client.trace <+: Trace.received peer.trace)
    (taken : (Trace.received client.trace).length ≤ peer.consumed)
    (idle : task.stage = 0 ∨ task.state = .finished) :
    (splitRequests cfg (Trace.received client.trace)).length ≤ task.done := by
  obtain ⟨part, framing, incomplete, _⟩ := serviced.framing
  have account : Trace.received peer.trace =
      ((Trace.framed peer.trace).map wire).flatten ++ part ++ peer.receivingBuffer.content := by
    rw [framing.account, List.append_assoc]
  have framed : Trace.framed peer.trace =
      splitRequests cfg (((Trace.framed peer.trace).map wire).flatten ++ part) := by
    rw [splitRequests_framed framing.framed, incomplete, List.append_nil]
  have early : Trace.received client.trace <+:
      ((Trace.framed peer.trace).map wire).flatten ++ part := by
    refine List.prefix_of_prefix_length_le received ⟨_, account.symm⟩ ?_
    have lengths := congrArg List.length account
    rw [List.length_append] at lengths
    rw [Peer.consumed] at taken
    omega
  have count : (splitRequests cfg (Trace.received client.trace)).length ≤
      (Trace.framed peer.trace).length := by
    obtain ⟨more, whole⟩ := early
    rw [framed, ← whole]
    exact (splitRequests_extends _ more).length_le
  have numbered := serviced.numbered task live
  unfold Numbered at numbered
  refine count.trans ?_
  rcases idle with stage | finished
  · rcases HttpTask.stage_zero stage with header | body
    · simp only [header] at numbered
      rw [HttpTask.done_between (.inl header), ← numbered]
      exact Nat.le_add_right _ _
    · rw [if_pos body] at numbered
      have midway : ¬ task.Between := by simp [HttpTask.Between, body]
      rw [HttpTask.done_midway midway, ← numbered]
      exact Nat.le_refl _
  · rw [HttpTask.done_between (.inr finished), ← numbered]
    exact Nat.le_add_right _ _

theorem Forward.workLeft_le (forward : Forward takes peer left task next)
    (unread : peer.receivingBuffer.content = [] → bytes ≤ peer.consumed)
    (busy : bytes ≤ peer.consumed → task.stage ≠ 0) :
    workLeft bytes left next ≤ workLeft bytes peer task := by
  have consumed := forward.consumed
  refine Prod.Lex.toLex_le_toLex.mpr ?_
  by_cases reading : task.stage = 0
  · have early : ¬ bytes ≤ peer.consumed := fun taken => busy taken reading
    have reads := forward.reads reading fun empty => early (unread empty)
    exact .inl (by change _ - _ < _ - _; omega)
  · rcases Nat.eq_or_lt_of_le (Nat.sub_le_sub_left consumed bytes) with same | fewer
    · exact .inr ⟨same, forward.waits reading⟩
    · exact .inl fewer

theorem Forward.workLeft_lt (forward : Forward takes peer left task next) (taking : takes)
    (unread : peer.receivingBuffer.content = [] → bytes ≤ peer.consumed)
    (busy : bytes ≤ peer.consumed → task.stage ≠ 0 ∧ task.state ≠ .finished)
    (idle : task.state ≠ .processingCgi) : workLeft bytes left next < workLeft bytes peer task := by
  have consumed := forward.consumed
  refine Prod.Lex.toLex_lt_toLex.mpr ?_
  by_cases reading : task.stage = 0
  · have early : ¬ bytes ≤ peer.consumed := fun taken => (busy taken).1 reading
    have reads := forward.reads reading fun empty => early (unread empty)
    exact .inl (by change _ - _ < _ - _; omega)
  · have stage := HttpTask.stage_one reading idle
    have answers := forward.answers taking stage fun finished empty =>
      (busy (unread empty)).2 finished
    rcases Nat.eq_or_lt_of_le (Nat.sub_le_sub_left consumed bytes) with same | fewer
    · exact .inr ⟨same, answers⟩
    · exact .inl fewer

end Work

section Requests

variable {cfg : Config} {httpSockFd i start n socket : Nat} {rounds : Nat → Round}
  {client peer : Peer} {task : HttpTask}

def GoneBy (cfg : Config) (httpSockFd : Nat) (rounds : Nat → Round) (i start n : Nat) : Prop :=
  ∃ m, start ≤ m ∧ m ≤ n ∧ connectionAt cfg httpSockFd rounds i m = none

theorem connectionAt_forward (found : connectionAt cfg httpSockFd rounds i n = some peer)
    (used : peer.socket = some socket) (live : peer.httpTask = .live task) {left : Peer}
    (later : connectionAt cfg httpSockFd rounds i (n + 1) = some left) :
    left.socket = some socket ∧ ∃ next, left.httpTask = .live next ∧
      Forward ((rounds n).takes i socket) peer left task next ∧
      ∀ count, count ≤ task.done → Behind count peer.trace next left.trace := by
  obtain ⟨sound, serviced⟩ := connectionAt_sound found
  obtain ⟨same, inv⟩ := sound.inv
  cases inv.live.symm.trans live
  obtain ⟨kept, request, after, visit⟩ := connectionAt_succ found used later
  obtain ⟨_, next, isLive, forward, behind⟩ := serviced.visit inv visit
  exact ⟨kept, next, isLive, forward, behind⟩

theorem connectionAt_continues {first : HttpTask} {count : Nat}
    (connected : connectionAt cfg httpSockFd rounds i start = some client)
    (used : client.socket = some socket) (live : client.httpTask = .live first)
    (done : count ≤ first.done) (onward : start ≤ n)
    (there : ¬ GoneBy cfg httpSockFd rounds i start n) :
    ∃ peer task, connectionAt cfg httpSockFd rounds i n = some peer ∧ peer.socket = some socket ∧
      peer.httpTask = .live task ∧ Behind count client.trace task peer.trace := by
  induction n, onward using Nat.le_induction with
  | base =>
      have serviced := (connectionAt_sound connected).2
      exact ⟨client, first, connected, used, live, .refl (serviced.underway first live) done _⟩
  | succ n onward ih =>
      obtain ⟨peer, task, found, same, isLive, behind⟩ := ih fun ⟨m, since, upto, gone⟩ =>
        there ⟨m, since, upto.trans (Nat.le_succ n), gone⟩
      cases later : connectionAt cfg httpSockFd rounds i (n + 1) with
      | none => exact absurd ⟨n + 1, onward.trans (Nat.le_succ n), Nat.le_refl _, later⟩ there
      | some left =>
          obtain ⟨kept, next, isNext, _, more⟩ := connectionAt_forward found same isLive later
          exact ⟨left, next, rfl, kept, isNext, behind.trans (more count behind.done)⟩

def workAt (bytes : Nat) : Option Peer → ℕ ×ₗ ℕ ×ₗ ℕ
  | none => toLex (0, toLex (0, 0))
  | some peer =>
      match peer.httpTask with
      | .live task => workLeft bytes peer task
      | _ => toLex (0, toLex (0, 0))

theorem workAt_some {bytes : Nat} (live : peer.httpTask = .live task) :
    workAt bytes (some peer) = workLeft bytes peer task := by
  simp only [workAt, live]

/-- A connection whose task waits for its child. -/
def AwaitsChild (connection : Option Peer) : Prop :=
  ∃ peer task, connection = some peer ∧ peer.httpTask = .live task ∧ task.state = .processingCgi

theorem awaitsChild_of_work {bytes : Nat} {connection : Option Peer}
    (stage : (ofLex (ofLex (workAt bytes connection)).2).1 = 2) : AwaitsChild connection := by
  cases connection with
  | none => cases stage
  | some peer =>
      unfold workAt at stage
      cases live : peer.httpTask with
      | null =>
          simp only [live] at stage
          cases stage
      | freed =>
          simp only [live] at stage
          cases stage
      | live task =>
          simp only [live] at stage
          refine ⟨peer, task, rfl, live, ?_⟩
          by_contra idle
          by_cases reading : task.stage = 0
          · exact absurd (reading.symm.trans stage) nofun
          · exact absurd ((HttpTask.stage_one reading idle).symm.trans stage) nofun

def AnsweredAt (count : Nat) (connection : Option Peer) : Prop :=
  ∃ peer task, connection = some peer ∧ peer.httpTask = .live task ∧ count ≤ task.done

theorem requests_done (connected : connectionAt cfg httpSockFd rounds i start = some client)
    (used : client.socket = some socket) (takes : Recurs fun n => (rounds n).takes i socket) :
    Eventually start (fun n => connectionAt cfg httpSockFd rounds i n = none) ∨
      Eventually start (fun n => Always n fun m =>
        AwaitsChild (connectionAt cfg httpSockFd rounds i m)) ∨
      Eventually start fun n =>
        AnsweredAt (splitRequests cfg (Trace.received client.trace)).length
          (connectionAt cfg httpSockFd rounds i n) := by
  obtain ⟨first, inv⟩ := (connectionAt_sound connected).1.inv
  let bytes := (Trace.received client.trace).length
  let goal (n : Nat) : Prop := GoneBy cfg httpSockFd rounds i start n ∨
    AnsweredAt (splitRequests cfg (Trace.received client.trace)).length
      (connectionAt cfg httpSockFd rounds i n)
  let work (n : Nat) := workAt bytes (connectionAt cfg httpSockFd rounds i n)
  -- one pass short of the goal
  have pass (n : Nat) (onward : start ≤ n) (missed : ¬ goal n) : goal (n + 1) ∨
      work (n + 1) ≤ work n ∧ ((rounds n).takes i socket →
        (ofLex (ofLex (work n)).2).1 ≠ 2 → work (n + 1) < work n) := by
    obtain ⟨peer, task, found, same, live, behind⟩ :=
      connectionAt_continues connected used inv.live (Nat.zero_le _) onward (missed ∘ .inl)
    have received := behind.received
    have serviced := (connectionAt_sound found).2
    have busy (taken : bytes ≤ peer.consumed) : task.stage ≠ 0 ∧ task.state ≠ .finished := by
      refine not_or.mp fun idle => missed (.inr ⟨peer, task, found, live, ?_⟩)
      exact serviced.answered live received taken idle
    have unread (empty : peer.receivingBuffer.content = []) : bytes ≤ peer.consumed := by
      rw [Peer.consumed, empty]
      exact received.length_le
    cases later : connectionAt cfg httpSockFd rounds i (n + 1) with
    | none => exact .inl (.inl ⟨n + 1, onward.trans (Nat.le_succ n), Nat.le_refl _, later⟩)
    | some left =>
        obtain ⟨kept, next, isLive, forward, _⟩ := connectionAt_forward found same live later
        have before : work n = workLeft bytes peer task :=
          (congrArg (workAt bytes) found).trans (workAt_some live)
        have after : work (n + 1) = workLeft bytes left next :=
          (congrArg (workAt bytes) later).trans (workAt_some isLive)
        rw [before, after]
        refine .inr ⟨forward.workLeft_le unread fun taken => (busy taken).1, fun taking running => ?_⟩
        exact forward.workLeft_lt taking unread busy fun waiting =>
          running (HttpTask.stage_running waiting)
  have outcome := @eventually_or_waits _ _ _ start work goal (fun n => (rounds n).takes i socket)
    (fun left => (ofLex (ofLex left).2).1 = 2) takes
    (fun n onward missed => (pass n onward missed).imp_right And.left)
    (fun n onward missed taking running => (pass n onward missed).imp_right fun later =>
      later.2 taking running)
  rcases outcome with ⟨n, onward, ⟨m, since, _, gone⟩ | answered⟩ | ⟨n, onward, stuck⟩
  · exact .inl ⟨m, since, gone⟩
  · exact .inr (.inr ⟨n, onward, answered⟩)
  · exact .inr (.inl ⟨n, onward, fun m later => awaitsChild_of_work (stuck m later)⟩)

/-- The first `count` requests are done with, and what was put for them is sent. -/
def DeliveredAt (count : Nat) (connection : Option Peer) : Prop :=
  ∃ peer task, connection = some peer ∧ peer.httpTask = .live task ∧ count ≤ task.done ∧
    ∀ byte ∈ peer.sendingBuffer.content, count < byte.req

private theorem Streams.delivered {count : Nat} {start : List Event} (streams : Streams peer)
    (behind : Behind count start task peer.trace)
    (sent : (Trace.puts start).length ≤ (Trace.sent peer.trace).length) :
    ∀ byte ∈ peer.sendingBuffer.content, count < byte.req := by
  obtain ⟨events, trace, later⟩ := behind.later
  have out := streams.out
  rw [trace, Trace.puts_append, ← trace] at out
  rcases List.append_eq_append_iff.mp out with ⟨more, whole, rest⟩ | ⟨more, whole, rest⟩
  · rw [whole, List.length_append] at sent
    have none : more = [] := List.eq_nil_of_length_eq_zero (by omega)
    rw [rest, none]
    exact later
  · intro byte member
    refine later byte ?_
    rw [rest]
    exact List.mem_append_right _ member

theorem responses_sent {count : Nat}
    (connected : connectionAt cfg httpSockFd rounds i start = some client)
    (used : client.socket = some socket) (live : client.httpTask = .live task)
    (done : count ≤ task.done) (takes : Recurs fun n => (rounds n).takes i socket) :
    Eventually start (fun n => connectionAt cfg httpSockFd rounds i n = none) ∨
      Eventually start fun n => DeliveredAt count (connectionAt cfg httpSockFd rounds i n) := by
  let goal (n : Nat) : Prop := GoneBy cfg httpSockFd rounds i start n ∨
    DeliveredAt count (connectionAt cfg httpSockFd rounds i n)
  let unsent (n : Nat) : Nat := (Trace.puts client.trace).length -
    ((connectionAt cfg httpSockFd rounds i n).elim 0 fun peer => (Trace.sent peer.trace).length)
  have pass (n : Nat) (onward : start ≤ n) (missed : ¬ goal n) : goal (n + 1) ∨
      unsent (n + 1) ≤ unsent n ∧
        ((rounds n).takes i socket → unsent (n + 1) < unsent n) := by
    obtain ⟨peer, now, found, same, isLive, behind⟩ :=
      connectionAt_continues connected used live done onward (missed ∘ .inl)
    have streams := (connectionAt_sound found).2.streams
    have short : (Trace.sent peer.trace).length < (Trace.puts client.trace).length := by
      refine Nat.lt_of_not_le fun all => missed (.inr ⟨peer, now, found, isLive, behind.done, ?_⟩)
      exact streams.delivered behind all
    have some : peer.sendingBuffer.content ≠ [] := by
      intro empty
      refine missed (.inr ⟨peer, now, found, isLive, behind.done, ?_⟩)
      rw [empty]
      exact fun _ member => absurd member List.not_mem_nil
    cases later : connectionAt cfg httpSockFd rounds i (n + 1) with
    | none => exact .inl (.inl ⟨n + 1, onward.trans (Nat.le_succ n), Nat.le_refl _, later⟩)
    | some left =>
        obtain ⟨_, next, _, forward, more⟩ := connectionAt_forward found same isLive later
        obtain ⟨events, trace, _⟩ := (more 0 (Nat.zero_le _)).later
        have grows : (Trace.sent peer.trace).length ≤ (Trace.sent left.trace).length := by
          rw [trace, Trace.sent_append, List.length_append]
          exact Nat.le_add_right _ _
        have before : unsent n = (Trace.puts client.trace).length -
            (Trace.sent peer.trace).length := by
          simp only [unsent, found, Option.elim_some]
        have after : unsent (n + 1) = (Trace.puts client.trace).length -
            (Trace.sent left.trace).length := by
          simp only [unsent, later, Option.elim_some]
        rw [before, after]
        refine .inr ⟨by omega, fun taking => ?_⟩
        have sends := forward.sends taking some
        omega
  obtain ⟨n, onward, ⟨m, since, _, gone⟩ | delivered⟩ := eventually_of_falls takes
    (fun n onward missed => (pass n onward missed).imp_right And.left)
    (fun n onward missed taking => (pass n onward missed).imp_right fun later => later.2 taking)
  · exact .inl ⟨m, since, gone⟩
  · exact .inr ⟨n, onward, delivered⟩

/-- As long as a client takes what it is sent again and again, each request that the server has
received of it is done with and what was put for it is sent, unless its connection goes or comes to
wait for a child without end. -/
theorem requests_done_and_sent (cfg : Config) (httpSockFd : Nat) (rounds : Nat → Round)
    (i start socket : Nat) (client : Peer)
    (connected : connectionAt cfg httpSockFd rounds i start = some client)
    (used : client.socket = some socket) (takes : Recurs fun n => (rounds n).takes i socket) :
    Eventually start (fun n => connectionAt cfg httpSockFd rounds i n = none) ∨
      Eventually start (fun n => Always n fun m =>
        AwaitsChild (connectionAt cfg httpSockFd rounds i m)) ∨
      Eventually start fun n => ¬ GoneBy cfg httpSockFd rounds i start n ∧
        DeliveredAt (splitRequests cfg (Trace.received client.trace)).length
          (connectionAt cfg httpSockFd rounds i n) := by
  by_cases gone : ∃ n, start ≤ n ∧ connectionAt cfg httpSockFd rounds i n = none
  · exact .inl gone
  · have there (n : Nat) : ¬ GoneBy cfg httpSockFd rounds i start n :=
      fun ⟨m, since, _, ended⟩ => gone ⟨m, since, ended⟩
    rcases requests_done connected used takes with
      ended | waits | ⟨n, onward, peer, task, found, live, done⟩
    · exact .inl ended
    · exact .inr (.inl waits)
    · obtain ⟨first, inv⟩ := (connectionAt_sound connected).1.inv
      obtain ⟨same, now, isSame, stillUsed, isLive, _⟩ :=
        connectionAt_continues connected used inv.live (Nat.zero_le _) onward (there n)
      cases found.symm.trans isSame
      rcases responses_sent found stillUsed live done takes with
        ⟨m, later, ended⟩ | ⟨m, later, delivered⟩
      · exact .inl ⟨m, onward.trans later, ended⟩
      · exact .inr (.inr ⟨m, onward.trans later, there m, delivered⟩)

end Requests

def takingRounds : Nat → Round
  | 0 => readRound 3 (some (5, ⟨str "1.2.3.4", 80⟩)) .wouldBlock
  | 1 => readRound 5 none (.bytes 0x47 (str "ET /a.html HTTP/1.1\r\n\r\n"))
  | _ + 2 => { readRound 5 none .wouldBlock with
      writable := fun _ => true
      send := fun _ => .accepted 8192 }

theorem requests_done_and_sent_file : ∃ client : Peer,
    splitRequests sampleConfig (Trace.received client.trace) =
      [(str "GET /a.html HTTP/1.1\r\n\r\n", none)] ∧
    (Eventually 2 (fun n => connectionAt sampleConfig 3 takingRounds 0 n = none) ∨
      Eventually 2 (fun n => Always n fun m =>
        AwaitsChild (connectionAt sampleConfig 3 takingRounds 0 m)) ∨
      Eventually 2 fun n => ¬ GoneBy sampleConfig 3 takingRounds 0 2 n ∧
        DeliveredAt (splitRequests sampleConfig (Trace.received client.trace)).length
          (connectionAt sampleConfig 3 takingRounds 0 n)) := by
  have there : ((connectionAt sampleConfig 3 takingRounds 0 2).map fun client =>
      (client.socket, splitRequests sampleConfig (Trace.received client.trace))) =
      some (some 5, [(str "GET /a.html HTTP/1.1\r\n\r\n", Option.none)]) := by
    decide +kernel
  obtain ⟨client, connected, isPair⟩ := Option.map_eq_some_iff.mp there
  have pairs := Prod.mk.inj isPair
  refine ⟨client, pairs.2, requests_done_and_sent sampleConfig 3 takingRounds 0 2 5 client
    connected pairs.1 fun n => ⟨n + 2, Nat.le_add_right n 2, rfl, 8191, rfl⟩⟩

end Liso
