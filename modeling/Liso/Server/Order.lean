import Liso.Server.Session

/-! Pipelined responses: the output and the parsing of one connection follow the
order of its requests, and a child runs exactly while the task waits for it. -/

namespace Liso

/-- There is a child exactly while the task waits for one. -/
def Linked (peer : Peer) : Prop :=
  ∃ task, peer.httpTask = .live task ∧ (peer.cgiExecutor ≠ .null ↔ task.state = .processingCgi)

/-- Nothing in the trace belongs to a later request than the current one, or comes after
something that does. -/
structure Ordered (s : Session) : Prop where
  linked : Linked s.peer
  sorted : (Trace.ordinals s.peer.trace).Pairwise (· ≤ ·)
  current : s.closed = false → ∀ task, s.peer.httpTask = .live task →
    ∀ req ∈ Trace.ordinals s.peer.trace, req ≤ task.requests

private theorem linked_idle {peer : Peer} {task : HttpTask} (live : peer.httpTask = .live task)
    (vacant : peer.cgiExecutor = .null) (state : task.state ≠ .processingCgi) : Linked peer :=
  ⟨task, live, fun child => absurd vacant child, fun waiting => absurd waiting state⟩

theorem httpLoop_linked {cfg : Config} {os : Os} {fuel : Nat} {h next : Handling} {code : Code}
    (inv : h.Inv) (vacant : h.peer.cgiExecutor = .null)
    (ran : httpLoop cfg os fuel h = some (.ok (code, next))) :
    Linked { next.peer with httpTask := .live next.task } := by
  refine httpLoop_rule (P := fun h => h.peer.cgiExecutor = .null)
    (Q := fun _ next => Linked { next.peer with httpTask := .live next.task })
    ?_ ?_ ?_ inv vacant ran
  · intro h next valid vacant result
    obtain ⟨events, moves⟩ := result.moves_again valid
    exact moves.executor.trans vacant
  · intro h code next valid vacant result
    rcases result.moves valid with ⟨events, moves⟩ | ⟨peer, stopped, start⟩
    · refine linked_idle rfl (moves.executor.trans vacant) ?_
      cases result with
      | headerShort state _ read =>
          cases read
          simp [state]
      | headerLong state _ read =>
          cases read
          simp [state]
      | headerBad state _ read =>
          cases read
          simp [state]
      | bodyShort state _ read =>
          cases read
          simp [state]
      | fileWaits state => simp [state]
      | fileFails state => simp [state]
      | cgiStarted state live cgi started =>
          obtain ⟨_, _, _, rfl⟩ := started.started
          cases moves.executor.trans vacant
    · cases stopped
      obtain ⟨executor, _, _, rfl⟩ := start.started
      exact ⟨_, rfl, fun _ => rfl, fun _ => nofun⟩
  · intro h code next valid vacant finished done
    rcases finishRequest_cases done with ⟨rfl, ⟨_, rfl⟩ | ⟨_, _, rfl⟩⟩
    · exact linked_idle rfl vacant nofun
    · exact linked_idle rfl vacant nofun

private theorem Ordered.extend {s t : Session} {events : List Event} {task next : HttpTask}
    (ordered : Ordered s) (isOpen : s.closed = false) (live : s.peer.httpTask = .live task)
    (trace : t.peer.trace = s.peer.trace ++ events)
    (inOrder : Trace.InOrder task.requests next.requests events)
    (requests : task.requests ≤ next.requests) (linked : Linked t.peer)
    (after : t.peer.httpTask = .live next) : Ordered t := by
  have before : Trace.InOrder 0 task.requests s.peer.trace :=
    ⟨ordered.sorted, fun req member => ⟨Nat.zero_le _, ordered.current isOpen task live req member⟩⟩
  have all := before.append inOrder (Nat.zero_le _) requests
  rw [← trace] at all
  refine ⟨linked, all.sorted, fun _ task same req member => ?_⟩
  cases same.symm.trans after
  exact (all.bounds req member).2

private theorem Ordered.stays {s t : Session} {events : List Event} {task : HttpTask}
    (ordered : Ordered s) (isOpen : s.closed = false) (live : s.peer.httpTask = .live task)
    (trace : t.peer.trace = s.peer.trace ++ events)
    (current : ∀ req ∈ Trace.ordinals events, req = task.requests)
    (kept : t.peer.httpTask = s.peer.httpTask)
    (child : t.peer.cgiExecutor = .null ↔ s.peer.cgiExecutor = .null) : Ordered t := by
  obtain ⟨same, isSame, link⟩ := ordered.linked
  have linked : Linked t.peer := ⟨same, kept.trans isSame, (not_congr child).trans link⟩
  exact ordered.extend isOpen live trace (.single (Nat.le_refl _) current) (Nat.le_refl _) linked
    (kept.trans live)

private theorem Ordered.still {s t : Session} {task : HttpTask} (ordered : Ordered s)
    (isOpen : s.closed = false) (live : s.peer.httpTask = .live task)
    (trace : t.peer.trace = s.peer.trace) (kept : t.peer.httpTask = s.peer.httpTask)
    (child : t.peer.cgiExecutor = .null ↔ s.peer.cgiExecutor = .null) : Ordered t := by
  have nothing : t.peer.trace = s.peer.trace ++ [] := by rw [trace, List.append_nil]
  exact ordered.stays isOpen live nothing (List.forall_mem_nil _) kept child

private theorem Ordered.received {s : Session} {peer : Peer} {closed : Bool} {task : HttpTask}
    (ordered : Ordered s) (isOpen : s.closed = false) (live : s.peer.httpTask = .live task)
    (received : Receives s.peer peer) : Ordered { s with peer, closed } := by
  cases received with
  | nothing => exact ordered.still isOpen live rfl rfl Iff.rfl
  | bytes inv content => exact ordered.stays isOpen live rfl nofun rfl Iff.rfl

private theorem Ordered.called {s : Session} {request : Ptr RequestCell} {h : Handling}
    {task : HttpTask} {code : Code} (ordered : Ordered s) (isOpen : s.closed = false)
    (live : s.peer.httpTask = .live task) (effect : CallEffect ⟨s.request, task, s.peer⟩ h)
    (linked : Linked { h.peer with httpTask := .live h.task }) :
    Ordered (afterCall code request { h.peer with httpTask := .live h.task }) := by
  have sorted (events : List Event) (trace : h.peer.trace = s.peer.trace ++ events)
      (inOrder : Trace.InOrder task.requests h.task.requests events)
      (requests : task.requests ≤ h.task.requests) :
      Ordered (afterCall code request { h.peer with httpTask := .live h.task }) := by
    have last : Trace.InOrder h.task.requests h.task.requests [.returned code] := .none rfl
    have told := inOrder.append last requests (Nat.le_refl _)
    have whole : h.peer.trace ++ [.returned code] =
        s.peer.trace ++ (events ++ [.returned code]) := by
      rw [trace, List.append_assoc]
    cases code <;> exact ordered.extend isOpen live whole told requests linked rfl
  cases effect with
  | moved events moves => exact sorted events moves.trace moves.inOrder moves.requests
  | started events middle moves start same =>
      obtain ⟨executor, _, _, shape⟩ := start.started
      have requests : h.task.requests = middle.task.requests := by rw [same]
      have trace := congrArg Peer.trace shape
      simp only [Peer.record, moves.trace, List.append_assoc] at trace
      apply sorted _ trace
      · rw [requests]
        exact moves.inOrder.append (.none rfl) moves.requests (Nat.le_refl _)
      · rw [requests]
        exact moves.requests

theorem StepCases.ordered {cfg : Config} {s t : Session} {task : HttpTask} {event : PeerEvent}
    (ordered : Ordered s) (isOpen : s.closed = false) (inv : s.peer.Inv task)
    (step : StepCases cfg s task event t) : Ordered t := by
  have live := inv.live
  cases step with
  | deliver received => exact ordered.received isOpen live received
  | recv received => exact ordered.received isOpen live received
  | @call os code h called effect valid =>
      apply ordered.called isOpen live effect
      obtain ⟨same, isSame, link⟩ := ordered.linked
      cases isSame.symm.trans live
      rcases handleHttp_cases live called with ⟨_, _, _, unchanged⟩ | ⟨idle, last, _, shape, ran⟩
      · rw [unchanged]
        exact ⟨task, live, link⟩
      · rw [shape]
        have vacant : s.peer.cgiExecutor = .null := by
          by_contra running
          exact idle (link.mp running)
        exact httpLoop_linked ⟨inv.valid, inv.sending, inv.receiving⟩ vacant ran
  | send sent =>
      cases sent with
      | nothing empty => exact ordered.still isOpen live rfl rfl Iff.rfl
      | accepted count answered bufInv left =>
          exact ordered.stays isOpen live rfl (List.forall_mem_nil _) rfl Iff.rfl
      | failed bufInv => exact ordered.still isOpen live rfl rfl Iff.rfl
  | toCgi child sent =>
      cases sent with
      | nothing empty => exact ordered.still isOpen live rfl rfl Iff.rfl
      | accepted count bufInv left =>
          exact ordered.stays isOpen live rfl (List.forall_mem_nil _) rfl
            (by simp [Peer.record, child])
      | failed bufInv refused =>
          exact ordered.still isOpen live rfl rfl (by simp [child])
  | fromCgi child piped =>
      have linked := inv.child
      rw [child] at linked
      obtain ⟨_, _, req⟩ := linked
      cases piped with
      | full => exact ordered.still isOpen live rfl rfl Iff.rfl
      | failed => exact ordered.still isOpen live rfl rfl Iff.rfl
      | ended isLive =>
          cases isLive.symm.trans live
          have after : Ptr.live { task with state := .finished } = Ptr.live _ := rfl
          refine ordered.extend isOpen live rfl ?_ ?_ (linked_idle rfl rfl (by simp)) after
          · exact .single (Nat.le_refl _) (by simp [Trace.ordinals, Event.ordinal, req])
          · exact Nat.le_refl _
      | @piped _ data _ taken puts =>
          obtain ⟨sendingBuffer, rfl⟩ := puts.frame
          refine ordered.stays isOpen live (List.append_assoc ..) ?_ rfl Iff.rfl
          intro tag member
          rw [Trace.ordinals_append, List.mem_append] at member
          rcases member with read | put
          · cases read
          · obtain ⟨event, isPut, same⟩ := List.mem_filterMap.mp put
            obtain ⟨byte, isByte, rfl⟩ := List.mem_map.mp isPut
            obtain ⟨c, _, rfl⟩ := List.mem_map.mp isByte
            cases same
            exact req
  | noChild => exact ordered
  | others => exact ⟨ordered.linked, ordered.sorted, ordered.current⟩

theorem sessionRun_ordered {cfg : Config} {events : List PeerEvent} {s t : Session} (inv : s.Inv)
    (ordered : Ordered s) (ran : sessionRun cfg events s = .ok t) : Ordered t :=
  sessionRun_keeps (fun isOpen valid ordered _ step => step.ordered ordered isOpen valid) inv
    ordered (fun _ _ => trivial) ran

theorem freshSession_ordered {slot : Peer} (vacant : slot.cgiExecutor = .null)
    (request : Ptr RequestCell) (newClientSock : Nat) (clientAddr : Address) (conn : Nat) :
    Ordered (freshSession request slot newClientSock clientAddr conn) where
  linked := linked_idle rfl vacant nofun
  sorted := List.Pairwise.nil
  current := fun _ _ _ => nofun

/-- In a slot never used before, the requests of a connection are parsed, answered and their
children ended one after the other. -/
theorem responses_in_order (cfg : Config) (request : Ptr RequestCell) (newClientSock : Nat)
    (clientAddr : Address) (conn : Nat) (events : List PeerEvent) (s : Session)
    (ran : sessionRun cfg events
      (freshSession request createPeer newClientSock clientAddr conn) = .ok s) :
    (∃ task, s.peer.httpTask = .live task ∧
        (s.peer.cgiExecutor ≠ .null ↔ task.state = .processingCgi)) ∧
      ((Trace.puts s.peer.trace).map OutByte.req).Pairwise (· ≤ ·) ∧
      ∀ front req block back, s.peer.trace = front ++ .parsed req block :: back →
        (∀ byte ∈ Trace.puts front, byte.req ≤ req) ∧
        (∀ byte ∈ Trace.puts back, req ≤ byte.req) ∧
        ∀ ended, .cgiEnded ended ∈ back → req ≤ ended := by
  have ordered := sessionRun_ordered (freshSession_inv createPeer_vacant _ _ _ _)
    (freshSession_ordered rfl request newClientSock clientAddr conn) ran
  refine ⟨ordered.linked, ordered.sorted.sublist (Trace.puts_sublist _), ?_⟩
  intro front req block back split
  have sorted := ordered.sorted
  rw [split, Trace.ordinals_append, List.pairwise_append] at sorted
  obtain ⟨_, after, between⟩ := sorted
  have parsed : Trace.ordinals (.parsed req block :: back) = req :: Trace.ordinals back := rfl
  rw [parsed] at after between
  have later := (List.pairwise_cons.mp after).1
  refine ⟨fun byte member => ?_, fun byte member => ?_, fun ended member => ?_⟩
  · exact between _ (Trace.req_mem_ordinals member) _ List.mem_cons_self
  · exact later _ (Trace.req_mem_ordinals member)
  · exact later _ (List.mem_filterMap.mpr ⟨_, member, rfl⟩)

def pipelinedEvents : List PeerEvent :=
  [.deliver (str "GET /cgi/x HTTP/1.1\r\n\r\nPUT / HTTP/1.1\r\n\r\n"), .call (sampleOs true),
   .call (sampleOs true), .fromCgi (some (str "ok")), .fromCgi (some []), .call (sampleOs true),
   .call (sampleOs true)]

theorem responses_in_order_pipelined :
    ∃ s, sessionRun sampleConfig pipelinedEvents sampleStart = .ok s ∧
      ((Trace.puts s.peer.trace).map OutByte.req).take 3 = [1, 1, 2] ∧
      ((Trace.puts s.peer.trace).map OutByte.req).Pairwise (· ≤ ·) := by
  have tags : ((sessionRun sampleConfig pipelinedEvents sampleStart).map
      fun s => ((Trace.puts s.peer.trace).map OutByte.req).take 3) = .ok [1, 1, 2] := by
    decide +kernel
  cases ran : sessionRun sampleConfig pipelinedEvents sampleStart with
  | error fault =>
      rw [ran] at tags
      cases tags
  | ok s =>
      rw [ran] at tags
      exact ⟨s, rfl, Except.ok.inj tags, (responses_in_order sampleConfig .null 5
        ⟨str "1.2.3.4", 80⟩ 0 pipelinedEvents s ran).2.1⟩

end Liso
