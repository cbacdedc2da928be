import Liso.Server.Streams

/-! The output of a child on its way to the client, and the end of a connection
that is marked for closing. -/

namespace Liso

structure ChildOutput (child : List Event) (req : Nat) : Prop where
  running : ∀ ended, Event.cgiEnded ended ∉ child
  whole : Trace.puts child = (Trace.reads child).map (⟨·, req⟩)

/-- A child was read to its end, and all it put out was put on the sending buffer. -/
def ReadToEnd (trace : List Event) : Prop :=
  ∃ child req later, trace = child ++ .cgiEnded req :: later ∧ ChildOutput child req

def Outputs (task : HttpTask) (trace : List Event) : Prop :=
  ∀ front body back, trace = front ++ .cgiBuffered body :: back →
    ReadToEnd back ∨ task.state = .processingCgi ∧ ChildOutput back task.requests

theorem ChildOutput.nil (req : Nat) : ChildOutput [] req := ⟨by simp, rfl⟩

theorem ChildOutput.append {child events : List Event} {req : Nat} (output : ChildOutput child req)
    (running : ∀ ended, Event.cgiEnded ended ∉ events)
    (whole : Trace.puts events = (Trace.reads events).map (⟨·, req⟩)) :
    ChildOutput (child ++ events) req where
  running := by
    intro ended member
    rcases List.mem_append.mp member with before | now
    · exact output.running ended before
    · exact running ended now
  whole := by
    calc
      Trace.puts (child ++ events) = Trace.puts child ++ Trace.puts events :=
        Trace.puts_append _ _
      _ = (Trace.reads child).map (⟨·, req⟩) ++ (Trace.reads events).map (⟨·, req⟩) := by
        rw [output.whole, whole]
      _ = (Trace.reads (child ++ events)).map (⟨·, req⟩) := by
        rw [Trace.reads_append, List.map_append]

theorem ReadToEnd.append {trace : List Event} (read : ReadToEnd trace) (events : List Event) :
    ReadToEnd (trace ++ events) := by
  obtain ⟨child, req, later, rfl, output⟩ := read
  exact ⟨child, req, later ++ events, by rw [List.append_assoc, List.cons_append], output⟩

namespace Outputs

variable {task next : HttpTask} {trace events : List Event}

theorem extend (outputs : Outputs task trace) (started : ∀ body, Event.cgiBuffered body ∉ events)
    (goes : ∀ back, task.state = .processingCgi → ChildOutput back task.requests →
      ReadToEnd (back ++ events) ∨
        next.state = .processingCgi ∧ ChildOutput (back ++ events) next.requests) :
    Outputs next (trace ++ events) := by
  intro front body back split
  rcases List.append_eq_append_iff.mp split with ⟨more, whole, inside⟩ | ⟨more, whole, inside⟩
  · have member : Event.cgiBuffered body ∈ events := by
      rw [inside]
      exact List.mem_append_right _ List.mem_cons_self
    exact absurd member (started body)
  · cases more with
    | nil =>
        have member : Event.cgiBuffered body ∈ events := by
          rw [List.nil_append] at inside
          rw [← inside]
          exact List.mem_cons_self
        exact absurd member (started body)
    | cons first more =>
        rw [List.cons_append, List.cons.injEq] at inside
        obtain ⟨rfl, rfl⟩ := inside
        rcases outputs front body more whole with read | ⟨state, output⟩
        · exact .inl (read.append events)
        · exact goes more state output

theorem quiet (outputs : Outputs task trace) (started : ∀ body, Event.cgiBuffered body ∉ events)
    (running : ∀ ended, Event.cgiEnded ended ∉ events) (puts : Trace.puts events = [])
    (reads : Trace.reads events = []) : Outputs task (trace ++ events) := by
  refine outputs.extend started fun back state output => .inr ⟨state, output.append running ?_⟩
  rw [puts, reads, List.map_nil]

theorem start (outputs : Outputs task trace) (idle : task.state ≠ .processingCgi)
    (waits : next.state = .processingCgi) (buffered : Bytes) :
    Outputs next (trace ++ [.cgiBuffered buffered]) := by
  intro front body back split
  rcases List.append_eq_append_iff.mp split with ⟨more, whole, inside⟩ | ⟨more, whole, inside⟩
  · have last : more = [] ∧ back = [] := by
      cases more with
      | nil => exact ⟨rfl, (List.cons.inj inside).2.symm⟩
      | cons first more => simp at inside
    rw [last.2]
    exact .inr ⟨waits, .nil _⟩
  · cases more with
    | nil =>
        rw [(List.cons.inj inside).2]
        exact .inr ⟨waits, .nil _⟩
    | cons first more =>
        rw [List.cons_append, List.cons.injEq] at inside
        obtain ⟨rfl, rfl⟩ := inside
        rcases outputs front body more whole with read | ⟨state, _⟩
        · exact .inl (read.append _)
        · exact absurd state idle

end Outputs

def Session.Outputs (s : Session) : Prop :=
  ∀ task, s.peer.httpTask = .live task → Liso.Outputs task s.peer.trace

section Steps

variable {cfg : Config} {s t : Session} {task : HttpTask} {event : PeerEvent}

private theorem Outputs.called {h : Handling} {peer : Peer} {code : Code}
    (outputs : Outputs task peer.trace) {request : Ptr RequestCell}
    (state : task.state ≠ .processingCgi) (effect : CallEffect ⟨request, task, peer⟩ h) :
    Outputs h.task (h.peer.trace ++ [.returned code]) := by
  have told {trace : List Event} (outputs : Outputs h.task trace) :
      Outputs h.task (trace ++ [.returned code]) :=
    outputs.quiet (by simp) (by simp) rfl rfl
  have passed {middle : Handling} (next : HttpTask) {events : List Event}
      (moves : Moves ⟨request, task, peer⟩ middle events) : Outputs next middle.peer.trace := by
    rw [moves.trace]
    refine outputs.extend (fun body member => ?_) fun back waiting => absurd waiting state
    exact Bool.false_ne_true (moves.passes _ member)
  cases effect with
  | moved events moves => exact told (passed h.task moves)
  | started events middle moves start same =>
      obtain ⟨executor, _, _, shape⟩ := start.started
      have trace : h.peer.trace = middle.peer.trace ++ [.cgiBuffered executor.pending] ++
          pipeEvents executor.stdinPipe executor.stdoutPipe := by
        rw [List.append_assoc]
        exact congrArg Peer.trace shape
      have waits : h.task.state = .processingCgi := by rw [same]
      have begun := (passed task moves).start state waits executor.pending
      rw [trace]
      exact told (begun.quiet (by simp [pipeEvents]) (by simp [pipeEvents]) rfl rfl)

theorem StepCases.outputs (inv : s.peer.Inv task) (outputs : Outputs task s.peer.trace)
    (step : StepCases cfg s task event t) : t.Outputs := by
  have live := inv.live
  have keeps {peer : Peer} (same : peer.httpTask = s.peer.httpTask)
      (kept : Outputs task peer.trace) (after : HttpTask) (isLive : peer.httpTask = .live after) :
      Outputs after peer.trace := by
    cases isLive.symm.trans (same.trans live)
    exact kept
  have received {peer : Peer} (received : Receives s.peer peer) : Outputs task peer.trace := by
    cases received with
    | nothing => exact outputs
    | bytes bufInv content => exact outputs.quiet (by simp) (by simp) rfl rfl
  cases step with
  | deliver got => exact keeps got.httpTask (received got)
  | recv got => exact keeps got.httpTask (received got)
  | @call os code h called effect valid =>
      have after : Outputs h.task (h.peer.trace ++ [.returned code]) := by
        rcases handleHttp_cases live called with ⟨waiting, _, _, unchanged⟩ | ⟨idle, _⟩
        · have trace := congrArg Peer.trace unchanged
          have task := congrArg Peer.httpTask unchanged
          rw [live] at task
          cases task
          rw [show h.peer.trace = s.peer.trace from trace]
          exact outputs.quiet (by simp) (by simp) rfl rfl
        · exact outputs.called idle effect
      cases code <;>
        · rintro _ ⟨⟩
          exact after
  | send sent =>
      cases sent with
      | nothing empty => exact keeps rfl outputs
      | accepted count answered bufInv left =>
          exact keeps rfl (outputs.quiet (by simp) (by simp) rfl rfl)
      | failed bufInv => exact keeps rfl outputs
  | toCgi child sent =>
      cases sent with
      | nothing empty => exact keeps rfl outputs
      | accepted count bufInv left =>
          exact keeps rfl (outputs.quiet (by simp) (by simp) rfl rfl)
      | failed bufInv refused => exact keeps rfl outputs
  | @fromCgi answer executor status peer child piped =>
      have running := inv.child
      rw [child] at running
      obtain ⟨_, _, req⟩ := running
      cases piped with
      | full => exact keeps rfl outputs
      | failed => exact keeps rfl outputs
      | ended isLive =>
          rintro _ ⟨⟩
          cases isLive.symm.trans live
          refine outputs.extend (by simp) fun back state output => .inl ?_
          rw [← req] at output
          exact ⟨back, _, [], rfl, output⟩
      | @piped bytes data next taken puts =>
          obtain ⟨sendingBuffer, rfl⟩ := puts.frame
          refine keeps rfl ?_
          change Outputs task (s.peer.trace ++ [.cgiRead data] ++ _)
          rw [List.append_assoc]
          refine outputs.extend (by simp) fun back state output => .inr ⟨state, ?_⟩
          apply output.append (by simp)
          have passes : ∀ event ∈ (data.map (⟨·, executor.req⟩ : UInt8 → OutByte)).map Event.put,
              event.ofPass = true := by simp [Event.ofPass]
          rw [Trace.puts_append, Trace.reads_append, Trace.puts_map_put,
            Trace.reads_ofPass passes, req]
          simp [Trace.puts, Trace.reads, Event.putByte, Event.readBytes]
  | noChild => exact keeps rfl outputs
  | others => exact keeps rfl outputs

end Steps

theorem sessionRun_outputs {cfg : Config} {events : List PeerEvent} {s t : Session} (inv : s.Inv)
    (outputs : s.Outputs) (ran : sessionRun cfg events s = .ok t) : t.Outputs :=
  sessionRun_keeps (fun _ valid outputs _ step => step.outputs valid (outputs _ valid.live)) inv
    outputs (fun _ _ => trivial) ran

/-- All that was put was accepted, and every child was read to its end. -/
structure Complete (s : Session) : Prop where
  empty : s.peer.sendingBuffer.content = []
  idle : ∀ task, s.peer.httpTask = .live task → task.state ≠ .processingCgi
  accepted : Trace.sent s.peer.trace = Trace.puts s.peer.trace
  outputs : ∀ front body back, s.peer.trace = front ++ .cgiBuffered body :: back → ReadToEnd back

/-- Whenever `send_to_peer` asks for the connection to be closed, and not because `send` failed,
the response is complete. -/
def ClosesComplete (cfg : Config) (events : List PeerEvent) (start : Session) : Prop :=
  ∀ front answer back s t, events = front ++ .send answer :: back →
    sessionRun cfg front start = .ok s → s.closed = false →
    sessionStep cfg s (.send answer) = .ok t → answer ≠ .error → t.closed = true → Complete t

/-- The connection is marked for closing, a child is running, and `send` takes all that waits. -/
def emptiesEarly (s : Session) (event : PeerEvent) : Bool :=
  match event, s.closed, s.peer.httpTask with
  | .send (.accepted count), false, .live task =>
      task.state = .processingCgi && s.peer.closeConn && !s.peer.sendingBuffer.content.isEmpty &&
        s.peer.sendingBuffer.content.length ≤ count
  | _, _, _ => false

section Close

variable {cfg : Config} {s t : Session} {task : HttpTask} {answer : WriteAnswer}

private theorem send_step (isOpen : s.closed = false)
    (stepped : sessionStep cfg s (.send answer) = .ok t) (closed : t.closed = true) :
    sendToPeer s.peer answer = .ok (.failure, t.peer) := by
  unfold sessionStep at stepped
  rw [if_neg (by simp [isOpen])] at stepped
  cases sent : sendToPeer s.peer answer with
  | error fault =>
      simp only [sent] at stepped
      cases stepped
  | ok result =>
      obtain ⟨status, peer⟩ := result
      simp only [sent] at stepped
      cases stepped
      rw [of_decide_eq_true closed]

private theorem emptiesEarly_closes (isOpen : s.closed = false) (inv : s.peer.Inv task)
    {event : PeerEvent} (early : emptiesEarly s event = true) :
    ∃ count t, event = .send (.accepted count) ∧ sessionStep cfg s event = .ok t ∧
      t.closed = true ∧ t.peer.httpTask = .live task ∧ task.state = .processingCgi := by
  unfold emptiesEarly at early
  split at early
  · next count task' _ live =>
      cases live.symm.trans inv.live
      simp only [Bool.and_eq_true, decide_eq_true_eq, Bool.not_eq_true'] at early
      obtain ⟨⟨⟨state, marked⟩, some⟩, all⟩ := early
      have waits : s.peer.sendingBuffer.content ≠ [] := by
        intro none
        rw [none] at some
        cases some
      obtain ⟨next, sent, same⟩ := sendToPeer_empties inv.sending marked waits all
      refine ⟨count, ⟨s.request, next, true⟩, rfl, ?_, rfl, same.trans inv.live, state⟩
      unfold sessionStep
      rw [if_neg (by simp [isOpen])]
      simp [sent]
  · cases early

end Close

private theorem ClosesComplete.guarded {cfg : Config} {events : List PeerEvent} {start : Session}
    (completes : ClosesComplete cfg events start) (valid : start.Inv) :
    Run.guarded (sessionStep cfg) (fun s event => !emptiesEarly s event) events start = true := by
  rw [Run.guarded_iff]
  intro front event back s split reached
  by_contra early
  have wasEarly : emptiesEarly s event = true := by simpa using early
  have isOpen : s.closed = false := by
    unfold emptiesEarly at wasEarly
    split at wasEarly
    · assumption
    · cases wasEarly
  obtain ⟨task, inv⟩ := sessionRun_inv valid reached isOpen
  obtain ⟨count, t, rfl, stepped, closed, live, state⟩ := emptiesEarly_closes isOpen inv wasEarly
  have complete := completes front _ back s t split reached isOpen stepped (by simp) closed
  exact complete.idle task live state

/-- A connection is closed with all of its children's output accepted in every step of a run
exactly when no `send` takes the last waiting bytes of a marked connection whose child is running. -/
theorem closed_when_complete_iff (cfg : Config) {slot : Peer} (vacant : Vacant slot)
    (request : Ptr RequestCell) (newClientSock : Nat) (clientAddr : Address) (conn : Nat)
    (events : List PeerEvent) :
    ClosesComplete cfg events (freshSession request slot newClientSock clientAddr conn) ↔
      Run.guarded (sessionStep cfg) (fun s event => !emptiesEarly s event) events
        (freshSession request slot newClientSock clientAddr conn) = true := by
  have start := freshSession_inv vacant request newClientSock clientAddr conn
  have streams := freshSession_streams vacant request newClientSock clientAddr conn
  have outputs : (freshSession request slot newClientSock clientAddr conn).Outputs := by
    rintro _ ⟨⟩ front body back split
    cases front <;> simp [freshSession, acceptInto] at split
  constructor
  · exact fun completes => completes.guarded start
  · intro guard
    rw [Run.guarded_iff] at guard
    intro front answer back s t split reached isOpen stepped noError closed
    have notEarly := guard front _ back s split reached
    obtain ⟨task, inv⟩ := sessionRun_inv start reached isOpen
    have step := sessionStep_cases isOpen inv stepped
    have short : ShortWrite (.send answer) := noError
    have flows := step.streams (sessionRun_streams_open start streams reached isOpen) (.inl short)
    have children := step.outputs inv (sessionRun_outputs start outputs reached task inv.live)
    obtain ⟨marked, none, reason⟩ :=
      sendToPeer_asks inv.sending inv.live (send_step isOpen stepped closed) noError
    have live : t.peer.httpTask = .live task := by
      cases step with
      | send sent => cases sent <;> exact inv.live
      | noChild => exact inv.live
    have idle : task.state ≠ .processingCgi := by
      rcases reason with ⟨_, _, idle⟩ | ⟨some, count, rfl, all⟩
      · exact idle
      · intro state
        rw [Cbuf.content_length] at all
        have early : emptiesEarly s (.send (.accepted count)) = true := by
          simp [emptiesEarly, isOpen, inv.live, state, marked, some, all]
        rw [early] at notEarly
        cases notEarly
    constructor
    · exact none
    · intro other isLive
      cases isLive.symm.trans live
      exact idle
    · have out := flows.out
      rwa [none, List.append_nil] at out
    · intro front body back split
      rcases children task live front body back split with read | ⟨state, _⟩
      · exact read
      · exact absurd state idle

def endsFirst : List PeerEvent :=
  [.deliver (str "GET /cgi/x HTTP/1.1\r\nConnection: Close\r\n\r\n"), .call (sampleOs true),
   .fromCgi (some (str "ok")), .send (.accepted 1), .fromCgi (some []), .send (.accepted 1)]

theorem closed_when_complete_iff_endsFirst :
    ClosesComplete sampleConfig endsFirst sampleStart :=
  (closed_when_complete_iff sampleConfig createPeer_vacant .null 5 ⟨str "1.2.3.4", 80⟩ 0
    endsFirst).mpr (by decide +kernel)

def emptiedFirst : List PeerEvent :=
  [.deliver (str "GET /cgi/x HTTP/1.1\r\nConnection: Close\r\n\r\n"), .call (sampleOs true),
   .fromCgi (some (str "ok")), .send (.accepted 2), .fromCgi (some (str "more"))]

/-- The connection is closed while the child is running. -/
theorem not_closed_when_complete : ¬ ClosesComplete sampleConfig emptiedFirst sampleStart := by
  intro completes
  have start := freshSession_inv createPeer_vacant .null 5 ⟨str "1.2.3.4", 80⟩ 0
  have early : Run.guarded (sessionStep sampleConfig) (fun s event => !emptiesEarly s event)
      emptiedFirst sampleStart = false := by
    decide +kernel
  rw [completes.guarded start] at early
  cases early

end Liso
