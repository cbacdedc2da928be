import Liso.Server.Session

/-! The bytes on their way out: what was put on a buffer has been accepted by
`send` or `write`, in order, or is still there. -/

namespace Liso

/-- The records of the output and of the buffers agree. -/
structure Streams (peer : Peer) : Prop where
  out : Trace.sent peer.trace ++ peer.sendingBuffer.content = Trace.puts peer.trace
  kept : ∀ byte, Event.lost byte ∉ peer.trace
  reads : (Trace.reads peer.trace).Sublist ((Trace.puts peer.trace).map OutByte.val)
  child : ∀ executor, peer.cgiExecutor = .live executor →
    (Trace.cgiStream peer.trace).2 ++ executor.pending = (Trace.cgiStream peer.trace).1

/-- `send` and `write` take any part of what they are given, and `send` may block. -/
def ShortWrite : PeerEvent → Prop
  | .send answer => answer ≠ .error
  | .toCgi answer => ∃ count, answer = .accepted count
  | _ => True

namespace Streams

theorem extend {p q : Peer} {events : List Event} (streams : Streams p)
    (trace : q.trace = p.trace ++ events)
    (flow : p.sendingBuffer.content ++ Trace.puts events =
      Trace.sent events ++ q.sendingBuffer.content)
    (kept : ∀ byte, Event.lost byte ∉ events)
    (reads : (Trace.reads events).Sublist ((Trace.puts events).map OutByte.val))
    (child : ∀ executor, q.cgiExecutor = .live executor →
      (Trace.cgiStream q.trace).2 ++ executor.pending = (Trace.cgiStream q.trace).1) :
    Streams q where
  out := by
    calc
      Trace.sent q.trace ++ q.sendingBuffer.content =
          Trace.sent p.trace ++ (Trace.sent events ++ q.sendingBuffer.content) := by
        rw [trace, Trace.sent_append, List.append_assoc]
      _ = Trace.sent p.trace ++ p.sendingBuffer.content ++ Trace.puts events := by
        rw [← flow, List.append_assoc]
      _ = Trace.puts q.trace := by rw [streams.out, trace, Trace.puts_append]
  kept := by
    intro byte member
    rw [trace] at member
    rcases List.mem_append.mp member with before | now
    · exact streams.kept byte before
    · exact kept byte now
  reads := by
    rw [trace, Trace.reads_append, Trace.puts_append, List.map_append]
    exact streams.reads.append reads
  child := child

theorem neutral {p q : Peer} {event : Event} (streams : Streams p)
    (trace : q.trace = p.trace ++ [event]) (about : event.neutral = true)
    (content : q.sendingBuffer.content = p.sendingBuffer.content)
    (child : q.cgiExecutor = p.cgiExecutor ∨ q.cgiExecutor = .null) : Streams q := by
  have parts : Trace.puts [event] = [] ∧ Trace.sent [event] = [] ∧ Trace.reads [event] = [] ∧
      (∀ byte, event ≠ .lost byte) ∧ ∀ stream, Trace.cgiStep stream event = stream := by
    cases event with
    | put _ => cases about
    | lost _ => cases about
    | sent _ => cases about
    | cgiBuffered _ => cases about
    | cgiWritten _ => cases about
    | cgiRead _ => cases about
    | _ => exact ⟨rfl, rfl, rfl, nofun, fun _ => rfl⟩
  obtain ⟨puts, sent, reads, kept, same⟩ := parts
  apply streams.extend trace
  · rw [puts, sent, content, List.append_nil, List.nil_append]
  · intro byte member
    exact kept byte (List.mem_singleton.mp member).symm
  · rw [reads]
    exact List.nil_sublist _
  · intro executor running
    have stream : Trace.cgiStream q.trace = Trace.cgiStream p.trace := by
      rw [trace, Trace.cgiStream, List.foldl_append, ← Trace.cgiStream]
      exact same _
    rw [stream]
    rcases child with before | none
    · exact streams.child executor (before.symm.trans running)
    · cases none.symm.trans running

theorem received {p q : Peer} (streams : Streams p) (received : Receives p q) : Streams q := by
  cases received with
  | nothing => exact streams
  | bytes inv content => exact streams.neutral rfl rfl rfl (.inl rfl)

theorem moved {h next : Handling} {events : List Event} (streams : Streams h.peer)
    (moves : Moves h next events) : Streams next.peer := by
  apply streams.extend moves.trace
  · rw [moves.content, Trace.sent_ofPass moves.passes, List.nil_append]
  · exact fun byte member => Bool.false_ne_true (moves.passes _ member)
  · rw [Trace.reads_ofPass moves.passes]
    exact List.nil_sublist _
  · rw [moves.trace, moves.executor, Trace.cgiStream_ofPass _ moves.passes]
    exact streams.child

theorem started {client next : Peer} {req : Nat} (streams : Streams client)
    (start : CgiStarted client req next) : Streams next := by
  obtain ⟨executor, _, _, rfl⟩ := start.started
  apply streams.extend rfl
  · exact List.append_nil _
  · intro byte member
    simp [pipeEvents] at member
  · exact List.nil_sublist _
  · rintro _ ⟨⟩
    simp [Peer.record, Trace.cgiStream, pipeEvents, Trace.cgiStep]

theorem sentPart {peer : Peer} {sendingBuffer : Cbuf OutByte} {count : Nat}
    (streams : Streams peer)
    (left : sendingBuffer.content = peer.sendingBuffer.content.drop count) :
    Streams ({ peer with sendingBuffer }.record
      [.sent (peer.sendingBuffer.content.take count)]) := by
  apply streams.extend rfl
  · change _ ++ [] = (peer.sendingBuffer.content.take count ++ []) ++ sendingBuffer.content
    rw [List.append_nil, List.append_nil, left, List.take_append_drop]
  · intro byte member
    simp at member
  · exact List.nil_sublist _
  · simpa [Peer.record, Trace.cgiStream, Trace.cgiStep] using streams.child

theorem writtenPart {client : Peer} {executor : CgiExecutor} {cgiBuffer : Cbuf UInt8} {count : Nat}
    (streams : Streams client) (running : client.cgiExecutor = .live executor)
    (left : cgiBuffer.content = executor.pending.drop count) :
    Streams (({ client with cgiExecutor := .live { executor with cgiBuffer } } : Peer).record
      [.cgiWritten (executor.pending.take count)]) := by
  apply streams.extend rfl
  · exact List.append_nil _
  · intro byte member
    simp at member
  · exact List.nil_sublist _
  · rintro _ ⟨⟩
    have before := streams.child executor running
    simp only [Peer.record, Trace.cgiStream, List.foldl_append, List.foldl_cons, List.foldl_nil]
    rw [← Trace.cgiStream]
    change (Trace.cgiStream client.trace).2 ++ _ ++ cgiBuffer.content = _
    rw [left, List.append_assoc, List.take_append_drop]
    exact before

theorem piped {client next : Peer} {data : Bytes} {req : Nat} (streams : Streams client)
    (puts : Puts (client.record [.cgiRead data]) (data.map (⟨·, req⟩)) next) : Streams next := by
  have content := puts.content
  obtain ⟨sendingBuffer, rfl⟩ := puts.frame
  have passes : ∀ event ∈ (data.map (⟨·, req⟩ : UInt8 → OutByte)).map Event.put,
      event.ofPass = true := by simp [Event.ofPass]
  apply streams.extend (List.append_assoc ..)
  · rw [Trace.puts_append, Trace.sent_append, Trace.puts_map_put, Trace.sent_ofPass passes]
    exact content.symm
  · intro byte member
    simp at member
  · rw [Trace.reads_append, Trace.puts_append, Trace.puts_map_put, Trace.reads_ofPass passes,
      List.append_nil, List.map_append, List.map_map]
    change (data ++ []).Sublist ([] ++ _)
    rw [List.append_nil, List.nil_append, Function.comp_def, List.map_id']
  · intro executor running
    simp only [Peer.record]
    rw [Trace.cgiStream_ofPass _ passes]
    simpa [Trace.cgiStream, Trace.cgiStep] using streams.child executor running

end Streams

theorem StepCases.streams {cfg : Config} {s t : Session} {task : HttpTask} {event : PeerEvent}
    (streams : Streams s.peer) (short : ShortWrite event ∨ t.closed = false)
    (step : StepCases cfg s task event t) : Streams t.peer := by
  cases step with
  | deliver received => exact streams.received received
  | recv received => exact streams.received received
  | @call os code h called effect valid =>
      have after : Streams h.peer := by
        cases effect with
        | moved events moves => exact streams.moved moves
        | started events middle moves start same => exact (streams.moved moves).started start
      cases code <;> exact after.neutral rfl rfl rfl (.inl rfl)
  | send sent =>
      cases sent with
      | nothing empty => exact streams
      | accepted count answered inv left => exact streams.sentPart left
      | failed inv =>
          rcases short with short | isOpen
          · exact absurd rfl short
          · cases isOpen
  | toCgi child sent =>
      cases sent with
      | nothing empty => exact streams
      | accepted count inv left => exact streams.writtenPart child left
      | failed inv refused =>
          rcases short with ⟨count, accepted⟩ | isOpen
          · exact absurd accepted (refused count)
          · cases isOpen
  | fromCgi child piped =>
      cases piped with
      | full => exact streams
      | failed => exact streams
      | ended live => exact streams.neutral rfl rfl rfl (.inr rfl)
      | piped taken puts => exact streams.piped puts
  | noChild => exact streams
  | others => exact streams

theorem sessionRun_streams {cfg : Config} {events : List PeerEvent} {s t : Session}
    (short : ∀ event ∈ events, ShortWrite event) (inv : s.Inv) (streams : Streams s.peer)
    (ran : sessionRun cfg events s = .ok t) : Streams t.peer :=
  sessionRun_keeps (P := fun s => Streams s.peer)
    (fun _ _ streams short step => step.streams streams (.inl short)) inv streams short ran

theorem sessionRun_streams_open {cfg : Config} {events : List PeerEvent} {s t : Session}
    (inv : s.Inv) (streams : Streams s.peer) (ran : sessionRun cfg events s = .ok t)
    (isOpen : t.closed = false) : Streams t.peer :=
  sessionRun_keeps (P := fun s => s.closed = false → Streams s.peer)
    (fun isOpen _ streams _ step stays => step.streams (streams isOpen) (.inr stays)) inv
    (fun _ => streams) (fun _ _ => trivial) ran isOpen

theorem freshSession_streams {slot : Peer} (vacant : Vacant slot) (request : Ptr RequestCell)
    (newClientSock : Nat) (clientAddr : Address) (conn : Nat) :
    Streams (freshSession request slot newClientSock clientAddr conn).peer where
  out := vacant.nothingToSend
  kept := by simp [freshSession, acceptInto]
  reads := List.nil_sublist _
  child := fun executor running => absurd running (vacant.idle executor)

/-- Under short writes nothing is lost, repeated or reordered on its way out, and every restore
loop puts all bytes back. -/
theorem outgoing_streams_complete (cfg : Config) {slot : Peer} (vacant : Vacant slot)
    (request : Ptr RequestCell) (newClientSock : Nat) (clientAddr : Address) (conn : Nat)
    (events : List PeerEvent) (short : ∀ event ∈ events, ShortWrite event) (s : Session)
    (ran : sessionRun cfg events (freshSession request slot newClientSock clientAddr conn) =
      .ok s) :
    Trace.sent s.peer.trace ++ s.peer.sendingBuffer.content = Trace.puts s.peer.trace ∧
      (∀ byte, Event.lost byte ∉ s.peer.trace) ∧
      (Trace.reads s.peer.trace).Sublist ((Trace.puts s.peer.trace).map OutByte.val) ∧
      (∀ executor, s.peer.cgiExecutor = .live executor →
        (Trace.cgiStream s.peer.trace).2 ++ executor.pending =
          (Trace.cgiStream s.peer.trace).1) ∧
      (s.closed = false → ∀ answer, (∃ result, sendToPeer s.peer answer = .ok result) ∧
        ∀ executor, s.peer.cgiExecutor = .live executor →
          ∃ result, sendToCgiProcess s.peer answer = .ok result) := by
  have start := freshSession_inv vacant request newClientSock clientAddr conn
  have streams := sessionRun_streams short start
    (freshSession_streams vacant request newClientSock clientAddr conn) ran
  refine ⟨streams.out, streams.kept, streams.reads, streams.child, fun isOpen answer => ?_⟩
  obtain ⟨task, inv⟩ := sessionRun_inv start ran isOpen
  obtain ⟨result, sent, _⟩ := sendToPeer_sent inv.sending inv.live answer
  refine ⟨⟨result, sent⟩, fun executor running => ?_⟩
  have linked := inv.child
  rw [running] at linked
  obtain ⟨written, wrote, _⟩ := sendToCgiProcess_sent linked.2.1 running answer
  exact ⟨written, wrote⟩

def refusedEvents : List PeerEvent :=
  [.deliver (str "PUT / HTTP/1.1\r\n\r\n"), .call (sampleOs true), .send (.accepted 7),
   .send .wouldBlock]

theorem outgoing_streams_complete_refused :
    ∃ s, sessionRun sampleConfig refusedEvents sampleStart = .ok s ∧
      (Trace.sent s.peer.trace).map OutByte.val = str "HTTP/1." ∧
      Trace.sent s.peer.trace ++ s.peer.sendingBuffer.content = Trace.puts s.peer.trace := by
  have sent : ((sessionRun sampleConfig refusedEvents sampleStart).map
      fun s => (Trace.sent s.peer.trace).map OutByte.val) = .ok (str "HTTP/1.") := by
    decide +kernel
  cases ran : sessionRun sampleConfig refusedEvents sampleStart with
  | error fault =>
      rw [ran] at sent
      cases sent
  | ok s =>
      rw [ran] at sent
      refine ⟨s, rfl, Except.ok.inj sent, ?_⟩
      have short : ∀ event ∈ refusedEvents, ShortWrite event := by
        simp [refusedEvents, ShortWrite]
      exact (outgoing_streams_complete sampleConfig createPeer_vacant .null 5 ⟨str "1.2.3.4", 80⟩ 0
        refusedEvents short s ran).1

end Liso
