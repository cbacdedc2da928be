import Liso.Http.Service
import Liso.Server.Framing
import Liso.Server.Streams

/-! A connection is the service of its requests: what it sends are the replies to the requests that
it received, one after the other. -/

namespace Liso

def Session.Serving (cfg : Config) (s : Session) : Prop :=
  s.closed = false → ∀ task, s.peer.httpTask = .live task →
    Liso.Serving cfg s.request task s.peer.trace ∧ Flow s.peer

/-- No other connection parses a request while this one waits for a body: the global `request` is
read again when the body is there. -/
def Session.keepsRequest (s : Session) (event : PeerEvent) : Bool :=
  match event with
  | .others _ =>
      s.closed ||
        match s.peer.httpTask with
        | .live task => task.state ≠ .recvBody
        | _ => true
  | _ => true

section Steps

variable {cfg : Config} {s t : Session} {task : HttpTask} {event : PeerEvent}

private theorem Serving.neutral {request : Ptr RequestCell} {trace : List Event} {event : Event}
    (serving : Serving cfg request task trace) (framed : Trace.framed [event] = [])
    (silent : Trace.puts [event] = [])
    (still : ∀ outputs, Trace.childrenStep outputs event = outputs) :
    Serving cfg request task (trace ++ [event]) := by
  refine serving.goesOn fun underway => ⟨_, fun before => still _, ?_⟩
  rw [framed, silent, List.append_nil, List.map_nil, List.append_nil]
  exact underway

private theorem Flow.neutral {p q : Peer} {event : Event} (flow : Flow p)
    (trace : q.trace = p.trace ++ [event]) (silent : Trace.puts [event] = [])
    (none : Trace.sent [event] = [])
    (content : q.sendingBuffer.content = p.sendingBuffer.content) : Flow q := by
  unfold Flow at flow ⊢
  rw [trace, Trace.puts_append, Trace.sent_append, silent, none, List.append_nil, List.append_nil,
    content, flow]

private theorem Underway.others {whole : Prop} {request after : Ptr RequestCell}
    {pending : List (Bytes × Option Bytes)} {child : List Bytes} {current : Bytes}
    (underway : Underway cfg whole request task pending child current) (resting : task.Resting)
    (away : task.state ≠ .recvBody) : Underway cfg whole after task pending child current := by
  cases state : task.state with
  | recvHeader => exact underway.keeps (.inl state) (.inl state)
  | finished => exact underway.keeps (.inr state) (.inr state)
  | recvBody => exact absurd state away
  | sendBody => simpa only [Underway, state] using underway
  | processingCgi => simpa only [Underway, state] using underway
  | checkCgi => simp [HttpTask.Resting, state] at resting
  | generateHeader => simp [HttpTask.Resting, state] at resting
  | sendHeader => simp [HttpTask.Resting, state] at resting

private theorem Receives.serving {peer : Peer} (received : Receives s.peer peer)
    (serving : Serving cfg s.request task s.peer.trace) (flow : Flow s.peer) :
    Serving cfg s.request task peer.trace ∧ Flow peer := by
  cases received with
  | nothing => exact ⟨serving, flow⟩
  | bytes inv content =>
      exact ⟨serving.neutral rfl rfl fun _ => rfl, flow.neutral rfl rfl rfl rfl⟩

private theorem Serving.piped {request : Ptr RequestCell} {trace : List Event}
    (serving : Serving cfg request task trace) (running : task.state = .processingCgi)
    (data : Bytes) (req : Nat) :
    Serving cfg request task
      (trace ++ [.cgiRead data] ++ (data.map fun c => (⟨c, req⟩ : OutByte)).map .put) := by
  rw [List.append_assoc]
  refine serving.goesOn @fun _ _ current underway => ?_
  simp only [Underway, running] at underway ⊢
  obtain ⟨block, body, rfl, rfl, forChild⟩ := underway
  have put := Trace.ofPass_put (data.map (⟨·, req⟩))
  refine ⟨[current ++ data], fun before => ?_, block, body, ?_, ?_, forChild⟩
  · rw [List.foldl_append, List.foldl_cons, List.foldl_nil, Trace.childrenStep_read,
      Trace.children_ofPass put]
  · rw [Trace.framed_append, Trace.framed_map_put]
    rfl
  · rw [Trace.puts_append, Trace.puts_map_put, List.map_append, List.map_map]
    simp [Trace.puts, Event.putByte, Function.comp_def]

private theorem Flow.piped {client put : Peer} (flow : Flow client) (data : Bytes) {req : Nat}
    (content : put.sendingBuffer.content =
      client.sendingBuffer.content ++ data.map fun c => (⟨c, req⟩ : OutByte))
    (trace : put.trace = client.trace ++ [.cgiRead data] ++
      (data.map fun c => (⟨c, req⟩ : OutByte)).map .put) : Flow put := by
  unfold Flow at flow ⊢
  rw [trace, content, Trace.puts_append, Trace.puts_append, Trace.sent_append, Trace.sent_append,
    Trace.puts_map_put, Trace.sent_ofPass (Trace.ofPass_put _), flow]
  simp [Trace.puts, Trace.sent, Event.putByte, Event.sentBytes]

private theorem CallEffect.flow {h next : Handling} (effect : CallEffect h next)
    (flow : Flow h.peer) : Flow next.peer := by
  cases effect with
  | moved events moves => exact moves.flow flow
  | started events middle moves start task => exact start.flow (moves.flow flow)

theorem StepCases.serving (isOpen : s.closed = false) (inv : s.peer.Inv task)
    (keeps : s.keepsRequest event = true) (serving : s.Serving cfg)
    (step : StepCases cfg s task event t) : t.Serving cfg := by
  obtain ⟨served, flow⟩ := serving isOpen task inv.live
  intro stillOpen next live
  cases step with
  | deliver received =>
      cases (received.httpTask.symm.trans live).symm.trans inv.live
      exact received.serving served flow
  | recv received =>
      cases (received.httpTask.symm.trans live).symm.trans inv.live
      exact received.serving served flow
  | @call os code h called effect valid =>
      have stays : code ≠ .closeConnImmediately := by
        rintro rfl
        cases stillOpen
      obtain ⟨_, isNext, later⟩ := handleHttp_serving inv flow served called stays
      cases isNext
      have told : Liso.Serving cfg h.request h.task (h.peer.trace ++ [.returned code]) :=
        later.neutral rfl rfl fun _ => rfl
      have flows : ∀ closeConn, Flow
          { h.peer with
            httpTask := .live h.task
            closeConn
            trace := h.peer.trace ++ [.returned code] } := fun _ =>
        (effect.flow flow).neutral rfl rfl rfl rfl
      cases code with
      | closeConnImmediately => exact absurd rfl stays
      | closeConn =>
          cases live
          exact ⟨told, flows true⟩
      | keepConn =>
          cases live
          exact ⟨told, flows _⟩
  | send sent =>
      cases sent with
      | nothing empty => exact serving isOpen next live
      | @accepted _ _ sendingBuffer count answered bufInv left =>
          cases live.symm.trans inv.live
          refine ⟨served.neutral rfl rfl fun _ => rfl, ?_⟩
          unfold Flow at flow ⊢
          simp only [Peer.record, Trace.puts_append, Trace.sent_append, left, flow]
          simp [Trace.puts, Trace.sent, Event.putByte, Event.sentBytes]
      | failed bufInv => cases stillOpen
  | toCgi child sent =>
      cases sent with
      | nothing empty => exact serving isOpen next live
      | accepted count bufInv left =>
          cases live.symm.trans inv.live
          exact ⟨served.neutral rfl rfl fun _ => rfl, flow.neutral rfl rfl rfl rfl⟩
      | failed bufInv refused => cases stillOpen
  | @fromCgi _ executor _ _ child piped =>
      have linked := inv.child
      rw [child] at linked
      obtain ⟨running, _, req⟩ := linked
      cases piped with
      | full => exact serving isOpen next live
      | failed => cases stillOpen
      | ended isLive =>
          cases isLive.symm.trans inv.live
          cases live
          refine ⟨?_, flow.neutral rfl rfl rfl rfl⟩
          have told : Liso.Serving cfg s.request task
              (s.peer.trace ++ [.cgiEnded executor.req]) := served.neutral rfl rfl fun _ => rfl
          refine told.still fun underway => ?_
          simp only [Underway, running] at underway
          obtain ⟨block, body, rfl, rfl, forChild⟩ := underway
          exact (Underway.between (.inr rfl)).mpr (.inr ⟨_, rfl, .child forChild⟩)
      | @piped _ data _ taken puts =>
          have content := puts.content
          obtain ⟨sendingBuffer, rfl⟩ := puts.frame
          cases live.symm.trans inv.live
          exact ⟨served.piped running data executor.req, flow.piped data content rfl⟩
  | noChild => exact serving isOpen next live
  | others =>
      cases live.symm.trans inv.live
      have away : task.state ≠ .recvBody := by
        simpa [Session.keepsRequest, isOpen, inv.live] using keeps
      exact ⟨served.still fun underway => underway.others inv.resting away, flow⟩

end Steps

/-- The output of a connection, sent or about to be, are the `replies` of the service to the
requests that were received. Only a file that is being sent leaves the last one incomplete, and
only heads for which the sending buffer had no room lack their ends. -/
structure Serves (cfg : Config) (peer : Peer) (task : HttpTask) (replies : List Bytes) : Prop where
  requests : Trace.framed peer.trace <+: splitRequests cfg (Trace.received peer.trace)
  service : Service cfg (¬ Trace.Backlogged peer.trace) (Trace.framed peer.trace)
    (Trace.children peer.trace) replies
  output : (Trace.sent peer.trace ++ peer.sendingBuffer.content).map OutByte.val <+: replies.flatten
  complete : task.state ≠ .sendBody →
    (Trace.sent peer.trace ++ peer.sendingBuffer.content).map OutByte.val = replies.flatten

private theorem Serving.serves {cfg : Config} {request : Ptr RequestCell} {peer : Peer}
    {task : HttpTask} (serving : Serving cfg request task peer.trace) (flow : Flow peer)
    (resting : task.Resting)
    (requests : Trace.framed peer.trace <+: splitRequests cfg (Trace.received peer.trace)) :
    ∃ replies, Serves cfg peer task replies := by
  obtain @⟨_, _, _, _, earlier, current, service, underway, framed, wrote, put⟩ := serving
  obtain ⟨bytes, whole, begins, same⟩ := underway.ahead resting service
  rw [← framed, ← wrote] at whole
  refine ⟨earlier ++ bytes, requests, whole, ?_, fun complete => ?_⟩
  · rw [← flow, put, List.flatten_append]
    exact (List.prefix_append_right_inj _).mpr begins
  · rw [← flow, put, List.flatten_append, same complete]

end Liso
