import Liso.Http.Passes

/-! SEND_HEADER_STATE over all the calls it takes: when the response head is
delivered whole. -/

namespace Liso

structure Drained (peer : Peer) (count : Nat) (drained : Peer) : Prop where
  inv : drained.sendingBuffer.Inv
  content : drained.sendingBuffer.content = peer.sendingBuffer.content.drop count
  rest : drained = { peer with sendingBuffer := drained.sendingBuffer }

/-- The passes through SEND_HEADER_STATE, with drains of the sending buffer between the calls,
until one leaves it: the bytes put, and what the next state starts from. -/
inductive SendsHeader : Handling → List OutByte → Handling → Prop
  | leaves {h next : Handling} {bytes : List OutByte}
      (pass : sendHeaderState h = .ok (.again next)) (other : next.task.state ≠ .sendHeader)
      (puts : next.peer.trace = h.peer.trace ++ bytes.map .put) : SendsHeader h bytes next
  | stays {h middle next : Handling} {bytes more : List OutByte}
      (pass : sendHeaderState h = .ok (.again middle)) (same : middle.task.state = .sendHeader)
      (puts : middle.peer.trace = h.peer.trace ++ bytes.map .put)
      (later : SendsHeader middle more next) : SendsHeader h (bytes ++ more) next
  | waits {h stopped next : Handling} {code : Code} {count : Nat} {bytes more : List OutByte}
      {drained : Peer} (pass : sendHeaderState h = .ok (.returns code stopped))
      (puts : stopped.peer.trace = h.peer.trace ++ bytes.map .put)
      (drains : Drained stopped.peer count drained)
      (later : SendsHeader { stopped with peer := drained } more next) :
      SendsHeader h (bytes ++ more) next

/-- Over all its calls SEND_HEADER_STATE puts the response buffer, no more and no less. -/
def DeliversHead (h : Handling) : Prop :=
  ∀ bytes next, SendsHeader h bytes next → bytes = h.task.responseBuf.content

private theorem afterHead_leaves (task : HttpTask) : afterHead task ≠ .sendHeader := by
  rcases afterHead_cases task with body | finished
  · simp [body]
  · simp [finished]

private theorem trace_puts {trace : List Event} {first second : List OutByte}
    (same : trace ++ first.map .put = trace ++ second.map .put) : first = second :=
  List.map_injective_iff.mpr (fun _ _ equal => Event.put.inj equal) (List.append_cancel_left same)

/-- It never waits: one pass is all there is. -/
theorem SendsHeader.once {h next : Handling} {bytes : List OutByte}
    (response : h.task.responseBuf.Inv) (sending : h.peer.sendingBuffer.Inv)
    (answered : Answered h.task) (sends : SendsHeader h bytes next) :
    ∃ ret sent, HeadSent h.task h.peer (ret, sent, next.peer) ∧
      next.peer.trace = h.peer.trace ++ bytes.map .put := by
  obtain ⟨ret, sent, peer, result, ran⟩ := sendHeaderState_sent response sending answered
  cases sends with
  | leaves pass other puts =>
      cases ran.symm.trans pass
      exact ⟨ret, sent, result, puts⟩
  | stays pass same puts later =>
      cases ran.symm.trans pass
      exact absurd same (afterHead_leaves sent)
  | waits pass puts drains later => cases ran.symm.trans pass

/-- A head is delivered whole exactly when the sending buffer has room for all of it when it is
first met. -/
theorem head_delivered_iff (h : Handling) (response : h.task.responseBuf.Inv)
    (sending : h.peer.sendingBuffer.Inv) (answered : Answered h.task) :
    DeliversHead h ↔
      h.task.responseBuf.content.length ≤ bufAvailable h.peer.sendingBuffer := by
  rw [sending.available_content]
  have within := sending.content_fits
  constructor
  · intro delivers
    obtain ⟨ret, sent, peer, result, ran⟩ := sendHeaderState_sent response sending answered
    obtain ⟨front, puts, start⟩ := result.puts
    obtain ⟨sendingBuffer, shape⟩ := puts.frame
    have trace : peer.trace = h.peer.trace ++ front.map .put := congrArg Peer.trace shape
    have whole := delivers front _ (.leaves ran (afterHead_leaves sent) trace)
    have fits := puts.inv.content_fits
    rw [puts.content, List.length_append, whole] at fits
    omega
  · intro room bytes next sends
    obtain ⟨ret, sent, result, trace⟩ := sends.once response sending answered
    cases result with
    | whole inv empty puts =>
        have shape := congrArg Peer.trace puts.rest
        exact (trace_puts (shape.symm.trans trace)).symm
    | cut inv left split puts full =>
        rw [puts.content, List.length_append] at full
        rw [split, List.length_append, List.length_cons] at room
        omega

def oneByteHead (fill : Nat) : Handling where
  request := .null
  task := { createHttpTask with
    state := .sendHeader
    responseCode := okNum
    methodType := .head
    responseBuf := ⟨fun _ => ⟨65, 1⟩, 1, 0, bufDataMaxsize, 1⟩ }
  peer := { createPeer with
    sendingBuffer := ⟨fun _ => ⟨66, 0⟩, fill % bufDataMaxsize, 0, bufDataMaxsize, fill⟩ }

theorem oneByteHead_inv (fill : Nat) (fits : fill ≤ bufDataMaxsize) :
    (oneByteHead fill).task.responseBuf.Inv ∧ (oneByteHead fill).peer.sendingBuffer.Inv := by
  have positive : 0 < bufDataMaxsize := by decide
  refine ⟨⟨rfl, ?_, positive, ?_, rfl⟩, ⟨rfl, Nat.mod_lt _ positive, positive, fits, ?_⟩⟩
  · change 1 < bufDataMaxsize
    decide
  · change 1 ≤ bufDataMaxsize
    decide
  · change fill % bufDataMaxsize = (0 + fill) % bufDataMaxsize
    rw [Nat.zero_add]

theorem head_delivered_iff_room : DeliversHead (oneByteHead 8191) := by
  obtain ⟨response, sending⟩ := oneByteHead_inv 8191 (by decide)
  exact (head_delivered_iff (oneByteHead 8191) response sending (.inr nofun)).mpr (by decide)

/-- The byte that meets the full buffer is put nowhere, and the task leaves all the same. -/
theorem head_not_delivered_full : ¬ DeliversHead (oneByteHead 8192) := by
  intro delivers
  have pass : ∃ next, sendHeaderState (oneByteHead 8192) = .ok (.again next) ∧
      next.task.state = .finished ∧ next.peer.trace = [] := ⟨_, rfl, rfl, rfl⟩
  obtain ⟨next, ran, state, trace⟩ := pass
  have none : next.peer.trace = (oneByteHead 8192).peer.trace ++ ([] : List OutByte).map .put := trace
  cases delivers [] next (.leaves ran (by simp [state]) none)

end Liso
