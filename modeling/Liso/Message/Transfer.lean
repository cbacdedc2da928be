import Liso.Message.Peer

/-! The functions of message.c that move bytes between a peer's buffers, its
socket and its CGI child, and the one that closes its connection. -/

namespace Liso

inductive WriteAnswer
  | accepted (count : Nat)
  | wouldBlock
  | error
  deriving DecidableEq

inductive RecvAnswer
  | bytes (first : UInt8) (more : Bytes)
  | shutdown
  | wouldBlock
  | error
  deriving DecidableEq

inductive SendStatus
  | success
  | failure
  | nothingToSend
  deriving DecidableEq

/-- The restore loop: `count` calls of `buf_putback`, each asserted. -/
def putbackLoop {α : Type} : Nat → Cbuf α → Except Fault (Cbuf α)
  | 0, c => .ok c
  | count + 1, c =>
      match bufPutback c with
      | (.failure, _) => .error .assertion
      | (.success, c) => putbackLoop count c

def drain {α : Type} (c : Cbuf α) : Except Fault (List α × Cbuf α) :=
  match bufRead c c.numByte with
  | (some data, c) => .ok (data, c)
  | (none, _) => .error .assertion

theorem drain_content {α : Type} {c : Cbuf α} (inv : c.Inv) :
    ∃ next, drain c = .ok (c.content, next) ∧ next.Refines ⟨[], c.content.reverse⟩ := by
  obtain ⟨next, got, refines⟩ := inv.refines.read c.numByte
  have all : c.content.length = c.numByte := c.content_length
  simp only [RingBuffer.Fifo.read, ← all, List.take_length, List.drop_length,
    List.append_nil] at got refines
  refine ⟨next, ?_, refines⟩
  rw [drain, ← all, got]

theorem putbackLoop_restores {α : Type} {c : Cbuf α} {data : List α}
    (refines : c.Refines ⟨[], data.reverse⟩) (fits : data.length ≤ bufDataMaxsize) (count : Nat) :
    ∃ next, putbackLoop (data.length - count) c = .ok next ∧ next.Inv ∧
      next.content = data.drop count := by
  have loop (times : Nat) {c : Cbuf α} {queue removed : List α}
      (refines : c.Refines ⟨queue, removed⟩) (held : times ≤ removed.length)
      (room : queue.length + times ≤ bufDataMaxsize) :
      ∃ next, putbackLoop times c = .ok next ∧
        next.Refines (RingBuffer.Fifo.unread bufDataMaxsize times ⟨queue, removed⟩) := by
    induction times generalizing c queue removed with
    | zero => exact ⟨c, rfl, refines⟩
    | succ times ih =>
        cases removed with
        | nil => exact absurd held (Nat.not_succ_le_zero _)
        | cons value removed =>
            have free : queue.length < bufDataMaxsize := by omega
            obtain ⟨middle, back, middleRefines⟩ := refines.putback_room free
            obtain ⟨next, ran, nextRefines⟩ := ih middleRefines (by simpa using held) (by
              rw [List.length_cons]
              omega)
            refine ⟨next, by rw [putbackLoop, back]; exact ran, ?_⟩
            simpa [RingBuffer.Fifo.unread, RingBuffer.Fifo.putback, free] using nextRefines
  have split : data.reverse = (data.drop count).reverse ++ (data.take count).reverse := by
    rw [← List.reverse_append, List.take_append_drop]
  have length : ((data.drop count).reverse).length = data.length - count := by simp
  obtain ⟨next, ran, nextRefines⟩ := loop (data.length - count) refines (by simp) (by simp; omega)
  rw [split, ← length, RingBuffer.Fifo.unread_removed _ _ _ _ (by simp; omega)] at nextRefines
  refine ⟨next, ran, nextRefines.inv, ?_⟩
  simpa using nextRefines.queue

def sendToCgiProcess (client : Peer) (answer : WriteAnswer) : Except Fault (ExitStatus × Peer) := do
  let executor ← client.cgiExecutor.deref
  match executor.cgiBuffer with
  | none => return (.success, client)
  | some cgiBuf =>
      if bufEmpty cgiBuf then return (.success, client)
      else
        let (data, cgiBuf) ← drain cgiBuf
        let store (buf : Cbuf UInt8) : Peer :=
          { client with cgiExecutor := .live { executor with cgiBuffer := some buf } }
        match answer with
        | .accepted count =>
            let cgiBuf ← putbackLoop (data.length - count) cgiBuf
            return (.success, (store cgiBuf).record [.cgiWritten (data.take count)])
        | _ => return (.failure, store cgiBuf)

/-- The bytes put carry the request of the child they come from. -/
def executorReq (client : Peer) : Nat :=
  match client.cgiExecutor with
  | .live executor => executor.req
  | _ => 0

/-- `none` is a failed `read`, `some []` the end of the child's output. -/
def pipeFromCgiProcessToClient (client : Peer) (answer : Option Bytes) :
    Except Fault (ExitStatus × Peer) :=
  if bufFull client.sendingBuffer then .ok (.success, client)
  else
    match answer with
    | none => .ok (.failure, client)
    | some [] => do
        let task ← client.httpTask.deref
        let _ ← freeCgiExecutor client.cgiExecutor
        return (.success, { client with
          httpTask := .live { task with state := .finished }
          cgiExecutor := .null }.record [.cgiEnded (executorReq client)])
    | some (first :: more) =>
        let data := (first :: more).take (bufAvailable client.sendingBuffer)
        let bytes := data.map fun c => ⟨c, executorReq client⟩
        .ok (.success, bytes.foldl Peer.put (client.record [.cgiRead data]))

/-- `recv` is asked for as many bytes as the buffer has room for, and returns 0 when it has
none; the count that `buf_write` returns is compared with EXIT_FAILURE, which is 1. -/
def receiveFromPeer (peer : Peer) (answer : RecvAnswer) : ExitStatus × Peer :=
  match answer with
  | .wouldBlock => if bufFull peer.receivingBuffer then (.failure, peer) else (.success, peer)
  | .error => (.failure, peer)
  | .shutdown => (.failure, peer)
  | .bytes first more =>
      match (first :: more).take (bufAvailable peer.receivingBuffer) with
      | [] => (.failure, peer)
      | data =>
          match bufWrite peer.receivingBuffer data with
          | (ret, receivingBuffer) =>
              let peer := { peer with receivingBuffer }.record [.received data]
              if ret = 1 then (.failure, peer) else (.success, peer)

def sendToPeer (peer : Peer) (answer : WriteAnswer) : Except Fault (SendStatus × Peer) :=
  if bufEmpty peer.sendingBuffer then
    if peer.closeConn then do
      let task ← peer.httpTask.deref
      return (if task.state ≠ .processingCgi then .failure else .nothingToSend, peer)
    else .ok (.nothingToSend, peer)
  else do
    let (data, sendingBuf) ← drain peer.sendingBuffer
    let restore (count : Nat) : Except Fault (SendStatus × Peer) := do
      let sendingBuffer ← putbackLoop (data.length - count) sendingBuf
      let peer := { peer with sendingBuffer }.record [.sent (data.take count)]
      return (if peer.closeConn && bufEmpty peer.sendingBuffer then .failure else .success, peer)
    match answer with
    | .accepted count => restore count
    | .wouldBlock => restore 0
    | .error => return (.failure, { peer with sendingBuffer := sendingBuf })

inductive SendCases (peer : Peer) : WriteAnswer → SendStatus × Peer → Prop
  | nothing {answer : WriteAnswer} {status : SendStatus}
      (empty : peer.sendingBuffer.content = []) : SendCases peer answer (status, peer)
  | accepted {answer : WriteAnswer} {status : SendStatus} {sendingBuffer : Cbuf OutByte}
      (count : Nat) (answered : answer = .accepted count ∨ answer = .wouldBlock ∧ count = 0)
      (inv : sendingBuffer.Inv)
      (left : sendingBuffer.content = peer.sendingBuffer.content.drop count) :
      SendCases peer answer (status, { peer with sendingBuffer }.record
        [.sent (peer.sendingBuffer.content.take count)])
  | failed {sendingBuffer : Cbuf OutByte} (inv : sendingBuffer.Inv) :
      SendCases peer .error (.failure, { peer with sendingBuffer })

theorem sendToPeer_sent {peer : Peer} {task : HttpTask} (sending : peer.sendingBuffer.Inv)
    (live : peer.httpTask = .live task) (answer : WriteAnswer) :
    ∃ result, sendToPeer peer answer = .ok result ∧ SendCases peer answer result := by
  unfold sendToPeer
  by_cases empty : bufEmpty peer.sendingBuffer = true
  · have none : peer.sendingBuffer.content = [] := sending.refines.empty_iff.mp empty
    rw [if_pos empty]
    split
    · rw [live]
      exact ⟨_, rfl, .nothing none⟩
    · exact ⟨_, rfl, .nothing none⟩
  · obtain ⟨drained, drain, refines⟩ := drain_content sending
    rw [if_neg empty, drain, ok_bind]
    have restored := putbackLoop_restores refines sending.content_fits
    cases answer with
    | accepted count =>
        obtain ⟨next, back, inv, left⟩ := restored count
        simp only [back, ok_bind, pure_ok]
        exact ⟨_, rfl, .accepted count (.inl rfl) inv left⟩
    | wouldBlock =>
        obtain ⟨next, back, inv, left⟩ := restored 0
        simp only [back, ok_bind, pure_ok]
        exact ⟨_, rfl, .accepted 0 (.inr ⟨rfl, rfl⟩) inv left⟩
    | error => exact ⟨_, rfl, .failed refines.inv⟩

theorem sendToPeer_asks {peer next : Peer} {task : HttpTask} {answer : WriteAnswer}
    (sending : peer.sendingBuffer.Inv) (live : peer.httpTask = .live task)
    (ran : sendToPeer peer answer = .ok (.failure, next)) (noError : answer ≠ .error) :
    peer.closeConn = true ∧ next.sendingBuffer.content = [] ∧
      (peer.sendingBuffer.content = [] ∧ next = peer ∧ task.state ≠ .processingCgi ∨
        peer.sendingBuffer.content ≠ [] ∧ ∃ count, answer = .accepted count ∧
          peer.sendingBuffer.content.length ≤ count) := by
  unfold sendToPeer at ran
  by_cases empty : bufEmpty peer.sendingBuffer = true
  · have none : peer.sendingBuffer.content = [] := sending.refines.empty_iff.mp empty
    rw [if_pos empty] at ran
    by_cases marked : peer.closeConn = true
    · rw [if_pos marked, live] at ran
      by_cases waiting : task.state = .processingCgi
      · simp [Ptr.deref, waiting] at ran
      · simp only [Ptr.deref, ok_bind, pure_ok, Except.ok.injEq, Prod.mk.injEq] at ran
        obtain ⟨_, rfl⟩ := ran
        exact ⟨marked, none, .inl ⟨none, rfl, waiting⟩⟩
    · rw [if_neg marked] at ran
      cases ran
  · have some : peer.sendingBuffer.content ≠ [] := mt sending.refines.empty_iff.mpr empty
    obtain ⟨drained, drain, refines⟩ := drain_content sending
    rw [if_neg empty, drain, ok_bind] at ran
    have restored (count : Nat) {result : SendStatus × Peer}
        (ran : (do
          let sendingBuffer ← putbackLoop (peer.sendingBuffer.content.length - count) drained
          let after := { peer with sendingBuffer }.record
            [.sent (peer.sendingBuffer.content.take count)]
          return (if after.closeConn && bufEmpty after.sendingBuffer then SendStatus.failure
            else .success, after)) = (.ok result : Except Fault _))
        (asks : result.1 = .failure) : peer.closeConn = true ∧
          result.2.sendingBuffer.content = [] ∧ peer.sendingBuffer.content.length ≤ count := by
      obtain ⟨buf, back, inv, left⟩ := putbackLoop_restores refines sending.content_fits count
      rw [back, ok_bind] at ran
      cases ran
      dsimp only at asks
      split at asks
      · next both =>
          rw [Bool.and_eq_true] at both
          have none : buf.content = [] := inv.refines.empty_iff.mp both.2
          exact ⟨both.1, none, List.drop_eq_nil_iff.mp (left.symm.trans none)⟩
      · cases asks
    cases answer with
    | error => exact absurd rfl noError
    | accepted count =>
        obtain ⟨marked, none, all⟩ := restored count ran rfl
        exact ⟨marked, none, .inr ⟨some, count, rfl, all⟩⟩
    | wouldBlock =>
        obtain ⟨_, _, all⟩ := restored 0 ran rfl
        exact absurd (List.eq_nil_of_length_eq_zero (Nat.le_zero.mp all)) some

theorem sendToPeer_empties {peer : Peer} {count : Nat} (sending : peer.sendingBuffer.Inv)
    (marked : peer.closeConn = true) (some : peer.sendingBuffer.content ≠ [])
    (all : peer.sendingBuffer.content.length ≤ count) :
    ∃ next, sendToPeer peer (.accepted count) = .ok (.failure, next) ∧
      next.httpTask = peer.httpTask := by
  have waiting : ¬ bufEmpty peer.sendingBuffer = true := mt sending.refines.empty_iff.mp some
  obtain ⟨drained, drain, refines⟩ := drain_content sending
  obtain ⟨buf, back, inv, left⟩ := putbackLoop_restores refines sending.content_fits count
  have empty : bufEmpty buf = true := by
    rw [inv.refines.empty_iff, left]
    exact List.drop_eq_nil_iff.mpr all
  refine ⟨({ peer with sendingBuffer := buf } : Peer).record
    [.sent (peer.sendingBuffer.content.take count)], ?_, rfl⟩
  rw [sendToPeer, if_neg waiting, drain, ok_bind]
  simp only [back, ok_bind, pure_ok, Peer.record, marked, empty, Bool.and_self, if_true]

inductive ToCgiCases (client : Peer) (executor : CgiExecutor) :
    WriteAnswer → ExitStatus × Peer → Prop
  | nothing {answer : WriteAnswer} (empty : executor.pending = []) :
      ToCgiCases client executor answer (.success, client)
  | accepted {cgiBuffer : Cbuf UInt8} (count : Nat) (inv : cgiBuffer.Inv)
      (left : cgiBuffer.content = executor.pending.drop count) :
      ToCgiCases client executor (.accepted count) (.success,
        ({ client with cgiExecutor := .live { executor with cgiBuffer } } : Peer).record
          [.cgiWritten (executor.pending.take count)])
  | failed {answer : WriteAnswer} {cgiBuffer : Cbuf UInt8} (inv : cgiBuffer.Inv)
      (refused : ∀ count, answer ≠ .accepted count) :
      ToCgiCases client executor answer (.failure,
        { client with cgiExecutor := .live { executor with cgiBuffer } })

theorem sendToCgiProcess_sent {client : Peer} {executor : CgiExecutor} (inv : executor.Inv)
    (live : client.cgiExecutor = .live executor) (answer : WriteAnswer) :
    ∃ result, sendToCgiProcess client answer = .ok result ∧
      ToCgiCases client executor answer result := by
  unfold sendToCgiProcess
  rw [live]
  simp only [Ptr.deref, ok_bind]
  cases buffer : executor.cgiBuffer with
  | none => exact ⟨_, rfl, .nothing (by rw [CgiExecutor.pending, buffer])⟩
  | some cgiBuf =>
      have bufInv := inv cgiBuf buffer
      have pending : executor.pending = cgiBuf.content := by rw [CgiExecutor.pending, buffer]
      by_cases empty : bufEmpty cgiBuf = true
      · simp only [if_pos empty]
        exact ⟨_, rfl, .nothing (pending.trans (bufInv.refines.empty_iff.mp empty))⟩
      · obtain ⟨drained, drain, refines⟩ := drain_content bufInv
        have fits := bufInv.content_fits
        rw [← pending] at drain refines fits
        simp only [if_neg empty, drain, ok_bind]
        cases answer with
        | accepted count =>
            obtain ⟨next, back, nextInv, left⟩ := putbackLoop_restores refines fits count
            simp only [back, ok_bind, pure_ok]
            exact ⟨_, rfl, .accepted count nextInv left⟩
        | wouldBlock => exact ⟨_, rfl, .failed refines.inv nofun⟩
        | error => exact ⟨_, rfl, .failed refines.inv nofun⟩

inductive FromCgiCases (client : Peer) (executor : CgiExecutor) :
    Option Bytes → ExitStatus × Peer → Prop
  | full {answer : Option Bytes} (noRoom : bufFull client.sendingBuffer = true) :
      FromCgiCases client executor answer (.success, client)
  | failed : FromCgiCases client executor none (.failure, client)
  | ended {task : HttpTask} (live : client.httpTask = .live task) :
      FromCgiCases client executor (some []) (.success,
        ({ client with
          httpTask := .live { task with state := .finished }
          cgiExecutor := .null } : Peer).record [.cgiEnded executor.req])
  | piped {bytes data : Bytes} {next : Peer}
      (taken : data = bytes.take (bufAvailable client.sendingBuffer))
      (puts : Puts (client.record [.cgiRead data]) (data.map (⟨·, executor.req⟩)) next) :
      FromCgiCases client executor (some bytes) (.success, next)

theorem pipeFromCgiProcessToClient_piped {client : Peer} {task : HttpTask}
    {executor : CgiExecutor} (sending : client.sendingBuffer.Inv)
    (live : client.httpTask = .live task) (child : client.cgiExecutor = .live executor)
    (answer : Option Bytes) :
    ∃ result, pipeFromCgiProcessToClient client answer = .ok result ∧
      FromCgiCases client executor answer result := by
  have req : executorReq client = executor.req := by rw [executorReq, child]
  unfold pipeFromCgiProcessToClient
  by_cases full : bufFull client.sendingBuffer = true
  · rw [if_pos full]
    exact ⟨_, rfl, .full full⟩
  · rw [if_neg full]
    match answer with
    | none => exact ⟨_, rfl, .failed⟩
    | some [] =>
        simp only [live, child, Ptr.deref, freeCgiExecutor, ok_bind, pure_ok, req]
        exact ⟨_, rfl, .ended live⟩
    | some (first :: more) =>
        simp only [req]
        refine ⟨_, rfl, .piped rfl (Puts.fold ?_ _ ?_)⟩
        · exact sending
        · have fits := sending.content_fits
          rw [List.length_map, List.length_take, sending.available_content]
          change client.sendingBuffer.content.length + _ ≤ _
          omega

inductive Receives (peer : Peer) : Peer → Prop
  | nothing : Receives peer peer
  | bytes {receivingBuffer : Cbuf UInt8} {data : Bytes} (inv : receivingBuffer.Inv)
      (content : receivingBuffer.content = peer.receivingBuffer.content ++ data) :
      Receives peer ({ peer with receivingBuffer }.record [.received data])

theorem Receives.httpTask {p q : Peer} (received : Receives p q) : q.httpTask = p.httpTask := by
  cases received <;> rfl

private theorem delivery_fits {peer : Peer} (receiving : peer.receivingBuffer.Inv)
    {bytes data : Bytes} (taken : bytes.take (bufAvailable peer.receivingBuffer) = data) :
    peer.receivingBuffer.content.length + data.length ≤ bufDataMaxsize := by
  have bound := receiving.content_fits
  rw [← taken, List.length_take, receiving.available_content]
  omega

theorem receiveFromPeer_receives {peer : Peer} (receiving : peer.receivingBuffer.Inv)
    (answer : RecvAnswer) : Receives peer (receiveFromPeer peer answer).2 := by
  cases answer with
  | wouldBlock =>
      rw [receiveFromPeer]
      split <;> exact .nothing
  | error => exact .nothing
  | shutdown => exact .nothing
  | bytes first more =>
      rw [receiveFromPeer]
      generalize taken : (first :: more).take (bufAvailable peer.receivingBuffer) = data
      cases data with
      | nil => exact .nothing
      | cons c rest =>
          have fits := delivery_fits receiving taken
          obtain ⟨next, wrote, inv, content⟩ := receiving.write_fits (c :: rest) fits
          simp only [wrote]
          split <;> exact .bytes inv content

/-- The pointers to the task and the executor keep pointing at the freed memory. -/
def closeClientConnection (client : Peer) : Except Fault Peer := do
  let httpTask ← destroyHttpTask client.httpTask
  let cgiExecutor ← freeCgiExecutor client.cgiExecutor
  return { client with
    socket := none
    closeConn := false
    sendingBuffer := bufReset client.sendingBuffer
    receivingBuffer := bufReset client.receivingBuffer
    httpTask
    cgiExecutor }.record (client.socket.toList.map .closed)

def Ptr.afterFree {α : Type} : Ptr α → Ptr α
  | .null => .null
  | .live _ | .freed => .freed

theorem Ptr.afterFree_ne_live {α : Type} (pointer : Ptr α) (target : α) :
    pointer.afterFree ≠ .live target := by
  cases pointer <;> simp [Ptr.afterFree]

def closedSlot (client : Peer) : Peer :=
  { client with
    socket := none
    closeConn := false
    sendingBuffer := bufReset client.sendingBuffer
    receivingBuffer := bufReset client.receivingBuffer
    httpTask := client.httpTask.afterFree
    cgiExecutor := client.cgiExecutor.afterFree }.record (client.socket.toList.map .closed)

theorem closeClientConnection_ok {client slot : Peer} :
    closeClientConnection client = .ok slot ↔
      client.httpTask ≠ .freed ∧ client.cgiExecutor ≠ .freed ∧ slot = closedSlot client := by
  unfold closeClientConnection closedSlot
  cases task : client.httpTask <;> cases child : client.cgiExecutor <;>
    simp [destroyHttpTask, freeCgiExecutor, Ptr.afterFree, bind, Except.bind, pure, Except.pure,
      eq_comm]

def acceptInto (slot : Peer) (newClientSock : Nat) (clientAddr : Address) (conn : Nat) : Peer :=
  { slot with
    socket := some newClientSock
    addres := clientAddr
    closeConn := false
    httpTask := .live createHttpTask
    conn
    trace := [.opened newClientSock] }

def delivered (peer : Peer) : RecvAnswer → Bytes
  | .bytes first more => (first :: more).take (bufAvailable peer.receivingBuffer)
  | .shutdown | .wouldBlock | .error => []

/-- What was delivered is appended, and the call fails only when `recv` does or the client has
shut down its side. -/
structure ReceivedWell (peer : Peer) (answer : RecvAnswer) : Prop where
  appended : (receiveFromPeer peer answer).2.receivingBuffer.content =
    peer.receivingBuffer.content ++ delivered peer answer
  failsOnly : (receiveFromPeer peer answer).1 = .failure → answer = .error ∨ answer = .shutdown

theorem receiveFromPeer_appended {peer : Peer} (receiving : peer.receivingBuffer.Inv)
    (answer : RecvAnswer) : (receiveFromPeer peer answer).2.receivingBuffer.content =
      peer.receivingBuffer.content ++ delivered peer answer := by
  cases answer with
  | wouldBlock =>
      rw [receiveFromPeer, delivered, List.append_nil]
      split <;> rfl
  | error => simp [receiveFromPeer, delivered]
  | shutdown => simp [receiveFromPeer, delivered]
  | bytes first more =>
      rw [receiveFromPeer, delivered]
      generalize taken : (first :: more).take (bufAvailable peer.receivingBuffer) = data
      cases data with
      | nil => exact (List.append_nil _).symm
      | cons c rest =>
          have fits := delivery_fits receiving taken
          obtain ⟨next, wrote, _, content⟩ := receiving.write_fits (c :: rest) fits
          simp only [wrote]
          split <;> exact content

theorem receiveFromPeer_fails {peer : Peer} (receiving : peer.receivingBuffer.Inv)
    (answer : RecvAnswer) : (receiveFromPeer peer answer).1 = .failure ↔
      answer = .error ∨ answer = .shutdown ∨ bufFull peer.receivingBuffer = true ∨
        (delivered peer answer).length = 1 := by
  cases answer with
  | wouldBlock =>
      by_cases full : bufFull peer.receivingBuffer = true
      · simp [receiveFromPeer, full]
      · simp [receiveFromPeer, full, delivered]
  | error => simp [receiveFromPeer]
  | shutdown => simp [receiveFromPeer]
  | bytes first more =>
      have full : bufFull peer.receivingBuffer = true ↔
          (first :: more).take (bufAvailable peer.receivingBuffer) = [] := by
        simp [bufFull]
      rw [receiveFromPeer, delivered, full]
      generalize taken : (first :: more).take (bufAvailable peer.receivingBuffer) = data
      cases data with
      | nil => simp
      | cons c rest =>
          have fits := delivery_fits receiving taken
          obtain ⟨next, wrote, _, _⟩ := receiving.write_fits (c :: rest) fits
          simp only [wrote]
          by_cases one : (((c :: rest).length : Nat) : Int) = 1
          · rw [if_pos one]
            simpa using one
          · rw [if_neg one]
            simpa using one

/-- Receiving goes well with room for at least one byte and any count but one. -/
theorem receivedWell_iff {peer : Peer} (receiving : peer.receivingBuffer.Inv)
    (answer : RecvAnswer) : ReceivedWell peer answer ↔
      answer = .error ∨ answer = .shutdown ∨
        peer.receivingBuffer.content.length < bufDataMaxsize ∧
          (delivered peer answer).length ≠ 1 := by
  have noRoom : bufFull peer.receivingBuffer = true ↔
      ¬ peer.receivingBuffer.content.length < bufDataMaxsize := by
    have bound := receiving.content_fits
    rw [receiving.full_content]
    omega
  have fails := receiveFromPeer_fails receiving answer
  rw [noRoom] at fails
  constructor
  · intro well
    by_contra other
    simp only [not_or, not_and_or, not_not] at other
    obtain ⟨noError, noShutdown, bad⟩ := other
    rcases well.failsOnly (fails.mpr (.inr (.inr bad))) with error | shutdown
    · exact noError error
    · exact noShutdown shutdown
  · intro holds
    refine ⟨receiveFromPeer_appended receiving answer, fun failed => ?_⟩
    rcases fails.mp failed with error | shutdown | full | one
    · exact .inl error
    · exact .inr shutdown
    · rcases holds with error | shutdown | ⟨room, _⟩
      · exact .inl error
      · exact .inr shutdown
      · exact absurd room full
    · rcases holds with error | shutdown | ⟨_, notOne⟩
      · exact .inl error
      · exact .inr shutdown
      · exact absurd one notOne

/-- A client that sends one byte. -/
theorem receivedWell_lone_byte :
    ¬ ReceivedWell (acceptInto createPeer 4 ⟨str "10.0.0.1", 4080⟩ 1) (.bytes 0x47 []) := by
  intro well
  have failed : (receiveFromPeer (acceptInto createPeer 4 ⟨str "10.0.0.1", 4080⟩ 1)
      (.bytes 0x47 [])).1 = .failure := by decide
  rcases well.failsOnly failed with error | shutdown
  · cases error
  · cases shutdown

theorem receivedWell_two_bytes :
    ReceivedWell (acceptInto createPeer 4 ⟨str "10.0.0.1", 4080⟩ 1) (.bytes 0x47 [0x45]) :=
  (receivedWell_iff (Cbuf.reset_inv _) _).mpr
    (.inr (.inr ⟨by decide, by decide⟩))

end Liso
