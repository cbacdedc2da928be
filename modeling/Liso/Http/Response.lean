import Liso.Message.Peer

/-! Response heads of http.c: how they are written to the response buffer, and
how the buffer is emptied into the sending buffer. -/

namespace Liso

def httpVersion : Bytes := str "HTTP/1.1"
def sp : Bytes := str " "
def colon : Bytes := str ":"
def serverName : Bytes := str "Liso/1.0"
def connection : Bytes := str "Connection"
def close : Bytes := str "Close"
def keepAlive : Bytes := str "Keep-alive"

def okNum : Int := 200
def badRequestNum : Int := 400
def notFoundNum : Int := 404
def lengthRequireNum : Int := 411
def internalServerErrorNum : Int := 500
def notImplementedNum : Int := 501
def httpVersionNotSupportedNum : Int := 505

def validResponseCode (responseCode : Int) : Bool :=
  responseCode = okNum || responseCode = notFoundNum || responseCode = badRequestNum ||
    responseCode = lengthRequireNum || responseCode = internalServerErrorNum ||
    responseCode = notImplementedNum || responseCode = httpVersionNotSupportedNum

namespace HttpTask

def write (task : HttpTask) (text : Bytes) : Int × HttpTask :=
  let (ret, buf) := bufWrite task.responseBuf (text.map fun c => ⟨c, task.requests⟩)
  (ret, { task with responseBuf := buf })

def writeAll (task : HttpTask) (text : Bytes) : Except Fault HttpTask :=
  match task.write text with
  | (ret, task) => if ret ≥ 0 then .ok task else .error .assertion

end HttpTask

/-- Only the last write is asserted. -/
def generateResponseStatusLine (task : HttpTask) (code reason : Bytes) :
    Except Fault HttpTask :=
  let (_, task) := task.write httpVersion
  let (_, task) := task.write sp
  let (_, task) := task.write code
  let (_, task) := task.write sp
  let (_, task) := task.write reason
  task.writeAll crlf

def generateResponseHeader (task : HttpTask) (hname hvalue : Bytes) : Except Fault HttpTask := do
  let task ← task.writeAll hname
  let task ← task.writeAll colon
  let task ← task.writeAll sp
  let task ← task.writeAll hvalue
  task.writeAll crlf

/-- The write is inside the assertion, and has to write something. -/
def generateResponseMsg (task : HttpTask) (msg : Bytes) : Except Fault HttpTask :=
  match task.write msg with
  | (ret, task) => if ret > 0 then .ok task else .error .assertion

def generateClosingResponse (task : HttpTask) (code reason : Bytes) :
    Except Fault (HttpState × HttpTask) := do
  let task ← generateResponseStatusLine task code reason
  let task ← generateResponseHeader task connection close
  let task ← generateResponseMsg task crlf
  return (.sendHeader, task)

def generateNonbodyResponse (task : HttpTask) (responseCode : Int) :
    Except Fault (HttpState × HttpTask) :=
  if validResponseCode responseCode = false then .error .assertion
  else if responseCode = okNum then do
    let task ← generateResponseStatusLine task (str "200") (str "OK")
    let task ← generateResponseHeader task (str "Server") serverName
    return (.sendHeader, task)
  else if responseCode = badRequestNum then
    generateClosingResponse task (str "400") (str "Bad Request")
  else if responseCode = notFoundNum then do
    let task ← generateResponseStatusLine task (str "404") (str "Not Found")
    let task ← generateResponseMsg task crlf
    return (.sendHeader, task)
  else if responseCode = lengthRequireNum then
    generateClosingResponse task (str "411") (str "Length Require")
  else if responseCode = internalServerErrorNum then
    generateClosingResponse task (str "500") (str "Internal Server Error")
  else if responseCode = notImplementedNum then
    generateClosingResponse task (str "501") (str "Not Implemented")
  else if responseCode = httpVersionNotSupportedNum then
    generateClosingResponse task (str "505") (str "HTTP Version not supported")
  else .ok (task.state, task)

/-- The loop of `send_nonbody_reponse`, one pass for each byte of the response buffer.
`some .sendHeader` is the return of SEND_HEADER_STATE, `none` that of EXIT_SUCCESS. -/
def sendNonbodyLoop : Nat → HttpTask → Peer → Option HttpState × HttpTask × Peer
  | 0, task, peer => (none, task, peer)
  | passes + 1, task, peer =>
      match bufGet task.responseBuf with
      | (none, responseBuf) => (none, { task with responseBuf }, peer)
      | (some data, responseBuf) =>
          if !bufFull peer.sendingBuffer then
            sendNonbodyLoop passes { task with responseBuf } (peer.put data)
          else (some .sendHeader, { task with responseBuf }, peer)

structure Written (task : HttpTask) (text : Bytes) (next : HttpTask) : Prop where
  inv : next.responseBuf.Inv
  content : next.responseBuf.content = task.responseBuf.content ++ text.map (⟨·, task.requests⟩)
  rest : next = { task with responseBuf := next.responseBuf }

namespace Written

variable {task middle next : HttpTask} {front back text : Bytes}

theorem requests (written : Written task text next) : next.requests = task.requests := by
  rw [written.rest]

theorem frame (written : Written task text next) :
    ∃ responseBuf, next = { task with responseBuf } := ⟨_, written.rest⟩

theorem trans (first : Written task front middle) (second : Written middle back next) :
    Written task (front ++ back) next where
  inv := second.inv
  content := by
    calc
      next.responseBuf.content =
          middle.responseBuf.content ++ back.map (⟨·, middle.requests⟩) := second.content
      _ = task.responseBuf.content ++ front.map (⟨·, task.requests⟩) ++
            back.map (⟨·, task.requests⟩) := by rw [first.content, first.requests]
      _ = task.responseBuf.content ++ (front ++ back).map (⟨·, task.requests⟩) := by
        rw [List.map_append, List.append_assoc]
  rest := by
    rw [second.rest, first.rest]

theorem length (written : Written task text next) :
    next.responseBuf.content.length = task.responseBuf.content.length + text.length := by
  rw [written.content, List.length_append, List.length_map]

theorem tags (written : Written task text next)
    (old : ∀ byte ∈ task.responseBuf.content, byte.req = task.requests) :
    ∀ byte ∈ next.responseBuf.content, byte.req = next.requests := by
  rw [written.content, written.requests]
  intro byte member
  rcases List.mem_append.mp member with before | after
  · exact old byte before
  · obtain ⟨c, _, rfl⟩ := List.mem_map.mp after
    rfl

end Written

structure HasRoom (task : HttpTask) (text : Bytes) : Prop where
  inv : task.responseBuf.Inv
  fits : task.responseBuf.content.length + text.length ≤ bufDataMaxsize

namespace HasRoom

variable {task middle next : HttpTask} {front back text : Bytes}

theorem left (room : HasRoom task (front ++ back)) : HasRoom task front where
  inv := room.inv
  fits := by
    have := room.fits
    rw [List.length_append] at this
    omega

theorem right (room : HasRoom task (front ++ back)) (written : Written task front middle) :
    HasRoom middle back where
  inv := written.inv
  fits := by
    have := room.fits
    rw [List.length_append] at this
    rw [written.length]
    omega

end HasRoom

namespace HttpTask

variable {task : HttpTask} {text : Bytes}

theorem write_written (room : HasRoom task text) :
    ∃ next, task.write text = ((text.length : Int), next) ∧ Written task text next := by
  obtain ⟨buf, wrote, inv, content⟩ := room.inv.write_fits
    (text.map fun c => (⟨c, task.requests⟩ : OutByte)) (by
      rw [List.length_map]
      exact room.fits)
  rw [List.length_map] at wrote
  exact ⟨{ task with responseBuf := buf }, by rw [HttpTask.write, wrote], inv, content, rfl⟩

theorem writeAll_written (room : HasRoom task text) :
    ∃ next, task.writeAll text = .ok next ∧ Written task text next := by
  obtain ⟨next, wrote, written⟩ := write_written room
  have counted : (text.length : Int) ≥ 0 := Int.natCast_nonneg _
  exact ⟨next, by simp only [writeAll, wrote, if_pos counted], written⟩

end HttpTask

def statusLine (code reason : Bytes) : Bytes := httpVersion ++ sp ++ code ++ sp ++ reason ++ crlf

def headerLine (hname hvalue : Bytes) : Bytes := hname ++ colon ++ sp ++ hvalue ++ crlf

theorem statusLine_length (code reason : Bytes) :
    (statusLine code reason).length = code.length + reason.length + 12 := by
  simp only [statusLine, List.length_append, show httpVersion.length = 8 from rfl,
    show sp.length = 1 from rfl, show crlf.length = 2 from rfl]
  omega

theorem headerLine_length (hname hvalue : Bytes) :
    (headerLine hname hvalue).length = hname.length + hvalue.length + 4 := by
  simp only [headerLine, List.length_append, show colon.length = 1 from rfl,
    show sp.length = 1 from rfl, show crlf.length = 2 from rfl]
  omega

theorem generateResponseStatusLine_written {task : HttpTask} {code reason : Bytes}
    (room : HasRoom task (statusLine code reason)) :
    ∃ next, generateResponseStatusLine task code reason = .ok next ∧
      Written task (statusLine code reason) next := by
  obtain ⟨first, wroteVersion, version⟩ := HttpTask.write_written room.left.left.left.left.left
  obtain ⟨second, wroteSp, space⟩ :=
    HttpTask.write_written (room.left.left.left.left.right version)
  obtain ⟨third, wroteCode, number⟩ :=
    HttpTask.write_written (room.left.left.left.right (version.trans space))
  obtain ⟨fourth, wroteGap, gap⟩ :=
    HttpTask.write_written (room.left.left.right ((version.trans space).trans number))
  obtain ⟨fifth, wroteReason, phrase⟩ :=
    HttpTask.write_written (room.left.right (((version.trans space).trans number).trans gap))
  have line := (((version.trans space).trans number).trans gap).trans phrase
  obtain ⟨next, wroteEnd, ended⟩ := HttpTask.writeAll_written (room.right line)
  refine ⟨next, ?_, line.trans ended⟩
  simp only [generateResponseStatusLine, wroteVersion, wroteSp, wroteCode, wroteGap, wroteReason,
    wroteEnd]

theorem generateResponseHeader_written {task : HttpTask} {hname hvalue : Bytes}
    (room : HasRoom task (headerLine hname hvalue)) :
    ∃ next, generateResponseHeader task hname hvalue = .ok next ∧
      Written task (headerLine hname hvalue) next := by
  obtain ⟨first, wroteName, name⟩ := HttpTask.writeAll_written room.left.left.left.left
  obtain ⟨second, wroteColon, mark⟩ :=
    HttpTask.writeAll_written (room.left.left.left.right name)
  obtain ⟨third, wroteSp, space⟩ :=
    HttpTask.writeAll_written (room.left.left.right (name.trans mark))
  obtain ⟨fourth, wroteValue, value⟩ :=
    HttpTask.writeAll_written (room.left.right ((name.trans mark).trans space))
  have line := ((name.trans mark).trans space).trans value
  obtain ⟨next, wroteEnd, ended⟩ := HttpTask.writeAll_written (room.right line)
  refine ⟨next, ?_, line.trans ended⟩
  simp only [generateResponseHeader, wroteName, wroteColon, wroteSp, wroteValue, ok_bind,
    wroteEnd]

theorem generateResponseMsg_written {task : HttpTask} {msg : Bytes} (room : HasRoom task msg)
    (some : msg ≠ []) :
    ∃ next, generateResponseMsg task msg = .ok next ∧ Written task msg next := by
  obtain ⟨next, wrote, written⟩ := HttpTask.write_written room
  have counted : (msg.length : Int) > 0 := Int.natCast_pos.mpr (List.length_pos_iff.mpr some)
  exact ⟨next, by simp only [generateResponseMsg, wrote, if_pos counted], written⟩

def closingHead (code reason : Bytes) : Bytes :=
  statusLine code reason ++ headerLine connection close ++ crlf

def nonbodyHead (responseCode : Int) : Bytes :=
  if responseCode = okNum then
    statusLine (str "200") (str "OK") ++ headerLine (str "Server") serverName
  else if responseCode = badRequestNum then closingHead (str "400") (str "Bad Request")
  else if responseCode = notFoundNum then statusLine (str "404") (str "Not Found") ++ crlf
  else if responseCode = lengthRequireNum then closingHead (str "411") (str "Length Require")
  else if responseCode = internalServerErrorNum then
    closingHead (str "500") (str "Internal Server Error")
  else if responseCode = notImplementedNum then closingHead (str "501") (str "Not Implemented")
  else closingHead (str "505") (str "HTTP Version not supported")

theorem nonbodyHead_length (responseCode : Int) : (nonbodyHead responseCode).length ≤ 100 := by
  simp only [nonbodyHead]
  split_ifs <;> decide

private theorem generateClosingResponse_written {task : HttpTask} {code reason : Bytes}
    (room : HasRoom task (closingHead code reason)) :
    ∃ next, generateClosingResponse task code reason = .ok (.sendHeader, next) ∧
      Written task (closingHead code reason) next := by
  obtain ⟨first, wroteLine, line⟩ := generateResponseStatusLine_written room.left.left
  obtain ⟨second, wroteHeader, header⟩ := generateResponseHeader_written (room.left.right line)
  obtain ⟨next, wroteEnd, ended⟩ :=
    generateResponseMsg_written (room.right (line.trans header)) (by decide)
  refine ⟨next, ?_, (line.trans header).trans ended⟩
  simp only [generateClosingResponse, wroteLine, wroteHeader, wroteEnd, ok_bind, pure_ok]

theorem validResponseCode_cases {responseCode : Int}
    (valid : validResponseCode responseCode = true) :
    responseCode = okNum ∨ responseCode = notFoundNum ∨ responseCode = badRequestNum ∨
      responseCode = lengthRequireNum ∨ responseCode = internalServerErrorNum ∨
      responseCode = notImplementedNum ∨ responseCode = httpVersionNotSupportedNum := by
  simpa only [validResponseCode, Bool.or_eq_true, decide_eq_true_eq, or_assoc] using valid

theorem generateNonbodyResponse_written {task : HttpTask} {responseCode : Int}
    (valid : validResponseCode responseCode = true)
    (room : HasRoom task (nonbodyHead responseCode)) :
    ∃ next, generateNonbodyResponse task responseCode = .ok (.sendHeader, next) ∧
      Written task (nonbodyHead responseCode) next := by
  rcases validResponseCode_cases valid with rfl | rfl | rfl | rfl | rfl | rfl | rfl
  · change HasRoom task (statusLine _ _ ++ headerLine _ _) at room
    obtain ⟨first, wroteLine, line⟩ := generateResponseStatusLine_written room.left
    obtain ⟨next, wroteHeader, header⟩ := generateResponseHeader_written (room.right line)
    refine ⟨next, ?_, line.trans header⟩
    change (do
      let task ← generateResponseStatusLine task (str "200") (str "OK")
      let task ← generateResponseHeader task (str "Server") serverName
      return (HttpState.sendHeader, task)) = _
    rw [wroteLine, ok_bind, wroteHeader, ok_bind, pure_ok]
  · change HasRoom task (statusLine _ _ ++ crlf) at room
    obtain ⟨first, wroteLine, line⟩ := generateResponseStatusLine_written room.left
    obtain ⟨next, wroteEnd, ended⟩ := generateResponseMsg_written (room.right line) (by decide)
    refine ⟨next, ?_, line.trans ended⟩
    change (do
      let task ← generateResponseStatusLine task (str "404") (str "Not Found")
      let task ← generateResponseMsg task crlf
      return (HttpState.sendHeader, task)) = _
    rw [wroteLine, ok_bind, wroteEnd, ok_bind, pure_ok]
  all_goals exact generateClosingResponse_written room

/-- What `send_nonbody_reponse` makes of the response buffer: all of it is put on the sending
buffer, or what fits, and then one byte is taken that is put nowhere. -/
inductive HeadSent (task : HttpTask) (peer : Peer) : Option HttpState × HttpTask × Peer → Prop
  | whole {responseBuf : Cbuf OutByte} {next : Peer} (inv : responseBuf.Inv)
      (empty : responseBuf.content = []) (puts : Puts peer task.responseBuf.content next) :
      HeadSent task peer (none, { task with responseBuf }, next)
  | cut {responseBuf : Cbuf OutByte} {next : Peer} {front rest : List OutByte} {byte : OutByte}
      (inv : responseBuf.Inv) (left : responseBuf.content = rest)
      (shape : task.responseBuf.content = front ++ byte :: rest) (puts : Puts peer front next)
      (full : next.sendingBuffer.content.length = bufDataMaxsize) :
      HeadSent task peer (some .sendHeader, { task with responseBuf }, next)

private theorem HeadSent.cons {task : HttpTask} {responseBuf : Cbuf OutByte} {peer next : Peer}
    {byte : OutByte} {result : Option HttpState × HttpTask × Peer}
    (shape : task.responseBuf.content = byte :: responseBuf.content)
    (put : Puts peer [byte] next) (later : HeadSent { task with responseBuf } next result) :
    HeadSent task peer result := by
  cases later with
  | whole inv empty puts =>
      refine .whole inv empty ?_
      rw [shape]
      exact put.trans puts
  | @cut _ _ front rest lost inv left split puts full =>
      have whole : task.responseBuf.content = [byte] ++ front ++ lost :: rest :=
        shape.trans (congrArg (byte :: ·) split)
      exact .cut inv left whole (put.trans puts) full

private theorem sendNonbodyLoop_sent {passes : Nat} {task : HttpTask} {peer : Peer}
    (response : task.responseBuf.Inv) (sending : peer.sendingBuffer.Inv)
    (length : task.responseBuf.content.length = passes) :
    HeadSent task peer (sendNonbodyLoop passes task peer) := by
  induction passes generalizing task peer with
  | zero =>
      have empty : task.responseBuf.content = [] := List.eq_nil_of_length_eq_zero length
      refine .whole response empty ?_
      rw [empty]
      exact Puts.refl sending
  | succ passes ih =>
      obtain ⟨byte, rest, shape⟩ := List.exists_cons_of_length_eq_add_one length
      obtain ⟨responseBuf, got, inv, left⟩ := response.get_cons shape
      simp only [sendNonbodyLoop, got]
      by_cases full : bufFull peer.sendingBuffer = true
      · rw [if_neg (by simp [full])]
        have split : task.responseBuf.content = [] ++ byte :: rest := shape
        exact .cut inv left split (Puts.refl sending) (sending.full_content.mp full)
      · rw [if_pos (by simp [full])]
        have room : peer.sendingBuffer.content.length < bufDataMaxsize := by
          have fits := sending.content_fits
          have notAll := mt sending.full_content.mpr full
          omega
        have put := Puts.one sending room byte
        refine HeadSent.cons (by rw [shape, left]) put (ih inv put.inv ?_)
        rw [shape, List.length_cons] at length
        rw [left]
        omega

def sendNonbodyReponse (task : HttpTask) (peer : Peer) : Option HttpState × HttpTask × Peer :=
  sendNonbodyLoop task.responseBuf.numByte task peer

theorem HeadSent.left {task : HttpTask} {peer : Peer}
    {result : Option HttpState × HttpTask × Peer} (sent : HeadSent task peer result) :
    ∃ responseBuf : Cbuf OutByte, result.2.1 = { task with responseBuf } ∧ responseBuf.Inv ∧
      ∀ byte ∈ responseBuf.content, byte ∈ task.responseBuf.content := by
  cases sent with
  | whole inv empty puts =>
      refine ⟨_, rfl, inv, ?_⟩
      rw [empty]
      exact nofun
  | cut inv left shape puts full =>
      refine ⟨_, rfl, inv, fun byte member => ?_⟩
      rw [shape, ← left]
      exact List.mem_append_right _ (List.mem_cons_of_mem _ member)

theorem HeadSent.puts {task : HttpTask} {peer : Peer}
    {result : Option HttpState × HttpTask × Peer} (sent : HeadSent task peer result) :
    ∃ front, Puts peer front result.2.2 ∧ front <+: task.responseBuf.content := by
  cases sent with
  | whole inv empty puts => exact ⟨_, puts, List.prefix_refl _⟩
  | cut inv left shape puts full => exact ⟨_, puts, _, shape.symm⟩

theorem sendNonbodyReponse_sent {task : HttpTask} {peer : Peer} (response : task.responseBuf.Inv)
    (sending : peer.sendingBuffer.Inv) : HeadSent task peer (sendNonbodyReponse task peer) :=
  sendNonbodyLoop_sent response sending task.responseBuf.content_length

end Liso
