import Liso.Common
import Liso.Message.Cbuf
import Liso.Parser.Grammar

/-! The records of message.h: `http_task_t`, `CGI_executor` and `peer_t`, with
the functions that create, reset and destroy them. -/

namespace Liso

/-- A pointer: NULL, to an object of its own, or to memory already freed. One that is
never left dangling is an `Option`. -/
inductive Ptr (α : Type)
  | null
  | live (value : α)
  | freed
  deriving DecidableEq

def Ptr.deref {α : Type} : Ptr α → Except Fault α
  | .null => .error .nullPointer
  | .live value => .ok value
  | .freed => .error .freed

structure Block where
  size : Nat
  data : Nat → UInt8

namespace Block

def malloc (size : Nat) : Block := ⟨size, fun _ => 0⟩

def read (b : Block) (count : Nat) : Bytes := (List.range count).map b.data

def write (b : Block) (index : Nat) (value : UInt8) : Block :=
  { b with data := RingBuffer.store b.data index value }

theorem read_write (b : Block) (index : Nat) (value : UInt8) :
    (b.write index value).read (index + 1) = b.read index ++ [value] := by
  simp only [read, write, List.range_succ, List.map_append, List.map_singleton,
    RingBuffer.store_same]
  congr 1
  refine List.map_congr_left fun i member => ?_
  have before : i < index := List.mem_range.mp member
  exact RingBuffer.store_other _ _ _ _ (by omega)

@[simp] theorem read_length (b : Block) (count : Nat) : (b.read count).length = count := by
  simp [read]

@[simp] theorem read_zero (b : Block) : b.read 0 = [] := rfl

@[simp] theorem write_size (b : Block) (index : Nat) (value : UInt8) :
    (b.write index value).size = b.size := rfl

end Block

/-- A byte on its way to the client, with the ordinal of the request that caused it.
The program keeps only `val`. -/
structure OutByte where
  val : UInt8
  req : Nat
  deriving DecidableEq

/-- A `FILE` open for reading: what is left, and whether reading on from there fails.
The request `req` it was opened for is not in the program. -/
structure File where
  fd : Nat
  rest : Bytes
  fails : Bool
  req : Nat
  deriving DecidableEq

/-- What `handle_http` tells its caller. -/
inductive Code
  | closeConn
  | closeConnImmediately
  | keepConn
  deriving DecidableEq

/-- What a run does that its final state does not show. The program keeps no such record. -/
inductive Event
  /-- Bytes added to the receiving buffer. -/
  | received (bytes : Bytes)
  /-- `parse` is handed a header block. -/
  | parsed (req : Nat) (block : Bytes)
  /-- A request is complete: its header block, and the body if it has one. -/
  | framed (block : Bytes) (body : Option Bytes)
  | requestFreed
  /-- `buf_put` on the sending buffer, and one that found it full. -/
  | put (byte : OutByte)
  | lost (byte : OutByte)
  /-- The bytes `send` accepted. -/
  | sent (bytes : List OutByte)
  /-- `buf_write` on the buffer of a CGI child, what `write` accepted of it, and
  what `read` got back from the child. -/
  | cgiBuffered (bytes : Bytes)
  | cgiWritten (bytes : Bytes)
  | cgiRead (bytes : Bytes)
  /-- The child started for request `req` has ended its output. -/
  | cgiEnded (req : Nat)
  | opened (fd : Nat)
  | closed (fd : Nat)
  | returned (code : Code)
  deriving DecidableEq

inductive HttpState
  | recvHeader
  | recvBody
  | generateHeader
  | sendHeader
  | sendBody
  | finished
  | checkCgi
  | processingCgi
  deriving DecidableEq

inductive MethodType
  | noMethod
  | get
  | head
  | post
  deriving DecidableEq

/-- `requests` counts the requests parsed so far; the program does not keep it. -/
structure HttpTask where
  state : HttpState
  parseBuf : Block
  parseBufIdx : Nat
  headerTermTokenStatus : Nat
  responseBuf : Cbuf OutByte
  methodType : MethodType
  lastRequest : Bool
  responseCode : Int
  bodyBytesNum : Nat
  postBody : Option Block
  postBodyIdx : Nat
  fp : Ptr File
  requests : Nat

def resetHttpTask (task : HttpTask) : HttpTask :=
  { task with
    state := .recvHeader
    parseBufIdx := 0
    headerTermTokenStatus := 0
    methodType := .noMethod
    lastRequest := false
    responseCode := -1
    responseBuf := bufReset task.responseBuf
    bodyBytesNum := 0
    postBody := none
    postBodyIdx := 0 }

def cbufMemory {α : Type} (cell : α) : Cbuf α := ⟨fun _ => cell, 0, 0, 0, 0⟩

/-- `malloc` leaves the fields that `reset_http_task` does not set indeterminate. -/
def createHttpTask : HttpTask :=
  resetHttpTask {
    state := .recvHeader
    parseBuf := .malloc bufDataMaxsize
    parseBufIdx := 0
    headerTermTokenStatus := 0
    responseBuf := cbufMemory ⟨0, 0⟩
    methodType := .noMethod
    lastRequest := false
    responseCode := 0
    bodyBytesNum := 0
    postBody := none
    postBodyIdx := 0
    fp := .null
    requests := 0 }

/-- The caller's pointer stays as it was: it now points to freed memory. -/
def destroyHttpTask : Ptr HttpTask → Except Fault (Ptr HttpTask)
  | .null => .ok .null
  | .live _ => .ok .freed
  | .freed => .error .freed

structure CgiParam where
  filename : Bytes
  args : List Bytes
  envp : List Bytes
  deriving DecidableEq

structure Pipe where
  readEnd : Nat
  writeEnd : Nat
  deriving DecidableEq

/-- `req` is the request that the child answers, `failure` what it has written if its `execve`
failed; the program keeps neither. -/
structure CgiExecutor where
  stdinPipe : Pipe
  stdoutPipe : Pipe
  cgiBuffer : Option (Cbuf UInt8)
  cgiParameter : Option CgiParam
  req : Nat
  failure : Option Bytes

namespace CgiExecutor

def pending (executor : CgiExecutor) : Bytes :=
  match executor.cgiBuffer with
  | none => []
  | some buffer => buffer.content

def Inv (executor : CgiExecutor) : Prop := ∀ buffer, executor.cgiBuffer = some buffer → buffer.Inv

end CgiExecutor

def initCgiExecutor (req : Nat) (failure : Option Bytes) : CgiExecutor :=
  { stdinPipe := ⟨0, 0⟩, stdoutPipe := ⟨0, 0⟩, cgiBuffer := none, cgiParameter := none, req, failure }

/-- Buffer, parameters and the executor itself are freed; the pipes stay open. -/
def freeCgiExecutor : Ptr CgiExecutor → Except Fault (Ptr CgiExecutor)
  | .null => .ok .null
  | .live _ => .ok .freed
  | .freed => .error .freed

structure Address where
  host : Bytes
  port : Nat
  deriving DecidableEq

/-- `socket` is `none` for `NO_SOCKET`. The connection number `conn` and the `trace` are
not in the program. -/
structure Peer where
  socket : Option Nat
  addres : Address
  httpTask : Ptr HttpTask
  cgiExecutor : Ptr CgiExecutor
  sendingBuffer : Cbuf OutByte
  receivingBuffer : Cbuf UInt8
  closeConn : Bool
  conn : Nat
  trace : List Event

namespace Peer

def record (p : Peer) (events : List Event) : Peer := { p with trace := p.trace ++ events }

def put (p : Peer) (byte : OutByte) : Peer :=
  match bufPut p.sendingBuffer byte with
  | (.success, buf) => { p with sendingBuffer := buf }.record [.put byte]
  | (.failure, buf) => { p with sendingBuffer := buf }.record [.lost byte]

end Peer

structure Puts (p : Peer) (bytes : List OutByte) (q : Peer) : Prop where
  inv : q.sendingBuffer.Inv
  content : q.sendingBuffer.content = p.sendingBuffer.content ++ bytes
  rest : q = { p with sendingBuffer := q.sendingBuffer, trace := p.trace ++ bytes.map .put }

namespace Puts

theorem refl {p : Peer} (inv : p.sendingBuffer.Inv) : Puts p [] p where
  inv := inv
  content := (List.append_nil _).symm
  rest := by simp

theorem trans {p q r : Peer} {front back : List OutByte} (first : Puts p front q)
    (second : Puts q back r) : Puts p (front ++ back) r where
  inv := second.inv
  content := by rw [second.content, first.content, List.append_assoc]
  rest := by
    rw [second.rest, first.rest]
    simp

theorem frame {p q : Peer} {bytes : List OutByte} (puts : Puts p bytes q) :
    ∃ sendingBuffer, q = { p with sendingBuffer, trace := p.trace ++ bytes.map .put } :=
  ⟨_, puts.rest⟩

theorem one {p : Peer} (inv : p.sendingBuffer.Inv)
    (room : p.sendingBuffer.content.length < bufDataMaxsize) (byte : OutByte) :
    Puts p [byte] (p.put byte) := by
  obtain ⟨next, put, nextInv, content⟩ := inv.put room byte
  rw [Peer.put, put]
  exact ⟨nextInv, content, rfl⟩

theorem fold {p : Peer} (inv : p.sendingBuffer.Inv) (bytes : List OutByte)
    (fits : p.sendingBuffer.content.length + bytes.length ≤ bufDataMaxsize) :
    Puts p bytes (bytes.foldl Peer.put p) := by
  induction bytes generalizing p with
  | nil => exact refl inv
  | cons byte bytes ih =>
      simp only [List.length_cons] at fits
      have first := one inv (by omega) byte
      refine first.trans (ih first.inv ?_)
      rw [first.content, List.length_append, List.length_singleton]
      omega

end Puts

def createPeer : Peer where
  socket := none
  addres := ⟨[], 0⟩
  httpTask := .null
  cgiExecutor := .null
  sendingBuffer := bufReset (cbufMemory ⟨0, 0⟩)
  receivingBuffer := bufReset (cbufMemory 0)
  closeConn := false
  conn := 0
  trace := []

end Liso
