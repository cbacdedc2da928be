import Liso.Server.Order

/-! The event loop of server.c over its list of connections. -/

namespace Liso

/-- `accepted` counts the connections, `closes` the calls of `close_client_connection`; the program
keeps neither. -/
structure Server where
  httpSockFd : Nat
  request : Ptr RequestCell
  connectionList : List Peer
  accepted : Nat
  closes : Nat

def maxClients : Nat := 100

def initServer (httpSockFd : Nat) : Server where
  httpSockFd
  request := .null
  connectionList := List.replicate maxClients createPeer
  accepted := 0
  closes := 0

structure FdSets where
  read : List Nat
  write : List Nat
  except : List Nat

def clientFds (client : Peer) : Except Fault (List Nat × List Nat) :=
  match client.socket with
  | none => .ok ([], [])
  | some socket =>
      match client.cgiExecutor with
      | .null => .ok ([socket], [socket])
      | .freed => .error .freed
      | .live executor =>
          .ok ([socket, executor.stdoutPipe.readEnd], [socket, executor.stdinPipe.writeEnd])

def buildFdSets (listenSock : Nat) (connectionList : List Peer) : Except Fault FdSets := do
  let fds ← connectionList.mapM clientFds
  return ⟨listenSock :: fds.flatMap Prod.fst, fds.flatMap Prod.snd, [listenSock]⟩

/-- The highest descriptor; an executor counts whether the slot is in use or not. -/
def highSock (high : Nat) (connectionList : List Peer) : Except Fault Nat :=
  connectionList.foldlM (fun high client =>
    let high := max high (client.socket.getD 0)
    match client.cgiExecutor with
    | .null => .ok high
    | .freed => .error .freed
    | .live executor =>
        .ok (max executor.stdoutPipe.readEnd (max executor.stdinPipe.writeEnd high))) high

/-- What the system answers in one pass of the loop; the answers to the calls made for a
connection go by its place in the list. -/
structure Round where
  selects : Bool
  readable : Nat → Bool
  writable : Nat → Bool
  exceptional : Nat → Bool
  accept : Option (Nat × Address)
  toCgi : Nat → WriteAnswer
  fromCgi : Nat → Option Bytes
  recv : Nat → RecvAnswer
  send : Nat → WriteAnswer
  os : Nat → Os

def select (round : Round) (high : Nat) (sets : FdSets) : FdSets where
  read := sets.read.filter fun fd => fd ≤ high && round.readable fd
  write := sets.write.filter fun fd => fd ≤ high && round.writable fd
  except := sets.except.filter fun fd => fd ≤ high && round.exceptional fd

structure Served where
  request : Ptr RequestCell
  client : Peer
  closed : Bool

def hangUp (request : Ptr RequestCell) (client : Peer) : Except Fault Served :=
  match closeClientConnection client with
  | .error fault => .error fault
  | .ok client => .ok ⟨request, client, true⟩

/-- The child's output. The executor is looked up again, also after the connection was closed. -/
def servePipeOut (round : Round) (i : Nat) (fds : FdSets) (request : Ptr RequestCell)
    (client : Peer) : Except Fault Served :=
  match client.cgiExecutor.deref with
  | .error fault => .error fault
  | .ok executor =>
      if executor.stdoutPipe.readEnd ∈ fds.read then
        match pipeFromCgiProcessToClient client (round.fromCgi i) with
        | .error fault => .error fault
        | .ok (.failure, client) => hangUp request client
        | .ok (.success, client) => .ok ⟨request, client, false⟩
      else .ok ⟨request, client, false⟩

def servePipes (round : Round) (i : Nat) (fds : FdSets) (request : Ptr RequestCell)
    (client : Peer) : Except Fault Served :=
  match client.cgiExecutor with
  | .null => .ok ⟨request, client, false⟩
  | .freed => .error .freed
  | .live executor =>
      if executor.stdinPipe.writeEnd ∈ fds.write then
        match sendToCgiProcess client (round.toCgi i) with
        | .error fault => .error fault
        | .ok (.failure, client) =>
            match closeClientConnection client with
            | .error fault => .error fault
            | .ok client => servePipeOut round i fds request client
        | .ok (.success, client) => servePipeOut round i fds request client
      else servePipeOut round i fds request client

def serveRecv (round : Round) (i : Nat) (fds : FdSets) (socket : Nat) (client : Peer) :
    Option Bool × Peer :=
  if socket ∈ fds.read then
    match receiveFromPeer client (round.recv i) with
    | (.success, client) => (some true, client)
    | (.failure, client) => (none, client)
  else (some !bufEmpty client.receivingBuffer, client)

def serveSend (round : Round) (i : Nat) (fds : FdSets) (socket : Nat) (client : Peer) :
    Except Fault (Option Bool × Peer) :=
  if socket ∈ fds.write then
    match sendToPeer client (round.send i) with
    | .error fault => .error fault
    | .ok (.failure, client) => .ok (none, client)
    | .ok (.success, client) => .ok (some true, client)
    | .ok (.nothingToSend, client) => .ok (some false, client)
  else .ok (some false, client)

def serveHttp (cfg : Config) (os : Os) (request : Ptr RequestCell) (client : Peer) :
    Except Fault Served :=
  match handleHttp cfg os request client with
  | .error fault => .error fault
  | .ok (code, request, client) =>
      let s := afterCall code request client
      if s.closed then hangUp s.request s.peer else .ok ⟨s.request, s.peer, false⟩

def serveRest (cfg : Config) (round : Round) (i : Nat) (fds : FdSets) (socket : Nat)
    (request : Ptr RequestCell) (hasRead : Bool) (client : Peer) : Except Fault Served :=
  match serveSend round i fds socket client with
  | .error fault => .error fault
  | .ok (none, client) => hangUp request client
  | .ok (some hasSent, client) =>
      if socket ∈ fds.except then hangUp request client
      else if hasRead || hasSent then serveHttp cfg (round.os i) request client
      else .ok ⟨request, client, false⟩

def serveSocket (cfg : Config) (round : Round) (i : Nat) (fds : FdSets) (socket : Nat)
    (request : Ptr RequestCell) (client : Peer) : Except Fault Served :=
  match serveRecv round i fds socket client with
  | (none, client) => hangUp request client
  | (some hasRead, client) => serveRest cfg round i fds socket request hasRead client

/-- Nothing is done for a slot without a socket once its child was looked after. -/
def serveClient (cfg : Config) (round : Round) (i : Nat) (fds : FdSets)
    (request : Ptr RequestCell) (client : Peer) : Except Fault Served :=
  match servePipes round i fds request client with
  | .error fault => .error fault
  | .ok served =>
      match served.client.socket with
      | none => .ok served
      | some socket => serveSocket cfg round i fds socket served.request served.client

/-- The slots from place `i` on; the last number counts the connections closed. -/
def serveClients (cfg : Config) (round : Round) (fds : FdSets) : Nat → Ptr RequestCell → List Peer →
    Except Fault (Ptr RequestCell × List Peer × Nat)
  | _, request, [] => .ok (request, [], 0)
  | i, request, client :: rest =>
      match serveClient cfg round i fds request client with
      | .error fault => .error fault
      | .ok served =>
          match serveClients cfg round fds (i + 1) served.request rest with
          | .error fault => .error fault
          | .ok (request, rest, closes) =>
              .ok (request, served.client :: rest, served.closed.toNat + closes)

def storeConnection (accept : Peer → Peer) : List Peer → List Peer
  | [] => []
  | client :: rest =>
      if client.socket.isNone then accept client :: rest
      else client :: storeConnection accept rest

def handleNewConnection (answer : Option (Nat × Address)) (server : Server) : Server :=
  match answer with
  | none => server
  | some (newClientSock, clientAddr) =>
      { server with
        connectionList := storeConnection
          (fun slot => acceptInto slot newClientSock clientAddr server.accepted)
          server.connectionList
        accepted := server.accepted + 1 }

def serverStep (cfg : Config) (server : Server) (round : Round) : Except Fault Server := do
  let sets ← buildFdSets server.httpSockFd server.connectionList
  let high ← highSock server.httpSockFd server.connectionList
  if round.selects = false then .error .exit
  else
    let fds := select round high sets
    let server :=
      if server.httpSockFd ∈ fds.read then handleNewConnection round.accept server else server
    if 0 ∈ fds.except ∨ server.httpSockFd ∈ fds.except then .error .exit
    else
      let (request, connectionList, closes) ←
        serveClients cfg round fds 0 server.request server.connectionList
      return { server with request, connectionList, closes := server.closes + closes }

def serverRun (cfg : Config) (rounds : List Round) (server : Server) : Except Fault Server :=
  Run.run (serverStep cfg) rounds server

end Liso
