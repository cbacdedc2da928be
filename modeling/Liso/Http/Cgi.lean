import Liso.Http.Static

/-! Dynamic content: the environment of a CGI child, and its start. -/

namespace Liso

def setEnvpFieldByStr (envpName value : Bytes) : Except Fault Bytes :=
  strcpy .envpInfo 1024 (envpName ++ str "=" ++ value)

def setEnvpFieldWithHeader (request : Request) (header envpName : Bytes) : Except Fault Bytes :=
  setEnvpFieldByStr envpName (getHeaderValue request header)

def envpHeaders : List (Bytes × Bytes) :=
  [(str "Content-Length", str "CONTENT_LENGTH"),
   (str "Content-Type", str "CONTENT_TYPE"),
   (str "Accept", str "HTTP_ACCEPT"),
   (str "Referer", str "HTTP_REFERER"),
   (str "Accept-Encoding", str "HTTP_ACCEPT_ENCODING"),
   (str "Accept-Language", str "HTTP_ACCEPT_LANGUAGE"),
   (str "Accept-Charset", str "HTTP_ACCEPT_CHARSET"),
   (str "Cookie", str "HTTP_COOKIE"),
   (str "User-Agent", str "HTTP_USER_AGENT"),
   (str "Host", str "HTTP_HOST"),
   (str "Connection", str "HTTP_CONNECTION")]

def envpUriFields (uri : Bytes) : Except Fault (List Bytes) :=
  if uri.contains 0x3f then do
    let split := uri.idxOf 0x3f
    let queryString ← strcpy .queryString 512 (uri.drop (split + 1))
    let query ← setEnvpFieldByStr (str "QUERY_STRING") queryString
    let pathInfo ← strcpy .pathInfo 512 ((uri.take split).drop 4)
    let path ← setEnvpFieldByStr (str "PATH_INFO") pathInfo
    return [query, path]
  else do
    let query ← setEnvpFieldByStr (str "QUERY_STRING") []
    let pathInfo ← strcpy .pathInfo 512 (uri.drop 4)
    let path ← setEnvpFieldByStr (str "PATH_INFO") pathInfo
    return [query, path]

def buildCgiParam (cgiScripts : Bytes) (request : Request) (hap : Address) :
    Except Fault CgiParam := do
  let fixed ← [(str "GATEWAY_INTERFACE", str "CGI/1.1"), (str "SERVER_SOFTWARE", str "Liso/1.0"),
    (str "SERVER_PROTOCOL", str "HTTP/1.1"), (str "REQUEST_METHOD", request.httpMethod),
    (str "REQUEST_URI", request.httpUri), (str "SCRIPT_NAME", str "/cgi")].mapM
      fun (name, value) => setEnvpFieldByStr name value
  let uriFields ← envpUriFields request.httpUri
  let headers ← envpHeaders.mapM fun (header, name) => setEnvpFieldWithHeader request header name
  let remote ← setEnvpFieldByStr (str "REMOTE_ADDR") hap.host
  let port ← setEnvpFieldByStr (str "SERVER_PORT") (str (toString hap.port))
  return {
    filename := cgiScripts
    args := [cgiScripts]
    envp := fixed ++ uriFields ++ headers ++ [remote, port] }

def cgiBufferOf (postBody : Bytes) : Option (Cbuf UInt8) × Bytes :=
  if postBody.length > 0 then
    match bufWrite (bufReset (cbufMemory 0)) postBody with
    | (ret, buffer) => (some buffer, if ret ≥ 0 then postBody else [])
  else (none, [])

theorem cgiBufferOf_pending (postBody : Bytes) (executor : CgiExecutor)
    (buffer : executor.cgiBuffer = (cgiBufferOf postBody).1) :
    executor.Inv ∧ executor.pending = (cgiBufferOf postBody).2 := by
  rw [CgiExecutor.Inv, CgiExecutor.pending, buffer, cgiBufferOf]
  split_ifs with some
  · have inv := Cbuf.reset_inv (cbufMemory (0 : UInt8))
    by_cases fits : postBody.length ≤ bufDataMaxsize
    · obtain ⟨next, wrote, nextInv, content⟩ := inv.write_fits postBody (by simpa using fits)
      have counted : (postBody.length : Int) ≥ 0 := Int.natCast_nonneg _
      simp only [wrote, if_pos counted]
      refine ⟨?_, by simpa using content⟩
      rintro _ ⟨⟩
      exact nextInv
    · have excess := inv.write_over postBody (by simpa using fits)
      have failed : ¬ (-1 : Int) ≥ 0 := by decide
      simp only [excess, if_neg failed]
      refine ⟨?_, rfl⟩
      rintro _ ⟨⟩
      exact inv
  · exact ⟨nofun, rfl⟩

def pipeEvents (stdinPipe stdoutPipe : Pipe) : List Event :=
  [.opened stdinPipe.readEnd, .opened stdinPipe.writeEnd,
   .opened stdoutPipe.readEnd, .opened stdoutPipe.writeEnd,
   .closed stdoutPipe.writeEnd, .closed stdinPipe.readEnd]

/-- The log goes to the standard output, which in the child is the pipe to the server. -/
def cgiLog (text : Bytes) : Bytes := str "[CGI_LOG]: " ++ text ++ str "\n"

/-- The texts are those of the source, with its slips. -/
def execveErrorHandler : Errno → Bytes
  | .e2big =>
      str "The total number of bytes in the environment (envp) and argument list (argv) is " ++
        str "too large."
  | .eacces => str "Execute permission is denied for the file or a script or ELF interpreter."
  | .efault => str "ilename points outside your accessible address space."
  | .einval =>
      str "iAn ELF executable had more than one PT_INTERP segment (i.e., tried to name more " ++
        str "than one interpreter)."
  | .eio => str "An I/O error occurred."
  | .eisdir => str "An ELF interpreter was a directory."
  | .eloop =>
      str "Too many symbolic links were encountered in resolving filename or the name of a " ++
        str "script or ELF interpreter."
  | .emfile => str "The process has the maximum number of files open."
  | .enametoolong => str "filename is too long."
  | .enfile => str "The system limit on the total number of open files has been reached."
  | .enoent =>
      str "The file filename or a script or ELF interpreter does not exist, or a shared " ++
        str "library needed for file or interpreter cannot be found."
  | .enoexec =>
      str "An executable is not in a recognised format, is for the wrong architecture, or has " ++
        str "some other format error that means it cannot be executed."
  | .enomem => str "Insufficient kernel memory was available."
  | .enotdir =>
      str "A component of the path prefix of filename or a script or ELF interpreter is not a " ++
        str "directory."
  | .eperm =>
      str "The file system is mounted nosuid, the user is not the superuser, and the file has " ++
        str "an SUID or SGID bit set."
  | .etxtbsy => str "Executable was open for writing by one or more processes."
  | .other => str "Unkown error occurred with execve()."

/-- What the child writes before its assertion fails when it cannot execute the script. -/
def execveFailure (client : Peer) (errno : Errno) : Bytes :=
  let socket : Int := client.socket.elim (-1) (↑)
  cgiLog (execveErrorHandler errno) ++
    cgiLog (str "[Fatal] Error executing CGI script for cliend " ++ str (toString socket))

/-- The parent's side; an empty `postBody` is a NULL one of length 0. -/
def startCgiScript (os : Os) (client : Peer) (req : Nat) (cgiParameter : CgiParam)
    (postBody : Bytes) : Except Fault Peer :=
  match client.cgiExecutor with
  | .null =>
      match os.stdinPipe, os.stdoutPipe with
      | some stdinPipe, some stdoutPipe =>
          if os.fork then
            let (cgiBuffer, buffered) := cgiBufferOf postBody
            let failure := os.execve.map (execveFailure client)
            let executor := { initCgiExecutor req failure with
              cgiParameter := some cgiParameter
              cgiBuffer
              stdinPipe
              stdoutPipe }
            .ok ({ client with cgiExecutor := .live executor }.record
              (.cgiBuffered buffered :: pipeEvents stdinPipe stdoutPipe))
          else .error .assertion
      | _, _ => .error .assertion
  | _ => .error .assertion

structure CgiStarted (client : Peer) (req : Nat) (next : Peer) : Prop where
  vacant : client.cgiExecutor = .null
  started : ∃ executor : CgiExecutor, executor.req = req ∧ executor.Inv ∧
    next = { client with cgiExecutor := .live executor }.record
      (.cgiBuffered executor.pending :: pipeEvents executor.stdinPipe executor.stdoutPipe)
  failure : ∀ executor text, next.cgiExecutor = .live executor → executor.failure = some text →
    ∃ errno, text = execveFailure client errno

theorem startCgiScript_executor {os : Os} {client next : Peer} {req : Nat}
    {cgiParameter : CgiParam} {postBody : Bytes}
    (started : startCgiScript os client req cgiParameter postBody = .ok next) :
    client.cgiExecutor = .null ∧ ∃ executor : CgiExecutor, executor.req = req ∧ executor.Inv ∧
      executor.pending = (cgiBufferOf postBody).2 ∧
      executor.failure = os.execve.map (execveFailure client) ∧
      next = { client with cgiExecutor := .live executor }.record
        (.cgiBuffered executor.pending :: pipeEvents executor.stdinPipe executor.stdoutPipe) := by
  unfold startCgiScript at started
  cases vacant : client.cgiExecutor with
  | live executor => simp only [vacant] at started; cases started
  | freed => simp only [vacant] at started; cases started
  | null =>
      simp only [vacant] at started
      cases stdin : os.stdinPipe with
      | none => simp only [stdin] at started; cases started
      | some stdinPipe =>
        cases stdout : os.stdoutPipe with
        | none => simp only [stdin, stdout] at started; cases started
        | some stdoutPipe =>
            simp only [stdin, stdout] at started
            split at started
            · cases started
              let failure := os.execve.map (execveFailure client)
              let executor : CgiExecutor := { initCgiExecutor req failure with
                cgiParameter := some cgiParameter
                cgiBuffer := (cgiBufferOf postBody).1
                stdinPipe
                stdoutPipe }
              obtain ⟨inv, pending⟩ := cgiBufferOf_pending postBody executor rfl
              exact ⟨rfl, executor, rfl, inv, pending, rfl, by rw [pending]⟩
            · cases started

theorem startCgiScript_started {os : Os} {client next : Peer} {req : Nat}
    {cgiParameter : CgiParam} {postBody : Bytes}
    (started : startCgiScript os client req cgiParameter postBody = .ok next) :
    CgiStarted client req next := by
  obtain ⟨vacant, executor, req, inv, _, failure, rfl⟩ := startCgiScript_executor started
  refine ⟨vacant, ⟨executor, req, inv, rfl⟩, ?_⟩
  rintro _ text ⟨⟩ failed
  obtain ⟨errno, _, same⟩ := Option.map_eq_some_iff.mp (failure.symm.trans failed)
  exact ⟨errno, same.symm⟩

end Liso
