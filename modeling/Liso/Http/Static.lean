import Liso.Http.Response

/-! Static content: from the URI to a path, the head of a GET response, and the
file streamed after it. -/

namespace Liso

structure TimeText where
  text : Bytes
  short : text.length < 256
  plain : ∀ c ∈ text, c ≠ cl ∧ c ≠ rf ∧ c ≠ 0

/-- What `stat` finds. There is no time where `gmtime` returns NULL. -/
structure FileStat where
  size : Nat
  mtime : Option TimeText

inductive Errno
  | e2big
  | eacces
  | efault
  | einval
  | eio
  | eisdir
  | eloop
  | emfile
  | enametoolong
  | enfile
  | enoent
  | enoexec
  | enomem
  | enotdir
  | eperm
  | etxtbsy
  | other
  deriving DecidableEq

/-- What the system answers to one call of `handle_http`, and to `execve` in the child that the call
starts: there is an error if it fails. -/
structure Os where
  access : Bytes → Bool
  stat : Bytes → Option FileStat
  currTime : TimeText
  fopen : Bytes → Option File
  stdinPipe : Option Pipe
  stdoutPipe : Option Pipe
  fork : Bool
  execve : Option Errno

/-- What is fixed when the server starts, and the functions `handle_http` relies on. -/
structure Config where
  wwwDir : Bytes
  cgiScripts : Bytes
  parse : Bytes → Except Fault (Option Request)
  atoi : Bytes → Int

def getHeaderValue (request : Request) (hname : Bytes) : Bytes :=
  match request.headers.find? fun h => h.headerName = hname with
  | some h => h.headerValue
  | none => []

def chopN (text : Bytes) (n : Nat) : Except Fault Bytes :=
  if n = 0 then .error .assertion
  else if n > text.length then .ok text
  else .ok (text.drop n)

def startsWith (pre text : Bytes) : Bool := pre.isPrefixOf text

/-- The last character is looked at before the first one of an empty string. -/
def removeRedundancyFromUri (uri : Bytes) : Except Fault Bytes := do
  let uri ← if startsWith (str "http://") uri then chopN uri (str "http://").length else .ok uri
  match uri.getLast? with
  | none => .error (.bounds .httpUri)
  | some last => return if last = 0x2f then uri.dropLast else uri

def requestedPathIsDir (path : Bytes) : Except Fault Bool :=
  match path.getLast? with
  | none => .error (.bounds .fullpath)
  | some last => .ok (last = 0x2f)

def strcatPath (path more : Bytes) : Except Fault Bytes := strcpy .fullpath 4096 (path ++ more)

def makeFullPath (wwwDir : Bytes) (request : Request) : Except Fault (Bytes × Request) := do
  let fullPath ← strcpy .fullpath 4096 wwwDir
  let uri ← removeRedundancyFromUri request.httpUri
  let fullPath ←
    if uri.head? = some 0x2f then
      if fullPath = [] then .error (.bounds .fullpath) else .ok fullPath.dropLast
    else .ok fullPath
  let fullPath ← strcatPath fullPath uri
  let isDir ← requestedPathIsDir fullPath
  let fullPath ← if isDir then strcatPath fullPath (str "Index.html") else .ok fullPath
  return (fullPath, { request with httpUri := uri })

def getFilenameExt (filename : Bytes) : Bytes × Bytes :=
  let extension := (filename.reverse.takeWhile (· ≠ 0x2e)).reverse
  if filename.length ≤ extension.length + 1 then (filename, [])
  else (filename.take (filename.length - extension.length), extension)

def toLower (c : UInt8) : UInt8 := if 0x41 ≤ c && c ≤ 0x5a then c + 0x20 else c

def strTolower (text : Bytes) : Bytes := text.map toLower

def getMimeType (mime : Bytes) : Bytes :=
  if mime = str "html" then str "text/html"
  else if mime = str "css" then str "text/css"
  else if mime = str "png" then str "image/png"
  else if mime = str "jpeg" then str "image/jpeg"
  else if mime = str "gif" then str "image/gif"
  else str "application/octet-stream"

/-- The result of `stat` is not looked at. -/
def getFileLen (os : Os) (fullpath : Bytes) : Except Fault Nat :=
  match os.stat fullpath with
  | none => .error .indeterminate
  | some st => .ok st.size

/-- As before; and what `gmtime` returns is handed to `strftime`. -/
def getFlmodified (os : Os) (path : Bytes) : Except Fault TimeText :=
  match os.stat path with
  | none => .error .indeterminate
  | some st =>
      match st.mtime with
      | none => .error .nullPointer
      | some time => .ok time

def generateGetHeader (cfg : Config) (os : Os) (task : HttpTask) (request : Request)
    (lastReq : Bool) : Except Fault (Int × HttpTask × Request × List Event) := do
  let (fullpath, request) ← makeFullPath cfg.wwwDir request
  if os.access fullpath = false then return (notFoundNum, task, request, [])
  -- the extension points into `fullpath`, which is lowered in place
  let (stem, extension) := getFilenameExt fullpath
  let extension := strTolower extension
  let fullpath := stem ++ extension
  let mimeType := getMimeType extension
  let contentLength ← getFileLen os fullpath
  let contentLenStr ← strcpy .contentLenStr 16 (str (toString contentLength))
  let lastModified ← getFlmodified os fullpath
  let task ← generateResponseStatusLine task (str "200") (str "OK")
  let task ← generateResponseHeader task (str "Server") serverName
  let task ← generateResponseHeader task (str "Date") os.currTime.text
  let task ← generateResponseHeader task (str "Content-Length") contentLenStr
  let task ← generateResponseHeader task (str "Content-Type") mimeType
  let task ← generateResponseHeader task (str "Last-modified") lastModified.text
  let task ← generateResponseHeader task connection (if lastReq then close else keepAlive)
  let task ← generateResponseMsg task crlf
  match os.fopen fullpath with
  | none => return (internalServerErrorNum, task, request, [])
  | some file =>
      let file := { file with req := task.requests }
      return (okNum, { task with fp := .live file }, request, [.opened file.fd])

def loweredPath (fullpath : Bytes) : Bytes :=
  (getFilenameExt fullpath).1 ++ strTolower (getFilenameExt fullpath).2

def mimeOfPath (fullpath : Bytes) : Bytes :=
  getMimeType (strTolower (getFilenameExt fullpath).2)

structure Described where
  size : Nat
  modified : TimeText
  short : (str (toString size)).length < 16

def describe (os : Os) (path : Bytes) : Except Fault Described :=
  match getFileLen os path with
  | .error fault => .error fault
  | .ok size =>
      if short : (str (toString size)).length < 16 then
        match getFlmodified os path with
        | .error fault => .error fault
        | .ok modified => .ok ⟨size, modified, short⟩
      else .error (.bounds .contentLenStr)

theorem describe_ok {os : Os} {path : Bytes} {facts : Described}
    (described : describe os path = .ok facts) :
    os.stat path = some ⟨facts.size, some facts.modified⟩ := by
  unfold describe getFileLen getFlmodified at described
  cases found : os.stat path with
  | none =>
      simp only [found] at described
      cases described
  | some st =>
      simp only [found] at described
      split at described
      · cases time : st.mtime with
        | none =>
            simp only [time] at described
            cases described
        | some modified =>
            simp only [time] at described
            cases described
            rw [← time]
      · cases described

theorem describe_bind {β : Type} (os : Os) (path : Bytes)
    (rest : Bytes → TimeText → Except Fault β) :
    (do
      let contentLength ← getFileLen os path
      let contentLenStr ← strcpy .contentLenStr 16 (str (toString contentLength))
      let lastModified ← getFlmodified os path
      rest contentLenStr lastModified) =
      match describe os path with
      | .error fault => .error fault
      | .ok facts => rest (str (toString facts.size)) facts.modified := by
  cases length : getFileLen os path with
  | error fault =>
      simp only [describe, length]
      rfl
  | ok size =>
      by_cases short : (str (toString size)).length < 16
      · cases time : getFlmodified os path <;>
          simp only [describe, length, time, dif_pos short, ok_bind, strcpy_fits _ _ _ short]
        rfl
      · simp only [describe, length, dif_neg short, ok_bind, strcpy_over _ _ _ short]
        rfl

def getHead (os : Os) (file : Described) (fullpath : Bytes) (lastReq : Bool) : Bytes :=
  statusLine (str "200") (str "OK") ++ headerLine (str "Server") serverName ++
    headerLine (str "Date") os.currTime.text ++
    headerLine (str "Content-Length") (str (toString file.size)) ++
    headerLine (str "Content-Type") (mimeOfPath fullpath) ++
    headerLine (str "Last-modified") file.modified.text ++
    headerLine connection (if lastReq then close else keepAlive) ++ crlf

theorem getMimeType_length (mime : Bytes) : (getMimeType mime).length ≤ 24 := by
  simp only [getMimeType]
  split_ifs <;> decide

theorem getHead_length (os : Os) (file : Described) (fullpath : Bytes) (lastReq : Bool) :
    (getHead os file fullpath lastReq).length ≤ 700 := by
  have date := os.currTime.short
  have modified := file.modified.short
  have short := file.short
  have mime : (mimeOfPath fullpath).length ≤ 24 := getMimeType_length _
  have connected : (if lastReq then close else keepAlive).length ≤ 10 := by
    cases lastReq <;> decide
  simp only [getHead, List.length_append, statusLine_length, headerLine_length,
    show crlf.length = 2 from rfl, show serverName.length = 8 from rfl,
    show connection.length = 10 from rfl, show (str "200").length = 3 from rfl,
    show (str "OK").length = 2 from rfl, show (str "Server").length = 6 from rfl,
    show (str "Date").length = 4 from rfl, show (str "Content-Length").length = 14 from rfl,
    show (str "Content-Type").length = 12 from rfl,
    show (str "Last-modified").length = 13 from rfl]
  omega

inductive GetHeader (cfg : Config) (os : Os) (task : HttpTask) (request : Request)
    (lastReq : Bool) : Int × HttpTask × Request × List Event → Prop
  | missing {fullpath : Bytes} {changed : Request}
      (path : makeFullPath cfg.wwwDir request = .ok (fullpath, changed))
      (absent : os.access fullpath = false) :
      GetHeader cfg os task request lastReq (notFoundNum, task, changed, [])
  | unopened {fullpath : Bytes} {changed : Request} {next : HttpTask} {facts : Described}
      (path : makeFullPath cfg.wwwDir request = .ok (fullpath, changed))
      (present : os.access fullpath = true)
      (written : Written task (getHead os facts fullpath lastReq) next)
      (described : describe os (loweredPath fullpath) = .ok facts)
      (noFile : os.fopen (loweredPath fullpath) = none) :
      GetHeader cfg os task request lastReq (internalServerErrorNum, next, changed, [])
  | opened {fullpath : Bytes} {changed : Request} {next : HttpTask} {facts : Described}
      {file : File} (path : makeFullPath cfg.wwwDir request = .ok (fullpath, changed))
      (present : os.access fullpath = true)
      (written : Written task (getHead os facts fullpath lastReq) next)
      (described : describe os (loweredPath fullpath) = .ok facts)
      (hasFile : os.fopen (loweredPath fullpath) = some file) :
      GetHeader cfg os task request lastReq
        (okNum, { next with fp := .live { file with req := next.requests } }, changed,
          [.opened file.fd])

private theorem getHead_written {os : Os} {file : Described} {fullpath : Bytes} {lastReq : Bool}
    {task : HttpTask} (room : HasRoom task (getHead os file fullpath lastReq)) :
    ∃ next, Written task (getHead os file fullpath lastReq) next ∧
      ∀ {β : Type} (rest : HttpTask → Except Fault β), (do
        let task ← generateResponseStatusLine task (str "200") (str "OK")
        let task ← generateResponseHeader task (str "Server") serverName
        let task ← generateResponseHeader task (str "Date") os.currTime.text
        let task ← generateResponseHeader task (str "Content-Length") (str (toString file.size))
        let task ← generateResponseHeader task (str "Content-Type") (mimeOfPath fullpath)
        let task ← generateResponseHeader task (str "Last-modified") file.modified.text
        let task ← generateResponseHeader task connection (if lastReq then close else keepAlive)
        let task ← generateResponseMsg task crlf
        rest task) = rest next := by
  obtain ⟨t₁, wrote₁, line₁⟩ :=
    generateResponseStatusLine_written room.left.left.left.left.left.left.left
  obtain ⟨t₂, wrote₂, line₂⟩ :=
    generateResponseHeader_written (room.left.left.left.left.left.left.right line₁)
  have lines₂ := line₁.trans line₂
  obtain ⟨t₃, wrote₃, line₃⟩ :=
    generateResponseHeader_written (room.left.left.left.left.left.right lines₂)
  have lines₃ := lines₂.trans line₃
  obtain ⟨t₄, wrote₄, line₄⟩ :=
    generateResponseHeader_written (room.left.left.left.left.right lines₃)
  have lines₄ := lines₃.trans line₄
  obtain ⟨t₅, wrote₅, line₅⟩ := generateResponseHeader_written (room.left.left.left.right lines₄)
  have lines₅ := lines₄.trans line₅
  obtain ⟨t₆, wrote₆, line₆⟩ := generateResponseHeader_written (room.left.left.right lines₅)
  have lines₆ := lines₅.trans line₆
  obtain ⟨t₇, wrote₇, line₇⟩ := generateResponseHeader_written (room.left.right lines₆)
  have lines₇ := lines₆.trans line₇
  obtain ⟨next, wroteEnd, ended⟩ := generateResponseMsg_written (room.right lines₇) (by decide)
  refine ⟨next, lines₇.trans ended, fun rest => ?_⟩
  simp only [wrote₁, wrote₂, wrote₃, wrote₄, wrote₅, wrote₆, wrote₇, wroteEnd, ok_bind]

theorem generateGetHeader_eq {cfg : Config} (os : Os) {task : HttpTask} {request changed : Request}
    (lastReq : Bool) {fullpath : Bytes} (room : ∀ text : Bytes, text.length ≤ 700 → HasRoom task text)
    (path : makeFullPath cfg.wwwDir request = .ok (fullpath, changed)) :
    (os.access fullpath = false ∧
      generateGetHeader cfg os task request lastReq = .ok (notFoundNum, task, changed, [])) ∨
    (∃ fault, os.access fullpath = true ∧ describe os (loweredPath fullpath) = .error fault ∧
      generateGetHeader cfg os task request lastReq = .error fault) ∨
    (∃ facts, os.access fullpath = true ∧ describe os (loweredPath fullpath) = .ok facts ∧
      ∃ next, Written task (getHead os facts fullpath lastReq) next ∧
        (os.fopen (loweredPath fullpath) = none →
          generateGetHeader cfg os task request lastReq =
            .ok (internalServerErrorNum, next, changed, [])) ∧
        ∀ file, os.fopen (loweredPath fullpath) = some file →
          generateGetHeader cfg os task request lastReq =
            .ok (okNum, { next with fp := .live { file with req := next.requests } }, changed,
              [.opened file.fd])) := by
  by_cases absent : os.access fullpath = false
  · refine .inl ⟨absent, ?_⟩
    simp only [generateGetHeader, path, ok_bind]
    rw [if_pos absent]
    rfl
  have present : os.access fullpath = true := by simpa using absent
  cases described : describe os (loweredPath fullpath) with
  | error fault =>
      refine .inr (.inl ⟨fault, present, rfl, ?_⟩)
      simp only [generateGetHeader, path, ok_bind]
      rw [if_neg absent]
      refine (describe_bind os (loweredPath fullpath) _).trans ?_
      rw [described]
  | ok facts =>
      obtain ⟨next, written, chain⟩ := getHead_written (room _ (getHead_length os facts fullpath lastReq))
      refine .inr (.inr ⟨facts, present, rfl, next, written, fun noFile => ?_, fun file hasFile => ?_⟩)
      all_goals
        simp only [generateGetHeader, path, ok_bind]
        rw [if_neg absent]
        refine (describe_bind os (loweredPath fullpath) _).trans ?_
        rw [described]
        apply Eq.trans (chain _)
      · rw [loweredPath] at noFile
        rw [noFile]
        rfl
      · rw [loweredPath] at hasFile
        rw [hasFile]
        rfl

theorem generateGetHeader_cases {cfg : Config} {os : Os} {task : HttpTask} {request : Request}
    {lastReq : Bool} {result : Int × HttpTask × Request × List Event}
    (room : ∀ text : Bytes, text.length ≤ 700 → HasRoom task text)
    (generated : generateGetHeader cfg os task request lastReq = .ok result) :
    GetHeader cfg os task request lastReq result := by
  cases path : makeFullPath cfg.wwwDir request with
  | error fault =>
      simp only [generateGetHeader, path] at generated
      cases generated
  | ok made =>
      obtain ⟨fullpath, changed⟩ := made
      rcases generateGetHeader_eq os lastReq room path with
        ⟨absent, same⟩ | ⟨_, _, _, same⟩ |
          ⟨facts, present, described, next, written, unopened, opened⟩
      · cases generated.symm.trans same
        exact .missing path absent
      · cases generated.symm.trans same
      · cases found : os.fopen (loweredPath fullpath) with
        | none =>
            cases generated.symm.trans (unopened found)
            exact .unopened path present written described found
        | some file =>
            cases generated.symm.trans (opened file found)
            exact .opened path present written described found

inductive StreamStatus
  | notDone
  | done
  | error
  deriving DecidableEq

def fgetc (file : File) : Option UInt8 × File :=
  match file.rest with
  | [] => (none, file)
  | c :: rest => (some c, { file with rest })

def eofChar : UInt8 := 0xff

def streamFileLoop : Nat → File → Peer → StreamStatus × Ptr File × Peer
  | 0, file, peer => (.notDone, .live file, peer)
  | passes + 1, file, peer =>
      if bufFull peer.sendingBuffer then (.notDone, .live file, peer)
      else
        match fgetc file with
        | (some data, file) => streamFileLoop passes file (peer.put ⟨data, file.req⟩)
        | (none, file) =>
            if file.fails then (.error, .freed, peer.record [.closed file.fd])
            else (.done, .freed, (peer.put ⟨eofChar, file.req⟩).record [.closed file.fd])

/-- Where a stretch of the file was put: the buffer filled up first, or the file could not be
read further, or its end was found and put as well. -/
inductive FileStreamed (file : File) (peer : Peer) : StreamStatus × Ptr File × Peer → Prop
  | notDone {front rest : Bytes} {next : Peer} (split : file.rest = front ++ rest)
      (puts : Puts peer (front.map (⟨·, file.req⟩)) next)
      (full : next.sendingBuffer.content.length = bufDataMaxsize) :
      FileStreamed file peer (.notDone, .live { file with rest }, next)
  | error {next : Peer} (fails : file.fails = true)
      (puts : Puts peer (file.rest.map (⟨·, file.req⟩)) next) :
      FileStreamed file peer (.error, .freed, next.record [.closed file.fd])
  | done {next : Peer} (ends : file.fails = false)
      (puts : Puts peer ((file.rest ++ [eofChar]).map (⟨·, file.req⟩)) next) :
      FileStreamed file peer (.done, .freed, next.record [.closed file.fd])

private theorem FileStreamed.cons {file : File} {peer next : Peer} {data : UInt8} {rest : Bytes}
    {result : StreamStatus × Ptr File × Peer} (shape : file.rest = data :: rest)
    (put : Puts peer [⟨data, file.req⟩] next) (later : FileStreamed { file with rest } next result) :
    FileStreamed file peer result := by
  cases later with
  | @notDone front rest _ split puts full =>
      have whole : file.rest = (data :: front) ++ rest :=
        shape.trans (congrArg (data :: ·) split)
      exact .notDone whole (put.trans puts) full
  | error fails puts =>
      refine .error fails ?_
      rw [shape]
      exact put.trans puts
  | done ends puts =>
      refine .done ends ?_
      rw [shape]
      exact put.trans puts

theorem streamFileLoop_streamed {passes : Nat} {file : File} {peer : Peer}
    (sending : peer.sendingBuffer.Inv)
    (room : peer.sendingBuffer.content.length + passes = bufDataMaxsize) :
    FileStreamed file peer (streamFileLoop passes file peer) := by
  induction passes generalizing file peer with
  | zero =>
      have split : file.rest = [] ++ file.rest := rfl
      exact .notDone split (Puts.refl sending) room
  | succ passes ih =>
      have free : peer.sendingBuffer.content.length < bufDataMaxsize := by omega
      have notFull : ¬ bufFull peer.sendingBuffer = true := by
        rw [sending.full_content]
        omega
      rw [streamFileLoop, if_neg notFull]
      cases shape : file.rest with
      | nil =>
          simp only [fgetc, shape]
          by_cases fails : file.fails = true
          · rw [if_pos fails]
            refine .error fails ?_
            rw [shape]
            exact Puts.refl sending
          · rw [if_neg fails]
            refine .done (by simpa using fails) ?_
            rw [shape]
            exact Puts.one sending free _
      | cons data rest =>
          simp only [fgetc, shape]
          have put := Puts.one sending free ⟨data, file.req⟩
          refine FileStreamed.cons shape put (ih put.inv ?_)
          rw [put.content, List.length_append, List.length_singleton]
          omega

def streamFileContent (task : HttpTask) (peer : Peer) :
    Except Fault (StreamStatus × HttpTask × Peer) :=
  if bufFull peer.sendingBuffer then .ok (.notDone, task, peer)
  else
    match task.fp.deref with
    | .error fault => .error fault
    | .ok file =>
        match streamFileLoop (bufAvailable peer.sendingBuffer) file peer with
        | (status, fp, peer) => .ok (status, { task with fp }, peer)

theorem FileStreamed.puts {file : File} {peer : Peer} {result : StreamStatus × Ptr File × Peer}
    (streamed : FileStreamed file peer result) :
    ∃ bytes next events, Puts peer bytes next ∧ (∀ byte ∈ bytes, byte.req = file.req) ∧
      (events = [] ∨ events = [.closed file.fd]) ∧ result.2.2 = next.record events := by
  have tagged (text : Bytes) :
      ∀ byte ∈ text.map (fun c => (⟨c, file.req⟩ : OutByte)), byte.req = file.req := by
    intro byte member
    obtain ⟨c, _, rfl⟩ := List.mem_map.mp member
    rfl
  cases streamed with
  | notDone split puts full => exact ⟨_, _, [], puts, tagged _, .inl rfl, by simp [Peer.record]⟩
  | error fails puts => exact ⟨_, _, _, puts, tagged _, .inr rfl, rfl⟩
  | done ends puts => exact ⟨_, _, _, puts, tagged _, .inr rfl, rfl⟩

theorem FileStreamed.executor {file : File} {peer next : Peer} {status : StreamStatus}
    {fp : Ptr File} (streamed : FileStreamed file peer (status, fp, next)) :
    next.cgiExecutor = peer.cgiExecutor := by
  obtain ⟨_, _, _, puts, _, _, shape⟩ := streamed.puts
  obtain ⟨_, rfl⟩ := puts.frame
  have same := congrArg Peer.cgiExecutor shape
  exact same

theorem streamFileContent_streamed {task : HttpTask} {file : File} {peer : Peer}
    (sending : peer.sendingBuffer.Inv) (opened : task.fp = .live file) :
    ∃ status fp next, streamFileContent task peer = .ok (status, { task with fp }, next) ∧
      FileStreamed file peer (status, fp, next) := by
  by_cases full : bufFull peer.sendingBuffer = true
  · have split : file.rest = [] ++ file.rest := rfl
    have streamed : FileStreamed file peer (.notDone, .live file, peer) :=
      .notDone split (Puts.refl sending) (sending.full_content.mp full)
    refine ⟨_, _, _, ?_, streamed⟩
    rw [streamFileContent, if_pos full, ← opened]
  · have room : peer.sendingBuffer.content.length + bufAvailable peer.sendingBuffer =
        bufDataMaxsize := by
      have fits := sending.content_fits
      rw [sending.available_content]
      omega
    refine ⟨_, _, _, ?_, streamFileLoop_streamed sending room⟩
    rw [streamFileContent, if_neg full, opened]
    rfl

end Liso
