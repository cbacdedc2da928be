import Liso.Http.Bounds
import Liso.Server.Checks

/-! What a call of `handle_http` needs of its inputs. No check of its own ever fails; but the
fields of a header, the path and the environment have to fit their arrays, and what `access` has
found has to be there for `stat` and `gmtime` too. -/

namespace Liso

/-- As the grammar reads the block, its fields fit their arrays. -/
def HeaderFits (block : Bytes) : Prop :=
  (parseScan .start block 0).1 = .crlfcrlf →
    ∀ q : Reading, q.Begins (parsingBuf block) → q.Fits

/-- The two parts of the URI and the strings of the environment fit their arrays. -/
structure CgiFits (request : Request) (hap : Address) : Prop where
  path : (pathInfoOf request.httpUri).length < 512
  query : (queryOf request.httpUri).length < 512
  fields : ∀ field ∈ envpFieldsOf request hap, EnvpFits field

/-- `stat` finds the path, `gmtime` has a time for it, and its length has fewer than 16 digits. -/
def Os.Describes (os : Os) (path : Bytes) : Prop :=
  ∃ size time, os.stat path = some ⟨size, some time⟩ ∧ (str (toString size)).length < 16

/-- The path of a GET or HEAD can be made, and if it is found, its lowered form is described. -/
structure FileFits (cfg : Config) (os : Os) (request : Request) : Prop where
  uri : withoutScheme request.httpUri ≠ []
  wwwDir : cfg.wwwDir ≠ [] ∨ (withoutScheme request.httpUri).head? ≠ some 0x2f
  room : pathLength cfg.wwwDir (withoutScheme request.httpUri) < 4096
  described : os.access (pathOf cfg.wwwDir (withoutSlash (withoutScheme request.httpUri))) = true →
    os.Describes (loweredPath (pathOf cfg.wwwDir (withoutSlash (withoutScheme request.httpUri))))

def TargetFits (cfg : Config) (os : Os) (hap : Address) (method : MethodType)
    (request : Request) : Prop :=
  if isCgi request.httpUri then CgiFits request hap
  else method = .get ∨ method = .head → FileFits cfg os request

/-- The method of a request whose URI is looked at with `waiting` bytes behind the header. -/
def methodOf (cfg : Config) (request : Request) (waiting : Nat) : Option MethodType :=
  if request.httpMethod = str "HEAD" then some .head
  else if request.httpMethod = str "GET" then some .get
  else
    match bodyLength cfg request with
    | none => none
    | some length => if length ≤ waiting then some .post else none

namespace Handling

def current (h : Handling) : Option (MethodType × Request) :=
  match h.request with
  | .live cell => some (h.task.methodType, cell.request)
  | _ => none

/-- The request whose URI the call gets to look at, with the bytes at hand. -/
def target (cfg : Config) (h : Handling) : Option (MethodType × Request) :=
  match h.task.state with
  | .recvHeader =>
      match h.block with
      | none => none
      | some (block, rest) =>
          match cfg.parse block with
          | .ok (some request) => (methodOf cfg request rest.length).map (·, request)
          | _ => none
  | .recvBody =>
      if h.task.bodyBytesNum ≤ h.task.postBodyIdx + h.peer.receivingBuffer.content.length then
        h.current
      else none
  | .checkCgi => h.current
  | _ => none

/-- The header that is completed and the request that is looked at meet their demands. -/
structure Within (cfg : Config) (os : Os) (h : Handling) : Prop where
  header : ∀ block rest, h.task.state = .recvHeader → h.block = some (block, rest) →
    HeaderFits block
  target : ∀ method request, h.target cfg = some (method, request) →
    TargetFits cfg os h.peer.addres method request

end Handling

theorem headerFits_iff {block : Bytes} (short : block.length ≤ 8192) :
    HeaderFits block ↔ ∃ outcome, parse block = .ok outcome := by
  rw [HeaderFits, ← storedWithin_iff block short]
  constructor
  · intro within
    obtain ⟨outcome, parsed, _⟩ := within.stored
    exact ⟨outcome, parsed⟩
  · rintro ⟨outcome, parsed⟩
    refine storedWithin_fits block short fun ended q front => ?_
    by_contra excess
    obtain ⟨fault, failed⟩ := parse_over block short ended q front excess
    cases failed.symm.trans parsed

theorem cgiFits_iff (cgiScripts : Bytes) (request : Request) (hap : Address) :
    CgiFits request hap ↔ ∃ param, buildCgiParam cgiScripts request hap = .ok param := by
  constructor
  · intro fits
    exact ⟨_, buildCgiParam_fields cgiScripts request hap fits.path fits.query fits.fields⟩
  · rintro ⟨param, made⟩
    have room := CgiRoom.of_param made
    refine ⟨room.path, room.query, ?_⟩
    obtain ⟨fixed, fixedMade, made⟩ := bind_ok.mp made
    obtain ⟨uriFields, _, made⟩ := bind_ok.mp made
    obtain ⟨headers, headersMade, made⟩ := bind_ok.mp made
    obtain ⟨remote, remoteMade, made⟩ := bind_ok.mp made
    obtain ⟨port, portMade, _⟩ := bind_ok.mp made
    have copied {name value text : Bytes} (copy : setEnvpFieldByStr name value = .ok text) :
        EnvpFits (name, value) := (strcpy_ok.mp copy).1
    intro field member
    simp only [envpFieldsOf, List.mem_append] at member
    rcases member with ((member | member) | member) | member
    · obtain ⟨_, copy⟩ := mapM_member fixedMade field member
      exact copied copy
    · have path := room.path
      have query := room.query
      have pathName : (str "PATH_INFO").length = 9 := rfl
      have queryName : (str "QUERY_STRING").length = 12 := rfl
      simp only [envpUri, List.mem_cons, List.not_mem_nil, or_false] at member
      rcases member with rfl | rfl <;> rw [envpFits_iff] <;> omega
    · obtain ⟨pair, listed, rfl⟩ := List.mem_map.mp member
      obtain ⟨_, copy⟩ := mapM_member headersMade pair listed
      exact copied copy
    · simp only [envpAddress, List.mem_cons, List.not_mem_nil, or_false] at member
      rcases member with rfl | rfl
      · exact copied remoteMade
      · exact copied portMade

theorem describes_iff (os : Os) (path : Bytes) :
    os.Describes path ↔ ∃ facts, describe os path = .ok facts := by
  constructor
  · rintro ⟨size, time, found, short⟩
    refine ⟨⟨size, time, short⟩, ?_⟩
    simp only [describe, getFileLen, getFlmodified, found, dif_pos short]
  · rintro ⟨facts, described⟩
    exact ⟨facts.size, facts.modified, describe_ok described, facts.short⟩

theorem fileFits_iff (cfg : Config) (os : Os) (request : Request) : FileFits cfg os request ↔
    ∃ path changed, makeFullPath cfg.wwwDir request = .ok (path, changed) ∧
      (os.access path = true → os.Describes (loweredPath path)) := by
  have made {path : Bytes} {changed : Request} (nonempty : withoutScheme request.httpUri ≠ [])
      (made : makeFullPath cfg.wwwDir request = .ok (path, changed)) :
      path = pathOf cfg.wwwDir (withoutSlash (withoutScheme request.httpUri)) := by
    obtain ⟨uri, removed, _, rfl, _⟩ := makeFullPath_ok.mp made
    rw [removeRedundancyFromUri_eq, if_neg nonempty] at removed
    cases removed
    rfl
  constructor
  · intro fits
    obtain ⟨path, changed, ran, _⟩ :=
      (pathWithin_room cfg.wwwDir request).mpr ⟨fits.uri, fits.wwwDir, fits.room⟩
    refine ⟨path, changed, ran, ?_⟩
    rw [made fits.uri ran]
    exact fits.described
  · rintro ⟨path, changed, ran, described⟩
    obtain ⟨_, _, _, _, _, _, _, short⟩ := makeFullPath_ok.mp ran
    obtain ⟨uri, wwwDir, room⟩ :=
      (pathWithin_room cfg.wwwDir request).mp ⟨path, changed, ran, short⟩
    rw [made uri ran] at described
    exact ⟨uri, wwwDir, room, described⟩

section Passes

variable {cfg : Config} {os : Os} {h next : Handling} {fault : Fault} {pass : Pass}

def Pass.target (cfg : Config) : Pass → Option (MethodType × Request)
  | .again next => next.target cfg
  | .returns _ _ => none

private theorem Taken.target {task taken : HttpTask} {request : Request} {peer : Peer}
    (took : Taken cfg task request taken) (conn req : Nat) :
    Handling.target cfg ⟨.live ⟨request, conn, req⟩, taken, peer⟩ =
      (methodOf cfg request peer.receivingBuffer.content.length).map (·, request) := by
  cases took with
  | @fetch methodType method named =>
      have same : methodOf cfg request peer.receivingBuffer.content.length = some methodType := by
        rcases method with rfl | rfl
        · rw [if_pos rfl] at named
          rw [methodOf, named, if_neg (by decide), if_pos rfl]
        · rw [if_neg (by decide)] at named
          rw [methodOf, named, if_pos rfl]
      rw [same]
      rfl
  | refuse post noBody =>
      rw [methodOf, post, if_neg (by decide), if_neg (by decide), noBody]
      rfl
  | @body length hasBody =>
      have some : bodyLength cfg request ≠ none := by simp [hasBody]
      have post := bodyLength_post some
      rw [methodOf, post, if_neg (by decide), if_neg (by decide), hasBody]
      simp only [Handling.target, Handling.current, Nat.zero_add]
      split <;> rfl
  | unknown other =>
      simp only [List.mem_cons, List.not_mem_nil, or_false, not_or] at other
      have noBody : bodyLength cfg request = none := by
        by_contra hasBody
        exact other.2.2 (bodyLength_post hasBody)
      rw [methodOf, if_neg other.1, if_neg other.2.1, noBody]
      rfl

private theorem PassCases.target (result : PassCases cfg os h pass)
    (state : h.task.state ≠ .checkCgi) : pass.target cfg = h.target cfg := by
  cases result with
  | headerShort state scanning read =>
      simp only [Handling.target, state, read.block scanning]
      rfl
  | headerLong state scanning read =>
      simp only [Handling.target, state, read.block scanning]
      rfl
  | headerBad state scanning read whole bad =>
      simp only [Handling.target, state, read.block scanning, if_true, whole, bad]
      rfl
  | headerGood state scanning read whole good took =>
      simp only [Handling.target, state, read.block scanning, if_true, whole, good]
      exact took.target _ _
  | bodyShort state part read =>
      cases read with
      | short after missing left none =>
          rw [List.length_append] at missing
          simp only [Handling.target, state, part.index]
          rw [if_neg (by omega)]
          rfl
  | bodyWhole state part read =>
      cases read with
      | whole after full split left =>
          have lengths := congrArg List.length split
          rw [List.length_append, List.length_append] at lengths
          simp only [Handling.target, state, part.index]
          rw [if_pos (by omega)]
          rfl
  | generated state written => simp only [Pass.target, Handling.target, state]
  | headSent state sent =>
      simp only [Pass.target, Handling.target, state]
      rcases afterHead_cases _ with body | finished
      · rw [body]
      · rw [finished]
  | cgiStarted other => exact absurd other state
  | staticHead other => exact absurd other state
  | staticPost other => exact absurd other state
  | fileWaits state opened streamed => simp only [Pass.target, Handling.target, state]
  | fileFails state opened streamed => simp only [Pass.target, Handling.target, state]
  | fileDone state opened streamed =>
      simp only [Pass.target, Handling.target, state]

private theorem PassCases.targetDone (result : PassCases cfg os h pass)
    (state : h.task.state = .checkCgi) : pass.target cfg = none := by
  cases result with
  | cgiStarted => rfl
  | @staticHead cell code next changed events =>
      by_cases found : code = okNum
      · simp only [Pass.target, Handling.target, if_pos found]
      · simp only [Pass.target, Handling.target, if_neg found]
  | staticPost => rfl
  | headerShort other => cases state.symm.trans other
  | headerLong other => cases state.symm.trans other
  | headerBad other => cases state.symm.trans other
  | headerGood other => cases state.symm.trans other
  | bodyShort other => cases state.symm.trans other
  | bodyWhole other => cases state.symm.trans other
  | generated other => cases state.symm.trans other
  | headSent other => cases state.symm.trans other
  | fileWaits other => cases state.symm.trans other
  | fileFails other => cases state.symm.trans other
  | fileDone other => cases state.symm.trans other

private theorem PassCases.later (result : PassCases cfg os h (.again next)) :
    next.task.state ≠ .recvHeader ∧ next.peer.addres = h.peer.addres := by
  cases result with
  | headerGood state scanning read whole good took =>
      refine ⟨?_, rfl⟩
      cases took <;> exact nofun
  | bodyWhole => exact ⟨nofun, rfl⟩
  | generated => exact ⟨nofun, rfl⟩
  | headSent state sent =>
      obtain ⟨_, puts, _⟩ := sent.puts
      obtain ⟨sendingBuffer, rfl⟩ := puts.frame
      refine ⟨fun again => ?_, rfl⟩
      rcases afterHead_cases _ with body | finished
      · cases body.symm.trans again
      · cases finished.symm.trans again
  | @staticHead cell code next changed events =>
      refine ⟨?_, rfl⟩
      by_cases found : code = okNum
      · simp only [if_pos found]
        exact nofun
      · simp only [if_neg found]
        exact nofun
  | staticPost => exact ⟨nofun, rfl⟩
  | fileDone state opened streamed =>
      obtain ⟨_, _, _, puts, _, _, shape⟩ := streamed.puts
      obtain ⟨sendingBuffer, rfl⟩ := puts.frame
      have same := congrArg Peer.addres shape
      exact ⟨nofun, same⟩

private theorem Handling.block_short {block rest : Bytes} (found : h.block = some (block, rest)) :
    block.length ≤ 8192 := by
  rw [Handling.block, Option.filter_eq_some_iff] at found
  exact of_decide_eq_true found.2

private theorem Handling.target_checkCgi {cell : RequestCell} (state : h.task.state = .checkCgi)
    (live : h.request = .live cell) :
    h.target cfg = some (h.task.methodType, cell.request) := by
  simp only [Handling.target, state, Handling.current, live]

theorem Handling.Within.spares (parses : cfg.parse = parse) (within : h.Within cfg os) :
    ¬ PassFails cfg os h fault := by
  intro fails
  cases fails with
  | header state found failed =>
      have short := Handling.block_short found
      obtain ⟨outcome, parsed⟩ := (headerFits_iff short).mp (within.header _ _ state found)
      rw [parses] at failed
      cases failed.symm.trans parsed
  | param state live cgi failed =>
      have fits := within.target _ _ (Handling.target_checkCgi state live)
      rw [TargetFits, if_pos cgi] at fits
      obtain ⟨param, made⟩ := (cgiFits_iff cfg.cgiScripts _ _).mp fits
      cases failed.symm.trans made
  | path state live static method failed =>
      have fits := within.target _ _ (Handling.target_checkCgi state live)
      rw [TargetFits, static, if_neg nofun] at fits
      obtain ⟨path, changed, made, _⟩ := (fileFits_iff _ _ _).mp (fits method)
      cases failed.symm.trans made
  | undescribed state live static method made present failed =>
      have fits := within.target _ _ (Handling.target_checkCgi state live)
      rw [TargetFits, static, if_neg nofun] at fits
      obtain ⟨path, changed, madeToo, tells⟩ := (fileFits_iff _ _ _).mp (fits method)
      cases made.symm.trans madeToo
      obtain ⟨facts, described⟩ := (describes_iff _ _).mp (tells present)
      cases failed.symm.trans described

theorem Handling.Within.again (inv : h.Inv) (within : h.Within cfg os)
    (passed : httpPass cfg os h = .ok (.again next)) : next.Within cfg os := by
  have result := httpPass_cases inv passed
  obtain ⟨state, addres⟩ := result.later
  refine ⟨fun _ _ isHeader => absurd isHeader state, fun method request target => ?_⟩
  rw [addres]
  by_cases looks : h.task.state = .checkCgi
  · cases target.symm.trans (result.targetDone looks)
  · exact within.target method request ((result.target looks).symm.trans target)

theorem Handling.within_of_pass (parses : cfg.parse = parse) (checked : h.Checked)
    (passed : httpPass cfg os h = .ok pass)
    (later : ∀ next, pass = .again next → next.Within cfg os) : h.Within cfg os := by
  have spared {fault : Fault} (fails : PassFails cfg os h fault) : False := by
    cases (fails.error checked.inv).symm.trans passed
  have result := httpPass_cases checked.inv passed
  refine ⟨fun block rest state found => ?_, fun method request target => ?_⟩
  · refine (headerFits_iff (Handling.block_short found)).mpr ?_
    cases parsed : parse block with
    | ok outcome => exact ⟨outcome, rfl⟩
    | error fault => exact (spared (.header state found (by rw [parses, parsed]))).elim
  by_cases looks : h.task.state = .checkCgi
  · obtain ⟨cell, live, _⟩ := checked.own (by simp [looks])
    cases target.symm.trans (Handling.target_checkCgi looks live)
    rw [TargetFits]
    split
    · next cgi =>
        refine (cgiFits_iff cfg.cgiScripts _ _).mpr ?_
        cases made : buildCgiParam cfg.cgiScripts cell.request h.peer.addres with
        | ok param => exact ⟨param, rfl⟩
        | error fault => exact (spared (.param looks live cgi made)).elim
    · next other =>
        intro method
        have static : isCgi cell.request.httpUri = false := by simpa using other
        refine (fileFits_iff _ _ _).mpr ?_
        cases made : makeFullPath cfg.wwwDir cell.request with
        | error fault => exact (spared (.path looks live static method made)).elim
        | ok result =>
            refine ⟨result.1, result.2, rfl, fun present => (describes_iff _ _).mpr ?_⟩
            cases described : describe os (loweredPath result.1) with
            | ok facts => exact ⟨facts, rfl⟩
            | error fault =>
                exact (spared (.undescribed looks live static method made present described)).elim
  · have same := result.target looks
    cases pass with
    | returns code next => cases same.trans target
    | again next =>
        have fits := (later next rfl).target method request (same.trans target)
        rwa [result.later.2] at fits

end Passes

section Calls

variable {cfg : Config} {os : Os} {h : Handling}

theorem httpLoop_within (parses : cfg.parse = parse) {fuel : Nat} {code : Code} {next : Handling}
    (checked : h.Checked) (ran : httpLoop cfg os fuel h = some (.ok (code, next))) :
    h.Within cfg os := by
  induction fuel generalizing h with
  | zero => cases ran
  | succ fuel ih =>
      rw [httpLoop] at ran
      split at ran
      · next finished =>
          refine ⟨fun _ _ state => ?_, fun method request target => ?_⟩
          · cases finished.symm.trans state
          · simp only [Handling.target, finished] at target
            cases target
      · next more =>
          cases passed : httpPass cfg os h with
          | error fault =>
              simp only [passed] at ran
              cases ran
          | ok pass =>
              simp only [passed] at ran
              refine Handling.within_of_pass parses checked passed ?_
              rintro next rfl
              exact ih ((httpPass_cases checked.inv passed).checked checked) ran

theorem Reaches.within {last : Handling} (reaches : Reaches cfg os h last) (inv : h.Inv)
    (within : h.Within cfg os) : last.Within cfg os := by
  induction reaches with
  | here => exact within
  | onward more pass later ih => exact ih ((httpPass_cases inv pass).valid inv) (within.again inv pass)

end Calls

/-- In the run `handle_http` is called in `s`. -/
def Calls (cfg : Config) (events : List PeerEvent) (start : Session) (os : Os) (s : Session) :
    Prop :=
  ∃ front back, events = front ++ .call os :: back ∧ sessionRun cfg front start = .ok s ∧
    s.closed = false

/-- Each call of the run ends without a fault, and on the way its passes move the task strictly
forward with the fields that its state relies on. -/
structure PassesChecks (cfg : Config) (events : List PeerEvent) (start : Session) : Prop where
  ends : ∀ os s, Calls cfg events start os s →
    ∃ result, handleHttp cfg os s.request s.peer = .ok result
  fields : ∀ os s task h, Calls cfg events start os s → s.peer.httpTask = .live task →
    task.state ≠ .processingCgi → Reaches cfg os ⟨s.request, task, s.peer⟩ h → h.task.FieldsValid
  forward : ∀ os s task h next, Calls cfg events start os s → s.peer.httpTask = .live task →
    task.state ≠ .processingCgi → Reaches cfg os ⟨s.request, task, s.peer⟩ h →
    httpPass cfg os h = .ok (.again next) → next.task.state.rank < h.task.state.rank

/-- What each call of the run is made with meets the demands on it. -/
def CallsWithin (cfg : Config) (events : List PeerEvent) (start : Session) : Prop :=
  ∀ os s task, Calls cfg events start os s → s.peer.httpTask = .live task →
    Handling.Within cfg os ⟨s.request, task, s.peer⟩

section Run

variable {cfg : Config} {events : List PeerEvent} {start s : Session} {os : Os}

private theorem Calls.checked {conn : Nat} (valid : start.Inv) (ordered : Ordered start)
    (owns : start.Owns conn) (allocated : start.Allocated)
    (own : ∀ event ∈ events, event.own = true) (calls : Calls cfg events start os s) :
    ∃ task, s.peer.Inv task ∧
      (task.state ≠ .processingCgi → Handling.Checked ⟨s.request, task, s.peer⟩) := by
  obtain ⟨front, back, rfl, reached, isOpen⟩ := calls
  obtain ⟨task, inv⟩ := sessionRun_inv valid reached isOpen
  have ownFront (event : PeerEvent) (member : event ∈ front) : event.own = true :=
    own event (List.mem_append_left _ member)
  exact ⟨task, inv, Session.checked inv (sessionRun_ordered valid ordered reached)
    (sessionRun_owns valid owns ownFront reached) isOpen
    (sessionRun_allocated valid allocated reached)⟩

end Run

/-- In a slot never used before, the calls of a run pass all their checks exactly when the header
each completes, and the request whose URI it looks at, fit the arrays, and what `access` finds is
found in lower case, with a time and a length that can be printed. -/
theorem passes_checks_iff (cfg : Config) (parses : cfg.parse = parse)
    (request : Ptr RequestCell) (newClientSock : Nat) (clientAddr : Address) (conn : Nat)
    (events : List PeerEvent) (own : ∀ event ∈ events, event.own = true)
    (forks : ∀ os, .call os ∈ events → os.Forks) :
    PassesChecks cfg events (freshSession request createPeer newClientSock clientAddr conn) ↔
      CallsWithin cfg events
        (freshSession request createPeer newClientSock clientAddr conn) := by
  have checked {os : Os} {s : Session}
      (calls : Calls cfg events
        (freshSession request createPeer newClientSock clientAddr conn) os s) :
      os.Forks ∧ ∃ task, s.peer.Inv task ∧
        (task.state ≠ .processingCgi → Handling.Checked ⟨s.request, task, s.peer⟩) := by
    obtain ⟨front, back, split, _, _⟩ := id calls
    refine ⟨forks os (by simp [split]), ?_⟩
    refine calls.checked (freshSession_inv createPeer_vacant request newClientSock clientAddr conn)
      (freshSession_ordered rfl _ _ _ _) (freshSession_owns _ _ _ _ _) ?_ own
    rintro _ ⟨⟩ some
    exact absurd some (Nat.lt_irrefl 0)
  constructor
  · intro passes os s task calls live
    obtain ⟨_, current, inv, start⟩ := checked calls
    cases live.symm.trans inv.live
    obtain ⟨result, called⟩ := passes.ends os s calls
    rcases handleHttp_cases inv.live called with ⟨waiting, _⟩ | ⟨idle, last, _, _, ran⟩
    · refine ⟨fun _ _ state => ?_, fun method request target => ?_⟩
      · cases waiting.symm.trans state
      · simp only [Handling.target, waiting] at target
        cases target
    · exact httpLoop_within parses (start idle) ran
  · intro within
    refine ⟨fun os s calls => ?_, fun os s task h calls live idle reaches => ?_,
      fun os s task h next calls live idle reaches passed => ?_⟩
    · obtain ⟨forks, task, inv, start⟩ := checked calls
      cases called : handleHttp cfg os s.request s.peer with
      | ok result => exact ⟨result, rfl⟩
      | error fault =>
          obtain ⟨last, reaches, fails⟩ := handleHttp_error inv start forks called
          have here := within os s task calls inv.live
          exact ((reaches.within ⟨inv.valid, inv.sending, inv.receiving⟩ here).spares parses
            fails).elim
    · obtain ⟨_, current, inv, start⟩ := checked calls
      cases live.symm.trans inv.live
      exact (reaches.checked (start idle)).fields
    · obtain ⟨_, current, inv, start⟩ := checked calls
      cases live.symm.trans inv.live
      exact (httpPass_cases (reaches.checked (start idle)).inv passed).rank_lt

def fetchText (uri : Bytes) : Bytes := str "GET " ++ uri ++ str " HTTP/1.1\r\n\r\n"

def fetchEvents (uri : Bytes) (os : Os) : List PeerEvent :=
  [.deliver (fetchText uri), .call os]

private def fetchStart (uri : Bytes) : Session :=
  { sampleStart with peer := deliver sampleStart.peer (fetchText uri) }

private theorem fetch_calls {uri : Bytes} {os other : Os} {s : Session}
    (calls : Calls sampleConfig (fetchEvents uri os) sampleStart other s) :
    other = os ∧ s = fetchStart uri := by
  obtain ⟨front, back, split, reached, _⟩ := calls
  match front, split with
  | [_], split =>
      cases split
      cases reached
      exact ⟨rfl, rfl⟩
  | _ :: _ :: _, split =>
      have lengths := congrArg List.length split
      simp [fetchEvents] at lengths

private theorem page_within : Handling.Within sampleConfig (sampleOs true)
    ⟨.null, createHttpTask, (fetchStart (str "/a.html")).peer⟩ := by
  have found : Handling.block ⟨.null, createHttpTask, (fetchStart (str "/a.html")).peer⟩ =
      some (fetchText (str "/a.html"), []) := by decide +kernel
  have looked : Handling.target sampleConfig
      ⟨.null, createHttpTask, (fetchStart (str "/a.html")).peer⟩ =
        some (.get, getOf (str "/a.html")) := by decide +kernel
  have parsed : parse (fetchText (str "/a.html")) = .ok (some (getOf (str "/a.html"))) := by
    decide +kernel
  refine ⟨fun block rest _ same => ?_, fun method request same => ?_⟩
  · cases found.symm.trans same
    exact (headerFits_iff (by decide)).mpr ⟨_, parsed⟩
  · cases looked.symm.trans same
    rw [TargetFits, if_neg (by decide)]
    refine fun _ => ⟨by decide, .inl (by decide), by decide, fun _ => ?_⟩
    have lowered : loweredPath (pathOf sampleConfig.wwwDir
        (withoutSlash (withoutScheme (str "/a.html")))) = str "www/a.html" := by decide
    have told : (sampleOs true).stat (str "www/a.html") = some ⟨2, some sampleTime⟩ := by
      simp [sampleOs]
    rw [getOf, lowered]
    exact ⟨2, sampleTime, told, by decide⟩

theorem passes_checks_iff_page :
    PassesChecks sampleConfig (fetchEvents (str "/a.html") (sampleOs true)) sampleStart := by
  have own : ∀ event ∈ fetchEvents (str "/a.html") (sampleOs true), event.own = true := by
    simp [fetchEvents, PeerEvent.own]
  have forks : ∀ os, .call os ∈ fetchEvents (str "/a.html") (sampleOs true) → os.Forks := by
    simp [fetchEvents, sampleOs, Os.Forks]
  refine (passes_checks_iff sampleConfig rfl .null 5 ⟨str "1.2.3.4", 80⟩ 0 _ own forks).mpr ?_
  intro os s task calls live
  obtain ⟨rfl, rfl⟩ := fetch_calls calls
  cases live
  exact page_within

def lonePathForks (path : Bytes) : Os :=
  { lonePath path with
    stdinPipe := some ⟨8, 9⟩
    stdoutPipe := some ⟨10, 11⟩
    fork := true }

/-- A page that is there in upper case only, which `access` finds and `stat` does not, and a URI of
nothing but the scheme. -/
theorem not_passes_checks :
    (lonePathForks (str "www/logo.PNG")).Forks ∧
      ¬ PassesChecks sampleConfig
        (fetchEvents (str "/logo.PNG") (lonePathForks (str "www/logo.PNG"))) sampleStart ∧
      ¬ PassesChecks sampleConfig
        (fetchEvents (str "http://") (lonePathForks (str "www/logo.PNG"))) sampleStart := by
  have fails (uri : Bytes) (passes : PassesChecks sampleConfig
      (fetchEvents uri (lonePathForks (str "www/logo.PNG"))) sampleStart) :
      ∃ result, handleHttp sampleConfig (lonePathForks (str "www/logo.PNG"))
        (fetchStart uri).request (fetchStart uri).peer = .ok result :=
    passes.ends _ _ ⟨[_], [], rfl, rfl, rfl⟩
  refine ⟨⟨nofun, nofun, rfl⟩, fun passes => ?_, fun passes => ?_⟩
  · obtain ⟨result, called⟩ := fails _ passes
    have stops : (handleHttp sampleConfig (lonePathForks (str "www/logo.PNG"))
        (fetchStart (str "/logo.PNG")).request (fetchStart (str "/logo.PNG")).peer).map Prod.fst =
          .error .indeterminate := by decide +kernel
    rw [called] at stops
    cases stops
  · obtain ⟨result, called⟩ := fails _ passes
    have stops : (handleHttp sampleConfig (lonePathForks (str "www/logo.PNG"))
        (fetchStart (str "http://")).request (fetchStart (str "http://")).peer).map Prod.fst =
          .error (.bounds .httpUri) := by decide +kernel
    rw [called] at stops
    cases stops

end Liso
