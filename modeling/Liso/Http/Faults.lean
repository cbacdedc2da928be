import Liso.Http.Calls

/-! Which faults a call of `handle_http` can end in: the arrays that bytes from the
client are received into are never left, whatever else goes wrong. -/

namespace Liso

/-- A byte from the client stored outside its array. -/
def Fault.ofReceiving : Fault → Bool
  | .bounds .parseBuf => true
  | .bounds .postBody => true
  | _ => false

def Spares {α : Type} (result : Except Fault α) : Prop :=
  ∀ fault, result = .error fault → fault.ofReceiving = false

namespace Spares

variable {α β : Type} {result : Except Fault α}

theorem ok (value : α) : Spares (.ok value) := FailsOnly.ok value

theorem error {fault : Fault} (other : fault.ofReceiving = false) :
    Spares (.error fault : Except Fault α) := FailsOnly.error other

theorem bind {next : α → Except Fault β} (first : Spares result) (later : ∀ a, Spares (next a)) :
    Spares (result >>= next) := FailsOnly.bind first later

theorem ite {first second : Except Fault α} {p : Prop} [Decidable p] (yes : Spares first)
    (no : Spares second) : Spares (if p then first else second) := FailsOnly.ite yes no

end Spares

def Fault.ofText : Fault → Bool
  | .bounds .parseBuf => false
  | .bounds .postBody => false
  | .bounds _ => true
  | _ => false

theorem Fault.ofText_bounds {fault : Fault} (text : fault.ofText = true) :
    ∃ array, fault = .bounds array := by
  cases fault with
  | bounds array => exact ⟨array, rfl⟩
  | _ => cases text

def TextFails {α : Type} (result : Except Fault α) : Prop :=
  FailsOnly (fun fault => fault.ofText = true) result

theorem TextFails.spares {α : Type} {result : Except Fault α} (fails : TextFails result) :
    Spares result := by
  refine fails.mono fun fault text => ?_
  obtain ⟨array, rfl⟩ := Fault.ofText_bounds text
  cases array <;> first | rfl | cases text

theorem strcpy_text {array : CArray} (text : (Fault.bounds array).ofText = true) (capacity : Nat)
    (source : Bytes) : TextFails (strcpy array capacity source) := by
  unfold strcpy
  exact .ite (.ok _) (.error text)

theorem removeRedundancyFromUri_fails (uri : Bytes) : TextFails (removeRedundancyFromUri uri) := by
  have chop : TextFails (chopN uri (str "http://").length) := by
    rw [chopN, if_neg (by decide)]
    exact .ite (.ok _) (.ok _)
  unfold removeRedundancyFromUri
  refine .ite (chop.bind fun uri => ?_) ((FailsOnly.ok uri).bind fun uri => ?_)
  all_goals
    dsimp only
    split
    · exact .error rfl
    · exact .ok _

theorem makeFullPath_fails (wwwDir : Bytes) (request : Request) :
    TextFails (makeFullPath wwwDir request) := by
  have isDir (path : Bytes) : TextFails (requestedPathIsDir path) := by
    unfold requestedPathIsDir
    split
    · exact .error rfl
    · exact .ok _
  have joined (path more : Bytes) : TextFails (strcatPath path more) := strcpy_text rfl _ _
  unfold makeFullPath
  refine (strcpy_text rfl _ _).bind fun fullPath => ?_
  refine (removeRedundancyFromUri_fails _).bind fun uri => ?_
  refine .ite (.ite (.error rfl) ?_) ?_
  all_goals
    refine (joined _ _).bind fun fullPath => (isDir _).bind fun dir => ?_
    exact .ite ((joined _ _).bind fun _ => .ok _) (.ok _)

theorem buildCgiParam_fails (cgiScripts : Bytes) (request : Request) (hap : Address) :
    TextFails (buildCgiParam cgiScripts request hap) := by
  have field (name value : Bytes) : TextFails (setEnvpFieldByStr name value) :=
    strcpy_text rfl _ _
  unfold buildCgiParam
  refine (FailsOnly.mapM fun _ => field _ _).bind fun fixed => ?_
  refine FailsOnly.bind ?_ fun uriFields => (FailsOnly.mapM fun _ => field _ _).bind fun headers =>
    (field _ _).bind fun remote => (field _ _).bind fun port => .ok _
  unfold envpUriFields
  split
  · refine (strcpy_text rfl _ _).bind fun _ => (field _ _).bind fun _ => ?_
    exact (strcpy_text rfl _ _).bind fun _ => (field _ _).bind fun _ => .ok _
  · refine (field _ _).bind fun _ => ?_
    exact (strcpy_text rfl _ _).bind fun _ => (field _ _).bind fun _ => .ok _

section Heads

variable (task : HttpTask)

private theorem writeAll_spares (text : Bytes) : Spares (task.writeAll text) := by
  unfold HttpTask.writeAll
  exact .ite (.ok _) (.error rfl)

private theorem statusLine_spares (code reason : Bytes) :
    Spares (generateResponseStatusLine task code reason) := by
  unfold generateResponseStatusLine
  exact writeAll_spares _ _

private theorem header_spares (hname hvalue : Bytes) :
    Spares (generateResponseHeader task hname hvalue) := by
  unfold generateResponseHeader
  refine (writeAll_spares _ _).bind fun _ => (writeAll_spares _ _).bind fun _ => ?_
  refine (writeAll_spares _ _).bind fun _ => (writeAll_spares _ _).bind fun _ => ?_
  exact writeAll_spares _ _

private theorem msg_spares (text : Bytes) : Spares (generateResponseMsg task text) := by
  unfold generateResponseMsg
  exact .ite (.ok _) (.error rfl)

theorem generateNonbodyResponse_spares (responseCode : Int) :
    Spares (generateNonbodyResponse task responseCode) := by
  have closing (code reason : Bytes) : Spares (generateClosingResponse task code reason) := by
    unfold generateClosingResponse
    refine (statusLine_spares _ _ _).bind fun _ => (header_spares _ _ _).bind fun _ => ?_
    exact (msg_spares _ _).bind fun _ => .ok _
  have plain : Spares (do
      let task ← generateResponseStatusLine task (str "200") (str "OK")
      let task ← generateResponseHeader task (str "Server") serverName
      return (HttpState.sendHeader, task)) :=
    (statusLine_spares _ _ _).bind fun _ => (header_spares _ _ _).bind fun _ => .ok _
  have missing : Spares (do
      let task ← generateResponseStatusLine task (str "404") (str "Not Found")
      let task ← generateResponseMsg task crlf
      return (HttpState.sendHeader, task)) :=
    (statusLine_spares _ _ _).bind fun _ => (msg_spares _ _).bind fun _ => .ok _
  unfold generateNonbodyResponse
  refine .ite (.error rfl) (.ite plain (.ite (closing _ _) (.ite missing ?_)))
  exact .ite (closing _ _) (.ite (closing _ _) (.ite (closing _ _) (.ite (closing _ _) (.ok _))))

private theorem getFileLen_spares (os : Os) (fullpath : Bytes) : Spares (getFileLen os fullpath) := by
  unfold getFileLen
  split
  · exact .error rfl
  · exact .ok _

private theorem getFlmodified_spares (os : Os) (path : Bytes) : Spares (getFlmodified os path) := by
  unfold getFlmodified
  split
  · exact .error rfl
  · split
    · exact .error rfl
    · exact .ok _

theorem generateGetHeader_spares (cfg : Config) (os : Os) (request : Request) (lastReq : Bool) :
    Spares (generateGetHeader cfg os task request lastReq) := by
  unfold generateGetHeader
  refine (makeFullPath_fails _ _).spares.bind fun (fullpath, request) => ?_
  refine .ite (.ok _) ?_
  refine (getFileLen_spares _ _).bind fun _ => (strcpy_text rfl _ _).spares.bind fun _ => ?_
  refine (getFlmodified_spares _ _).bind fun _ => (statusLine_spares _ _ _).bind fun _ => ?_
  refine (header_spares _ _ _).bind fun _ => (header_spares _ _ _).bind fun _ => ?_
  refine (header_spares _ _ _).bind fun _ => (header_spares _ _ _).bind fun _ => ?_
  refine (header_spares _ _ _).bind fun _ => (header_spares _ _ _).bind fun _ => ?_
  refine (msg_spares _ _).bind fun _ => ?_
  split <;> exact .ok _

end Heads

section Passes

variable {cfg : Config} {os : Os} {h : Handling}

private theorem startCgi_spares (request : Request) : Spares (startCgi cfg os h request) := by
  unfold startCgi
  refine (buildCgiParam_fails _ _ _).spares.bind fun param => ?_
  refine Spares.bind ?_ fun body => Spares.bind ?_ fun peer => .ok _
  · unfold cgiBody
    split
    · split
      · exact .error rfl
      · exact .ok _
    · exact .ok _
  · unfold startCgiScript
    split
    · split
      · split
        · exact .ok _
        · exact .error rfl
      · exact .error rfl
    · exact .error rfl

private theorem checkCgi_spares : Spares (checkCgiState cfg os h) := by
  unfold checkCgiState
  cases h.request with
  | null => exact .error rfl
  | freed => exact .error rfl
  | live cell =>
      refine .ite (startCgi_spares _) ?_
      unfold checkStatic
      exact .ite ((generateGetHeader_spares _ _ _ _ _).bind fun _ => .ok _) (.ok _)

private theorem sendBody_spares : Spares (sendBodyState h) := by
  have streamed : Spares (streamFileContent h.task h.peer) := by
    unfold streamFileContent
    refine .ite (.ok _) ?_
    cases h.task.fp with
    | null => exact .error rfl
    | freed => exact .error rfl
    | live file => exact .ok _
  unfold sendBodyState
  refine .ite (.error rfl) ?_
  split
  · next failed => exact .error (streamed _ failed)
  all_goals exact .ok _

private theorem sendHeader_spares : Spares (sendHeaderState h) := by
  unfold sendHeaderState
  refine .ite (.ok _) (.ite (.ok _) ?_)
  split
  all_goals first | exact .ok _ | exact .error rfl

private theorem recvHeader_receives {fault : Fault} (inv : h.Inv)
    (state : h.task.state = .recvHeader) (failed : recvHeaderState cfg h = .error fault)
    (receiving : fault.ofReceiving = true) : ∃ block, cfg.parse block = .error fault := by
  obtain ⟨_, status, next, left, _, _, ran, _⟩ := inv.headerRead state
  unfold recvHeaderState at failed
  split at failed
  · cases failed
    cases receiving
  · simp only [ran] at failed
    cases status with
    | emptyRecvBuf => cases failed
    | parserBufOverflow => cases failed
    | ready =>
        simp only at failed
        cases parsed : cfg.parse (next.parseBuf.read next.parseBufIdx) with
        | error other =>
            simp only [parsed] at failed
            cases failed
            exact ⟨_, parsed⟩
        | ok answer =>
            cases answer with
            | none =>
                simp only [parsed] at failed
                cases failed
            | some request =>
                simp only [parsed] at failed
                have taken : Spares
                    (takeRequest cfg { next with requests := next.requests + 1 } request) := by
                  unfold takeRequest
                  refine .ite (.ok _) (.ite (.ok _) (.ite ?_ (.ok _)))
                  exact .ite (.ok _) (.ite (.ok _) (.ite (.error rfl) (.ok _)))
                split at failed
                · next other took =>
                    cases failed
                    rw [taken _ took] at receiving
                    cases receiving
                · cases failed

theorem recvBody_ok (inv : h.Inv) (state : h.task.state = .recvBody) :
    ∃ pass, recvBodyState h = .ok pass := by
  obtain ⟨_, whole, next, left, _, ran, _⟩ := inv.bodyRead state
  rw [recvBodyState, ran]
  cases whole <;> exact ⟨_, rfl⟩

theorem httpPass_receives {fault : Fault} (inv : h.Inv) (failed : httpPass cfg os h = .error fault)
    (receiving : fault.ofReceiving = true) : ∃ block, cfg.parse block = .error fault := by
  have contradiction (spared : Spares (httpPass cfg os h)) :
      ∃ block, cfg.parse block = .error fault := by
    rw [spared fault failed] at receiving
    cases receiving
  unfold httpPass at failed contradiction
  cases state : h.task.state with
  | recvHeader =>
      simp only [state] at failed
      exact recvHeader_receives inv state failed receiving
  | recvBody =>
      simp only [state] at failed
      obtain ⟨pass, ran⟩ := recvBody_ok inv state
      cases ran.symm.trans failed
  | generateHeader =>
      apply contradiction
      simp only [state, generateHeaderState]
      split
      · next wrong => exact .error (generateNonbodyResponse_spares _ _ _ wrong)
      · exact .ok _
  | sendHeader =>
      apply contradiction
      simp only [state]
      exact sendHeader_spares
  | checkCgi =>
      apply contradiction
      simp only [state]
      exact checkCgi_spares
  | sendBody =>
      apply contradiction
      simp only [state]
      exact sendBody_spares
  | processingCgi =>
      apply contradiction
      simp only [state]
      exact .error rfl
  | finished =>
      apply contradiction
      simp only [state]
      exact .error rfl

theorem httpLoop_receives {fuel : Nat} {fault : Fault} (inv : h.Inv)
    (ran : httpLoop cfg os fuel h = some (.error fault)) (receiving : fault.ofReceiving = true) :
    ∃ block, cfg.parse block = .error fault := by
  induction fuel generalizing h with
  | zero => cases ran
  | succ fuel ih =>
      rw [httpLoop] at ran
      split at ran
      · have finished : Spares (finishRequest h) := by
          unfold finishRequest freeRequest
          cases h.request with
          | null => exact .ok _
          | live cell => exact .ok _
          | freed => exact .error rfl
        rw [finished fault (Option.some.inj ran)] at receiving
        cases receiving
      · cases passed : httpPass cfg os h with
        | error other =>
            simp only [passed] at ran
            cases ran
            exact httpPass_receives inv passed receiving
        | ok pass =>
            simp only [passed] at ran
            cases pass with
            | returns code next => cases ran
            | again next => exact ih ((httpPass_cases inv passed).valid inv) ran

theorem handleHttp_receives {request : Ptr RequestCell} {peer : Peer} {fault : Fault}
    (inv : ∀ task, peer.httpTask = .live task → Handling.Inv ⟨request, task, peer⟩)
    (failed : handleHttp cfg os request peer = .error fault) (receiving : fault.ofReceiving = true) :
    ∃ block, cfg.parse block = .error fault := by
  unfold handleHttp at failed
  cases live : peer.httpTask with
  | null =>
      simp only [live] at failed
      cases failed
      cases receiving
  | freed =>
      simp only [live] at failed
      cases failed
      cases receiving
  | live task =>
      simp only [live] at failed
      split at failed
      · cases failed
      · cases ran : httpLoop cfg os 7 ⟨request, task, peer⟩ with
        | none =>
            simp only [ran] at failed
            cases failed
            cases receiving
        | some result =>
            simp only [ran] at failed
            cases result with
            | error other =>
                cases failed
                exact httpLoop_receives (inv task live) ran receiving
            | ok answer => cases failed

end Passes

end Liso
