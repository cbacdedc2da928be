import Liso.Http.Outcomes

/-! Response heads: what the response buffer holds when a task first comes to
SEND_HEADER_STATE. -/

namespace Liso

def Plain (text : Bytes) : Prop := ∀ c ∈ text, c ≠ cl ∧ c ≠ rf

instance (text : Bytes) : Decidable (Plain text) := List.decidableBAll _ _

def headerLines (headers : List (Bytes × Bytes)) : List Bytes :=
  headers.map fun (hname, hvalue) => headerLine hname hvalue

/-- One status line with the code, header lines, one blank line, and nothing else. -/
def WellFormedHead (responseCode : Int) (head : Bytes) : Prop :=
  ∃ reason headers, Plain reason ∧
    (∀ hname hvalue, (hname, hvalue) ∈ headers →
      hname ≠ [] ∧ Plain hname ∧ 0x3a ∉ hname ∧ Plain hvalue) ∧
    head = statusLine (str (toString responseCode)) reason ++
      ((headerLines headers).flatten ++ crlf)

theorem Plain.append {front back : Bytes} (first : Plain front) (second : Plain back) :
    Plain (front ++ back) := by
  intro c member
  rcases List.mem_append.mp member with before | after
  · exact first c before
  · exact second c after

private theorem plain_natural (value : Nat) : Plain (str (toString value)) := by
  intro c member
  obtain ⟨digit, isDigit, rfl⟩ := List.mem_map.mp member
  rw [Nat.toString_eq_repr, Nat.toList_repr] at isDigit
  have decimal := Nat.isDigit_of_mem_toDigits (by decide) (by decide) isDigit
  simp only [Char.isDigit_iff_toNat, show '0'.toNat = 48 from rfl, show '9'.toNat = 57 from rfl]
    at decimal
  have kept : (UInt8.ofNat digit.toNat).toNat = digit.toNat := by
    rw [UInt8.toNat_ofNat']
    omega
  constructor
  · intro same
    rw [same, show cl.toNat = 13 from rfl] at kept
    omega
  · intro same
    rw [same, show rf.toNat = 10 from rfl] at kept
    omega

theorem plain_number (value : Int) : Plain (str (toString value)) := by
  cases value with
  | ofNat value => exact plain_natural value
  | negSucc value =>
      have shown : toString (Int.negSucc value) = "-" ++ toString (value + 1) := rfl
      have sign : Plain (str "-") := by decide
      have joined : str (toString (Int.negSucc value)) = str "-" ++ str (toString (value + 1)) := by
        rw [shown, str, String.toList_append, List.map_append]
        rfl
      rw [joined]
      exact sign.append (plain_natural _)

theorem statusLine_isLine {code reason : Bytes} (plainCode : Plain code)
    (plainReason : Plain reason) : IsLine (statusLine code reason) := by
  refine ⟨httpVersion ++ sp ++ code ++ sp ++ reason, ?_, ?_, rfl⟩
  · simp [httpVersion, str]
  · have version : Plain (httpVersion ++ sp) := by decide
    have space : Plain sp := by decide
    exact ((version.append plainCode).append space).append plainReason

theorem headerLine_isLine {hname hvalue : Bytes} (nonempty : hname ≠ []) (plainName : Plain hname)
    (plainValue : Plain hvalue) : IsLine (headerLine hname hvalue) := by
  refine ⟨hname ++ colon ++ sp ++ hvalue, by simp [nonempty], ?_, rfl⟩
  have mark : Plain colon := by decide
  have space : Plain sp := by decide
  exact ((plainName.append mark).append space).append plainValue

theorem WellFormedHead.cut {responseCode : Int} {head : Bytes}
    (formed : WellFormedHead responseCode head) (rest : Bytes) :
    Matcher.cutAfter terminator (head ++ rest) = some (head, rest) := by
  obtain ⟨reason, headers, plain, proper, rfl⟩ := formed
  apply cutAfter_lines _ _ _ (statusLine_isLine (plain_number _) plain)
  intro line member
  obtain ⟨⟨hname, hvalue⟩, isHeader, rfl⟩ := List.mem_map.mp member
  obtain ⟨nonempty, plainName, _, plainValue⟩ := proper hname hvalue isHeader
  exact headerLine_isLine nonempty plainName plainValue

theorem WellFormedHead.not_twice {first second : Int} {head back : Bytes}
    (formed : WellFormedHead first head) (more : back ≠ []) :
    ¬ WellFormedHead second (head ++ back) := by
  intro both
  have cut := both.cut []
  rw [List.append_nil, formed.cut back] at cut
  exact more (Prod.mk.inj (Option.some.inj cut)).2

private theorem closingHead_formed (responseCode : Int) {reason : Bytes} (plain : Plain reason) :
    WellFormedHead responseCode (closingHead (str (toString responseCode)) reason) := by
  refine ⟨reason, [(connection, close)], plain, ?_, ?_⟩
  · intro hname hvalue member
    cases List.mem_singleton.mp member
    decide
  · simp [closingHead, headerLines]

theorem nonbodyHead_formed {responseCode : Int} (valid : validResponseCode responseCode = true)
    (error : responseCode ≠ okNum) : WellFormedHead responseCode (nonbodyHead responseCode) := by
  rcases validResponseCode_cases valid with rfl | rfl | rfl | rfl | rfl | rfl | rfl
  · exact absurd rfl error
  · exact ⟨str "Not Found", [], by decide, nofun, rfl⟩
  all_goals exact closingHead_formed _ (by decide)

theorem okHead_open : ¬ WellFormedHead okNum (nonbodyHead okNum) := by
  intro formed
  have cut := formed.cut []
  rw [List.append_nil, show Matcher.cutAfter terminator (nonbodyHead okNum) = none by decide] at cut
  cases cut

def getHeaders (os : Os) (file : Described) (fullpath : Bytes) (lastReq : Bool) : List (Bytes × Bytes) :=
  [(str "Server", serverName), (str "Date", os.currTime.text),
   (str "Content-Length", str (toString file.size)), (str "Content-Type", mimeOfPath fullpath),
   (str "Last-modified", file.modified.text),
   (connection, if lastReq then close else keepAlive)]

theorem getHead_lines (os : Os) (file : Described) (fullpath : Bytes) (lastReq : Bool) :
    getHead os file fullpath lastReq = statusLine (str "200") (str "OK") ++
      ((headerLines (getHeaders os file fullpath lastReq)).flatten ++ crlf) := by
  simp [getHead, getHeaders, headerLines]

theorem getHeaders_proper (os : Os) (file : Described) (fullpath : Bytes) (lastReq : Bool) :
    ∀ hname hvalue, (hname, hvalue) ∈ getHeaders os file fullpath lastReq →
      hname ≠ [] ∧ Plain hname ∧ 0x3a ∉ hname ∧ Plain hvalue := by
  have time (t : TimeText) : Plain t.text := fun c member =>
    ⟨(t.plain c member).1, (t.plain c member).2.1⟩
  have mime (text : Bytes) : Plain (getMimeType text) := by
    simp only [getMimeType]
    split_ifs <;> decide
  have connected : Plain (if lastReq then close else keepAlive) := by cases lastReq <;> decide
  intro hname hvalue member
  simp only [getHeaders, List.mem_cons, Prod.mk.injEq, List.not_mem_nil, or_false] at member
  rcases member with ⟨rfl, rfl⟩ | ⟨rfl, rfl⟩ | ⟨rfl, rfl⟩ | ⟨rfl, rfl⟩ | ⟨rfl, rfl⟩ | ⟨rfl, rfl⟩
  · decide
  · exact ⟨by decide, by decide, by decide, time _⟩
  · exact ⟨by decide, by decide, by decide, plain_natural _⟩
  · exact ⟨by decide, by decide, by decide, mime _⟩
  · exact ⟨by decide, by decide, by decide, time _⟩
  · exact ⟨by decide, by decide, by decide, connected⟩

theorem getHead_formed (os : Os) (file : Described) (fullpath : Bytes) (lastReq : Bool) :
    WellFormedHead okNum (getHead os file fullpath lastReq) :=
  ⟨str "OK", getHeaders os file fullpath lastReq, by decide,
    getHeaders_proper os file fullpath lastReq, getHead_lines os file fullpath lastReq⟩

def cannotOpen (cfg : Config) (os : Os) (request : Request) : Bool :=
  match makeFullPath cfg.wwwDir request with
  | .error _ => false
  | .ok (fullpath, _) => os.access fullpath && (os.fopen (loweredPath fullpath)).isNone

def misshapen (cfg : Config) (os : Os) (request : Request) : Bool :=
  (bodyLength cfg request).isSome || fetches request && cannotOpen cfg os request

private theorem HeadOutcome.formed {cfg : Config} {os : Os} {request : Request}
    {responseCode : Int} {head : Bytes} (outcome : HeadOutcome cfg os request responseCode head) :
    WellFormedHead responseCode head ↔ misshapen cfg os request = false := by
  have error {code : Int} (valid : validResponseCode code = true) (failed : code ≠ okNum)
      (shapely : misshapen cfg os request = false) :
      WellFormedHead code (nonbodyHead code) ↔ misshapen cfg os request = false :=
    iff_of_true (nonbodyHead_formed valid failed) shapely
  cases outcome with
  | refused post noBody =>
      exact error rfl (by decide) (by simp [misshapen, noBody, post_fetches post])
  | unknown other =>
      obtain ⟨notFetched, noBody⟩ : fetches request = false ∧ bodyLength cfg request = none :=
        unknown_fetches other
      exact error rfl (by decide) (by simp [misshapen, noBody, notFetched])
  | posted hasBody =>
      have bad : misshapen cfg os request = true := by
        simp [misshapen, Option.isSome_iff_ne_none.mpr hasBody]
      exact iff_of_false okHead_open (by simp [bad])
  | missing fetched path absent =>
      have noBody : bodyLength cfg request = none := fetches_noBody fetched
      exact error rfl (by decide) (by simp [misshapen, noBody, cannotOpen, path, absent])
  | @unopened fullpath _ facts fetched path present described noFile =>
      have bad : misshapen cfg os request = true := by
        simp [misshapen, fetched, cannotOpen, path, present, noFile]
      have first := getHead_formed os facts fullpath (asksClose request)
      exact iff_of_false (first.not_twice (by decide)) (by simp [bad])
  | @opened fullpath _ facts file fetched path present described hasFile =>
      have noBody : bodyLength cfg request = none := fetches_noBody fetched
      apply iff_of_true (getHead_formed os facts fullpath _)
      simp [misshapen, noBody, cannotOpen, path, hasFile]

/-- From the pass that takes a request to SEND_HEADER_STATE, one well-formed head is written exactly
when the request is not a POST with a body, and its file, if there is one, can be opened. -/
theorem head_formed_iff {cfg : Config} {first os : Os} {h taken last : Handling}
    {cell : RequestCell} (inv : h.Inv) (state : h.task.state = .recvHeader)
    (pass : httpPass cfg first h = .ok (.again taken)) (live : taken.request = .live cell)
    (enters : Enters cfg os taken last) :
    WellFormedHead last.task.responseCode (responseHead last.task) ↔
      misshapen cfg os cell.request = false :=
  (enters.outcome inv state pass live).formed

/-- Every way in which the next request from `h` comes to SEND_HEADER_STATE gives a well-formed
head. -/
def FormsHead (cfg : Config) (os : Os) (h : Handling) : Prop :=
  ∀ first taken cell last, httpPass cfg first h = .ok (.again taken) →
    taken.request = .live cell → Enters cfg os taken last →
    WellFormedHead last.task.responseCode (responseHead last.task)

def inOnePiece (text : Bytes) : Handling :=
  ⟨.null, createHttpTask,
    { createPeer with receivingBuffer := (bufWrite createPeer.receivingBuffer text).2 }⟩

theorem inOnePiece_inv (text : Bytes) (fits : text.length ≤ bufDataMaxsize) :
    (inOnePiece text).Inv := by
  have fresh : createPeer.receivingBuffer.Inv := Cbuf.reset_inv _
  have room : createPeer.receivingBuffer.content.length + text.length ≤ bufDataMaxsize := by
    change 0 + text.length ≤ bufDataMaxsize
    omega
  obtain ⟨receivingBuffer, wrote, inv, _⟩ := fresh.write_fits text room
  refine ⟨resetHttpTask_inv rfl, Cbuf.reset_inv _, ?_⟩
  rw [inOnePiece, wrote]
  exact inv

def goesOn (cfg : Config) (os : Os) (h : Handling) : Option Handling :=
  match httpPass cfg os h with
  | .ok (.again next) => some next
  | _ => none

theorem goesOn_pass {cfg : Config} {os : Os} {h next : Handling}
    (went : goesOn cfg os h = some next) : httpPass cfg os h = .ok (.again next) := by
  unfold goesOn at went
  split at went
  · next pass =>
      cases went
      exact pass
  · cases went

def passesToHead (cfg : Config) (os : Os) : Nat → Handling → Option Handling
  | 0, _ => none
  | fuel + 1, h =>
      if h.task.state = .sendHeader then some h
      else
        match httpPass cfg os h with
        | .ok (.again next) => passesToHead cfg os fuel next
        | _ => none

def headOf (cfg : Config) (os : Os) (h : Handling) : Option (Request × Int × Bytes) :=
  match httpPass cfg os h with
  | .ok (.again taken) =>
      match taken.request, passesToHead cfg os 6 taken with
      | .live cell, some last => some (cell.request, last.task.responseCode, responseHead last.task)
      | _, _ => none
  | _ => none

theorem passesToHead_enters {cfg : Config} {os : Os} {fuel : Nat} {h last : Handling}
    (ran : passesToHead cfg os fuel h = some last) : Enters cfg os h last := by
  induction fuel generalizing h with
  | zero => cases ran
  | succ fuel ih =>
      rw [passesToHead] at ran
      split at ran
      · next state =>
          cases ran
          exact .arrives state
      · next before =>
          split at ran
          · next pass => exact .goesOn before pass (ih ran)
          · cases ran

theorem headOf_enters {cfg : Config} {os : Os} {h : Handling} {request : Request} {code : Int}
    {head : Bytes} (ran : headOf cfg os h = some (request, code, head)) :
    ∃ taken cell last, httpPass cfg os h = .ok (.again taken) ∧ taken.request = .live cell ∧
      cell.request = request ∧ Enters cfg os taken last ∧ last.task.responseCode = code ∧
      responseHead last.task = head := by
  unfold headOf at ran
  split at ran
  · next taken pass =>
      split at ran
      · next cell last live reached =>
          cases ran
          exact ⟨taken, cell, last, pass, live, rfl, passesToHead_enters reached, rfl, rfl⟩
      · cases ran
  · cases ran

theorem headOf_not_formed {cfg : Config} {os : Os} {h : Handling}
    (ran : (headOf cfg os h).any fun (_, _, head) =>
      Matcher.cutAfter terminator head ≠ some (head, [])) : ¬ FormsHead cfg os h := by
  intro forms
  obtain ⟨⟨request, code, head⟩, reached, twice⟩ := (Option.any_eq_true _ _).mp ran
  obtain ⟨taken, cell, last, pass, live, _, enters, rfl, rfl⟩ := headOf_enters reached
  have ended := (forms os taken cell last pass live enters).cut []
  rw [List.append_nil] at ended
  simp [ended] at twice

def getFile : Handling := inOnePiece (str "GET /a.html HTTP/1.1\r\n\r\n")

def postNothing : Handling :=
  inOnePiece (str "POST / HTTP/1.1\r\nContent-Length: 0\r\n\r\n")

theorem head_formed_iff_opened : ∃ last : Handling, last.task.responseCode = okNum ∧
    WellFormedHead last.task.responseCode (responseHead last.task) := by
  have reached : ((headOf sampleConfig (sampleOs true) getFile).map fun (request, code, _) =>
      (misshapen sampleConfig (sampleOs true) request, code)) = some (false, okNum) := by
    decide +kernel
  obtain ⟨⟨request, code, head⟩, ran, shape⟩ := Option.map_eq_some_iff.mp reached
  simp only [Prod.mk.injEq] at shape
  obtain ⟨taken, cell, last, pass, live, rfl, enters, same, _⟩ := headOf_enters ran
  refine ⟨last, same.trans shape.2, ?_⟩
  exact (head_formed_iff (inOnePiece_inv _ (by decide)) rfl pass live enters).mpr shape.1

/-- A file that cannot be opened has a 200 head in front of the 500 head, and the head of a POST
is never ended. -/
theorem head_not_formed : ¬ FormsHead sampleConfig (sampleOs false) getFile ∧
    ¬ FormsHead sampleConfig (sampleOs false) postNothing :=
  ⟨headOf_not_formed (by decide +kernel), headOf_not_formed (by decide +kernel)⟩

end Liso
