import Liso.Http.Heads
import Liso.Server.Session

/-! What a response says about the connection, and what the call that completes it
returns. -/

namespace Liso

def linesOf : Bytes → List Bytes
  | [] => []
  | c :: rest =>
      if c = rf then [c] :: linesOf rest
      else
        match linesOf rest with
        | [] => [[c]]
        | line :: more => (c :: line) :: more

theorem linesOf_line {text : Bytes} (plain : Plain text) (rest : Bytes) :
    linesOf (text ++ crlf ++ rest) = (text ++ crlf) :: linesOf rest := by
  induction text with
  | nil => simp [crlf, linesOf, cl, rf]
  | cons c text ih =>
      have notEnd : c ≠ rf := (plain c List.mem_cons_self).2
      have tail := ih fun d member => plain d (List.mem_cons_of_mem c member)
      simp only [List.cons_append, linesOf, if_neg notEnd]
      rw [tail]

theorem linesOf_head {code reason : Bytes} {headers : List (Bytes × Bytes)} (rest : Bytes)
    (plainCode : Plain code) (plainReason : Plain reason)
    (proper : ∀ hname hvalue, (hname, hvalue) ∈ headers → Plain hname ∧ Plain hvalue) :
    linesOf (statusLine code reason ++ ((headerLines headers).flatten ++ crlf) ++ rest) =
      statusLine code reason :: (headerLines headers ++ [crlf]) ++ linesOf rest := by
  have version : Plain (httpVersion ++ sp) := by decide
  have space : Plain sp := by decide
  have mark : Plain (colon ++ sp) := by decide
  have lines : linesOf ((headerLines headers).flatten ++ crlf ++ rest) =
      headerLines headers ++ crlf :: linesOf rest := by
    induction headers with
    | nil =>
        have none : Plain [] := by decide
        exact linesOf_line none rest
    | cons header headers ih =>
        obtain ⟨hname, hvalue⟩ := header
        obtain ⟨plainName, plainValue⟩ := proper hname hvalue List.mem_cons_self
        have later := ih fun name value member => proper name value (List.mem_cons_of_mem _ member)
        have first := linesOf_line ((plainName.append mark).append plainValue)
          ((headerLines headers).flatten ++ crlf ++ rest)
        rw [later] at first
        simpa [headerLines, headerLine] using first
  have first := linesOf_line (((version.append plainCode).append space).append plainReason)
    ((headerLines headers).flatten ++ crlf ++ rest)
  rw [lines] at first
  simpa [statusLine] using first

theorem headerLine_name {hname : Bytes} (noColon : 0x3a ∉ hname) (hvalue : Bytes) :
    (headerLine hname hvalue).takeWhile (· ≠ 0x3a) = hname := by
  have all : ∀ c ∈ hname, decide (c ≠ 0x3a) = true := by
    intro c member
    apply decide_eq_true
    rintro rfl
    exact noColon member
  have shape : headerLine hname hvalue = hname ++ (0x3a :: (sp ++ hvalue ++ crlf)) := by
    simp [headerLine, colon, str]
  rw [shape, List.takeWhile_append_of_pos all]
  simp

def saysClose (head : Bytes) : Bool := headerLine connection close ∈ linesOf head

theorem saysClose_getHead (os : Os) (file : Described) (fullpath rest : Bytes) (lastReq : Bool) :
    saysClose (getHead os file fullpath lastReq ++ rest) = (lastReq || saysClose rest) := by
  have proper (hname hvalue : Bytes)
      (member : (hname, hvalue) ∈ getHeaders os file fullpath lastReq) : Plain hname ∧ Plain hvalue :=
    ⟨(getHeaders_proper os file fullpath lastReq hname hvalue member).2.1,
      (getHeaders_proper os file fullpath lastReq hname hvalue member).2.2.2⟩
  have other {hname hvalue : Bytes} (noColon : 0x3a ∉ hname) (named : hname ≠ connection) :
      headerLine connection close ≠ headerLine hname hvalue := by
    intro same
    have names := congrArg (List.takeWhile (· ≠ 0x3a)) same
    rw [headerLine_name noColon, headerLine_name (by decide)] at names
    exact named names.symm
  have status : headerLine connection close ≠ statusLine (str "200") (str "OK") := by decide
  have last : headerLine connection close =
      headerLine connection (if lastReq then close else keepAlive) ↔ lastReq = true := by
    cases lastReq <;> decide
  have blank : headerLine connection close ≠ crlf := by decide
  rw [saysClose, getHead_lines, linesOf_head rest (by decide) (by decide) proper, saysClose,
    Bool.eq_iff_iff, Bool.or_eq_true, decide_eq_true_eq, decide_eq_true_eq, List.mem_append,
    List.mem_cons, List.mem_append, List.mem_singleton]
  simp only [headerLines, getHeaders, List.map_cons, List.map_nil, List.mem_cons,
    List.not_mem_nil, or_false, status, blank, false_or, last]
  simp only [other (show 0x3a ∉ str "Server" by decide) (by decide),
    other (show 0x3a ∉ str "Date" by decide) (by decide),
    other (show 0x3a ∉ str "Content-Length" by decide) (by decide),
    other (show 0x3a ∉ str "Content-Type" by decide) (by decide),
    other (show 0x3a ∉ str "Last-modified" by decide) (by decide), false_or]

/-- The passes and calls from `h` to the one that completes the request, with the code it
returns. -/
inductive Completes (cfg : Config) : Handling → Code → Handling → Prop
  | finishes {h next : Handling} {code : Code} (state : h.task.state = .finished)
      (done : finishRequest h = .ok (code, next)) : Completes cfg h code next
  | goesOn {os : Os} {h middle next : Handling} {code : Code}
      (pass : httpPass cfg os h = .ok (.again middle)) (later : Completes cfg middle code next) :
      Completes cfg h code next
  | waits {os : Os} {h stopped next : Handling} {told code : Code} {request : Ptr RequestCell}
      {peer : Peer} (pass : httpPass cfg os h = .ok (.returns told stopped))
      (stays : told ≠ .closeConnImmediately)
      (later : Completes cfg ⟨request, stopped.task, peer⟩ code next) : Completes cfg h code next

theorem Completes.code {cfg : Config} {h next : Handling} {code : Code}
    (completes : Completes cfg h code next) : code = .keepConn := by
  induction completes with
  | finishes state done => exact (finishRequest_cases done).1
  | goesOn pass later ih => exact ih
  | waits pass stays later ih => exact ih

def announcesClose (request : Request) (head : Bytes) : Bool := asksClose request || saysClose head

/-- `handle_http` returns what was announced, and parses nothing after the end was. -/
structure KeepsWord (cfg : Config) (announced : Bool) (code : Code) (next : Handling) : Prop where
  told : code = if announced then .closeConn else .keepConn
  silent : announced = true → ∀ events s,
    sessionRun cfg events
      (afterCall code next.request { next.peer with httpTask := .live next.task }) = .ok s →
    Trace.blocks s.peer.trace = Trace.blocks next.peer.trace

/-- The requests whose response announces the end: they ask for it, are not GET, HEAD or POST, or
a POST without a length, or their file is there and cannot be opened. -/
def closing (cfg : Config) (os : Os) (request : Request) : Bool :=
  asksClose request || !(fetches request || (bodyLength cfg request).isSome) ||
    fetches request && cannotOpen cfg os request

theorem HeadOutcome.closing {cfg : Config} {os : Os} {request : Request} {responseCode : Int}
    {head : Bytes} (outcome : HeadOutcome cfg os request responseCode head) :
    announcesClose request head = closing cfg os request := by
  cases outcome with
  | refused post noBody =>
      have shown : saysClose (nonbodyHead lengthRequireNum) = true := by decide
      simp [announcesClose, Liso.closing, shown, noBody, post_fetches post]
  | unknown other =>
      have shown : saysClose (nonbodyHead notImplementedNum) = true := by decide
      obtain ⟨notFetched, noBody⟩ : fetches request = false ∧ bodyLength cfg request = none :=
        unknown_fetches other
      simp [announcesClose, Liso.closing, shown, noBody, notFetched]
  | posted hasBody =>
      have shown : saysClose (nonbodyHead okNum) = false := by decide
      have notFetched := post_fetches (bodyLength_post hasBody)
      have some := Option.isSome_iff_ne_none.mpr hasBody
      simp [announcesClose, Liso.closing, shown, some, notFetched]
  | missing fetched path absent =>
      have shown : saysClose (nonbodyHead notFoundNum) = false := by decide
      simp [announcesClose, Liso.closing, shown, fetched, cannotOpen, path, absent]
  | unopened fetched path present described noFile =>
      have shown : saysClose (nonbodyHead internalServerErrorNum) = true := by decide
      rw [announcesClose, saysClose_getHead, shown]
      simp [Liso.closing, fetched, cannotOpen, path, present, noFile]
  | @opened fullpath _ facts file fetched path present described hasFile =>
      have shown := saysClose_getHead os facts fullpath [] (asksClose request)
      rw [List.append_nil, show saysClose [] = false from rfl, Bool.or_false] at shown
      simp [announcesClose, Liso.closing, shown, fetched, cannotOpen, path, hasFile]

/-- A static request is completed as announced exactly when nothing announces the end. -/
theorem closes_as_announced_iff {cfg : Config} {first os : Os} {h taken last next : Handling}
    {cell : RequestCell} {code : Code} (inv : h.Inv) (state : h.task.state = .recvHeader)
    (pass : httpPass cfg first h = .ok (.again taken)) (live : taken.request = .live cell)
    (enters : Enters cfg os taken last) (completes : Completes cfg last code next) :
    KeepsWord cfg (announcesClose cell.request (responseHead last.task)) code next ↔
      closing cfg os cell.request = false := by
  rw [(enters.outcome inv state pass live).closing]
  constructor
  · intro word
    have same := word.told
    rw [completes.code] at same
    cases closes : closing cfg os cell.request with
    | false => rfl
    | true =>
        rw [closes] at same
        cases same
  · intro stays
    rw [stays]
    exact ⟨completes.code, fun announced => by cases announced⟩

def passesToEnd (cfg : Config) (os : Os) : Nat → Handling → Option (Code × Handling)
  | 0, _ => none
  | fuel + 1, h =>
      if h.task.state = .finished then (finishRequest h).toOption
      else (goesOn cfg os h).bind (passesToEnd cfg os fuel)

theorem passesToEnd_completes {cfg : Config} {os : Os} {fuel : Nat} {h next : Handling}
    {code : Code} (ran : passesToEnd cfg os fuel h = some (code, next)) :
    Completes cfg h code next := by
  induction fuel generalizing h with
  | zero => cases ran
  | succ fuel ih =>
      rw [passesToEnd] at ran
      split at ran
      · next state =>
          cases done : finishRequest h with
          | error fault =>
              rw [done] at ran
              cases ran
          | ok result =>
              rw [done] at ran
              cases ran
              exact .finishes state done
      · obtain ⟨middle, went, later⟩ := Option.bind_eq_some_iff.mp ran
        exact .goesOn (goesOn_pass went) (ih later)

def answerOf (cfg : Config) (os : Os) (h : Handling) : Option (Request × Bytes × Code) :=
  match goesOn cfg os h with
  | none => none
  | some taken =>
      match taken.request, passesToHead cfg os 6 taken with
      | .live cell, some last => (passesToEnd cfg os 6 last).map fun (code, _) =>
          (cell.request, responseHead last.task, code)
      | _, _ => none

theorem answerOf_completes {cfg : Config} {os : Os} {h : Handling} {request : Request}
    {head : Bytes} {code : Code} (ran : answerOf cfg os h = some (request, head, code)) :
    ∃ taken cell last next, httpPass cfg os h = .ok (.again taken) ∧ taken.request = .live cell ∧
      Enters cfg os taken last ∧ Completes cfg last code next ∧ cell.request = request ∧
      responseHead last.task = head := by
  unfold answerOf at ran
  split at ran
  · cases ran
  · next taken went =>
      split at ran
      · next cell last live reached =>
          obtain ⟨⟨told, next⟩, done, shape⟩ := Option.map_eq_some_iff.mp ran
          cases shape
          exact ⟨taken, cell, last, next, goesOn_pass went, live, passesToHead_enters reached,
            passesToEnd_completes done, rfl, rfl⟩
      · cases ran

theorem closes_as_announced_iff_get : ∃ request head code next,
    closing sampleConfig (sampleOs true) request = false ∧
      KeepsWord sampleConfig (announcesClose request head) code next := by
  have answered : ((answerOf sampleConfig (sampleOs true) getFile).map fun (request, _, _) =>
      closing sampleConfig (sampleOs true) request) = some false := by
    decide +kernel
  obtain ⟨⟨request, head, code⟩, ran, stays⟩ := Option.map_eq_some_iff.mp answered
  obtain ⟨taken, cell, last, next, pass, live, enters, completes, rfl, rfl⟩ :=
    answerOf_completes ran
  exact ⟨cell.request, responseHead last.task, code, next, stays,
    (closes_as_announced_iff (inOnePiece_inv _ (by decide)) rfl pass live enters completes).mpr stays⟩

def putNothing : Handling := inOnePiece (str "PUT / HTTP/1.1\r\n\r\n")

/-- The response says that the connection is closed, and it is kept. -/
theorem not_closed_as_announced : ∃ taken cell last next code,
    httpPass sampleConfig (sampleOs true) putNothing = .ok (.again taken) ∧
      taken.request = .live cell ∧ Enters sampleConfig (sampleOs true) taken last ∧
      Completes sampleConfig last code next ∧
      announcesClose cell.request (responseHead last.task) = true ∧ code = .keepConn ∧
      ¬ KeepsWord sampleConfig (announcesClose cell.request (responseHead last.task)) code next := by
  have answered : ((answerOf sampleConfig (sampleOs true) putNothing).map
      fun (request, head, code) => (announcesClose request head, code)) =
      some (true, .keepConn) := by
    decide +kernel
  obtain ⟨⟨request, head, code⟩, ran, shape⟩ := Option.map_eq_some_iff.mp answered
  simp only [Prod.mk.injEq] at shape
  obtain ⟨announced, rfl⟩ := shape
  obtain ⟨taken, cell, last, next, pass, live, enters, completes, rfl, rfl⟩ :=
    answerOf_completes ran
  refine ⟨taken, cell, last, next, .keepConn, pass, live, enters, completes, announced, rfl, ?_⟩
  intro word
  have told := word.told
  rw [announced] at told
  cases told

end Liso
