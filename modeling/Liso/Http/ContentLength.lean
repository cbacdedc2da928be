import Mathlib.Data.List.TakeWhile
import Liso.Http.Passes
import Liso.Http.Paths

/-! How the Content-Length of a POST request is read: `atoi`, and when the number it gives is
the one the header denotes. -/

namespace Liso

def isSpace (c : UInt8) : Bool := c = 0x20 || (0x09 ≤ c && c ≤ 0x0d)

def digitsValue (digits : Bytes) : Nat :=
  digits.foldl (fun value c => 10 * value + (c.toNat - 0x30)) 0

/-- White space, a sign and digits, as far as there are any; the result is held within a long
of 64 bits. -/
def strtol (text : Bytes) : Int :=
  match text.dropWhile isSpace with
  | 0x2d :: rest => max (-2 ^ 63) (-(digitsValue (rest.takeWhile isDigit) : Int))
  | 0x2b :: rest => min (2 ^ 63 - 1) (digitsValue (rest.takeWhile isDigit) : Int)
  | rest => min (2 ^ 63 - 1) (digitsValue (rest.takeWhile isDigit) : Int)

/-- A long narrowed to an int of 32 bits. -/
def intOfLong (value : Int) : Int := value.bmod (2 ^ 32)

def atoi (text : Bytes) : Int := intOfLong (strtol text)

def IsNumeral (text : Bytes) : Prop := text ≠ [] ∧ ∀ c ∈ text, isDigit c = true

theorem intOfLong_below (value : Int) : intOfLong value < 2 ^ 31 := by
  have below := Int.bmod_lt (x := value) (m := 2 ^ 32) (by decide)
  rw [intOfLong]
  omega

theorem intOfLong_fits {value : Int} (low : -2 ^ 31 ≤ value) (high : value < 2 ^ 31) :
    intOfLong value = value := by
  rw [intOfLong]
  exact Int.bmod_eq_of_le (by omega) (by omega)

theorem strtol_numeral {text : Bytes} (numeral : IsNumeral text) :
    strtol text = min (2 ^ 63 - 1) (digitsValue text : Int) := by
  obtain ⟨some, digits⟩ := numeral
  obtain ⟨c, rest, rfl⟩ := List.exists_cons_of_ne_nil some
  have checked := every_byte (fun c => !isDigit c ||
    (!isSpace c && decide (c ≠ 0x2d) && decide (c ≠ 0x2b))) (by decide +kernel) c
  have unsigned : isSpace c = false ∧ c ≠ 0x2d ∧ c ≠ 0x2b := by
    simpa [digits c List.mem_cons_self, and_assoc] using checked
  obtain ⟨notSpace, notMinus, notPlus⟩ := unsigned
  have all : (c :: rest).takeWhile isDigit = c :: rest := List.takeWhile_eq_self_iff.mpr digits
  rw [strtol, List.dropWhile_cons_of_neg (by simp [notSpace])]
  split
  · next shape => exact absurd (List.cons.inj shape).1 notMinus
  · next shape => exact absurd (List.cons.inj shape).1 notPlus
  · rw [all]

theorem atoi_numeral {text : Bytes} (numeral : IsNumeral text)
    (fits : digitsValue text < 2 ^ 31) : atoi text = digitsValue text := by
  rw [atoi, strtol_numeral numeral, min_eq_right (by omega)]
  exact intOfLong_fits (by omega) (by omega)

/-- The loop of RECV_BODY_STATE takes the next `count` bytes and leaves the later ones. -/
def TakesBody (task : HttpTask) (count : Nat) : Prop :=
  ∀ recv : Cbuf UInt8, recv.Inv → ∃ done last left,
    recvBodyLoop (task.bodyBytesNum - task.postBodyIdx) task recv = .ok (done, last, left) ∧
      (done = true ↔ count ≤ recv.content.length) ∧ left.content = recv.content.drop count

/-- The value is the numeral of the number of bytes that are taken for the body, or the request
is answered with 411 and none are awaited. -/
inductive LengthRead (value : Bytes) (next : HttpTask) : Prop
  | number (numeral : IsNumeral value) (state : next.state = .recvBody)
      (count : next.bodyBytesNum = digitsValue value) (takes : TakesBody next (digitsValue value))
  | refused (state : next.state = .generateHeader)
      (none : next.bodyBytesNum = 0 ∧ next.postBody = none)
      (answer : ∃ after, generateNonbodyResponse next next.responseCode =
        .ok (.sendHeader, after) ∧ Written next (nonbodyHead lengthRequireNum) after)

def LengthHonoured (cfg : Config) (task : HttpTask) (request : Request) : Prop :=
  ∃ next, takeRequest cfg task request = .ok next ∧
    LengthRead (getHeaderValue request (str "Content-Length")) next

theorem takesBody_fresh {task : HttpTask} {count : Nat} (number : task.bodyBytesNum = count)
    (block : task.postBody = some (.malloc count)) (index : task.postBodyIdx = 0) :
    TakesBody task count := by
  intro recv inv
  have part : BodyPart task [] := by
    refine ⟨⟨_, block, number.symm, ?_⟩, Nat.zero_le _⟩
    rw [index, Block.read_zero]
  have missing : ([] : Bytes).length + (task.bodyBytesNum - task.postBodyIdx) =
      task.bodyBytesNum := by
    simp [index]
  obtain ⟨⟨done, last, left⟩, ran, read⟩ := recvBodyLoop_read part inv missing
  refine ⟨done, last, left, ran, ?_⟩
  cases read with
  | whole part full split inv =>
      rw [List.nil_append] at split
      rw [number] at full
      rw [split, ← full, List.drop_left, List.length_append]
      exact ⟨⟨fun _ => Nat.le_add_right _ _, fun _ => rfl⟩, rfl⟩
  | short part missing inv empty =>
      rw [List.nil_append, number] at missing
      rw [empty, List.drop_eq_nil_of_le (Nat.le_of_lt missing)]
      exact ⟨⟨nofun, fun enough => absurd enough (Nat.not_le_of_lt missing)⟩, rfl⟩

theorem markLastRequest_frame (task : HttpTask) (request : Request) :
    ∃ lastRequest, markLastRequest task request = { task with lastRequest } := by
  rw [markLastRequest]
  split
  · exact ⟨true, rfl⟩
  · exact ⟨task.lastRequest, rfl⟩

def postTask (task : HttpTask) (lastRequest : Bool) : Option Nat → HttpTask
  | none => { task with
      lastRequest, methodType := .post, responseCode := lengthRequireNum, state := .generateHeader }
  | some count => { task with
      lastRequest, methodType := .post, bodyBytesNum := count, postBody := some (.malloc count)
      postBodyIdx := 0, state := .recvBody }

theorem takeRequest_post (cfg : Config) {task : HttpTask} {request : Request}
    (post : request.httpMethod = str "POST") (fresh : task.bodyBytesNum = 0) :
    ∃ lastRequest, takeRequest cfg task request =
      .ok (postTask task lastRequest (bodyLength cfg request)) := by
  obtain ⟨lastRequest, marked⟩ := markLastRequest_frame task request
  refine ⟨lastRequest, ?_⟩
  have notHead : ¬ str "POST" = str "HEAD" := by decide
  have notGet : ¬ str "POST" = str "GET" := by decide
  simp only [takeRequest, bodyLength, marked, post, if_neg notHead, if_neg notGet, if_true,
    true_and]
  generalize getHeaderValue request (str "Content-Length") = value
  by_cases empty : value = []
  · simp [empty, postTask]
  · by_cases negative : cfg.atoi value < 0
    · simp [empty, negative, not_le.mpr negative, postTask]
    · simp [empty, negative, not_lt.mp negative, fresh, postTask]

private theorem lengthRead_refused {value : Bytes} {task : HttpTask} {lastRequest : Bool}
    (fresh : task.bodyBytesNum = 0 ∧ task.postBody = none)
    (empty : task.responseBuf.content = []) (inv : task.responseBuf.Inv) :
    LengthRead value (postTask task lastRequest none) := by
  have valid : validResponseCode lengthRequireNum = true := by decide
  have short := Nat.le_trans (nonbodyHead_length lengthRequireNum) (show 100 ≤ 700 by decide)
  have room : HasRoom (postTask task lastRequest none) (nonbodyHead lengthRequireNum) :=
    ⟨inv, (emptyRoom empty inv _ short).fits⟩
  exact .refused rfl fresh (generateNonbodyResponse_written valid room)

/-- The values that are read as the number they denote, or refused. -/
def LengthFits (value : Bytes) : Prop :=
  value = [] ∨ atoi value < 0 ∨ IsNumeral value ∧ digitsValue value < 2 ^ 31

private theorem LengthHonoured.fits {cfg : Config} {task : HttpTask} {request : Request}
    (honoured : LengthHonoured cfg task request) (post : request.httpMethod = str "POST")
    (conversion : cfg.atoi = atoi) (fresh : task.bodyBytesNum = 0) :
    LengthFits (getHeaderValue request (str "Content-Length")) := by
  obtain ⟨next, took, read⟩ := honoured
  obtain ⟨lastRequest, same⟩ := takeRequest_post cfg post fresh
  cases took.symm.trans same
  simp only [bodyLength, post, conversion, true_and] at read
  generalize getHeaderValue request (str "Content-Length") = value at read
  have below : atoi value < 2 ^ 31 := intOfLong_below _
  by_cases body : value ≠ [] ∧ 0 ≤ atoi value
  · rw [if_pos body] at read
    cases read with
    | refused state => cases state
    | number numeral _ count _ =>
        have counted : (atoi value).toNat = digitsValue value := count
        exact .inr (.inr ⟨numeral, by omega⟩)
  · by_cases none : value = []
    · exact .inl none
    · exact .inr (.inl (not_le.mp fun positive => body ⟨none, positive⟩))

/-- The length is honoured exactly when the header is missing or empty, is read as a negative
number, or is a numeral that fits an int. -/
theorem lengthHonoured_iff (cfg : Config) (task : HttpTask) (request : Request)
    (post : request.httpMethod = str "POST") (conversion : cfg.atoi = atoi)
    (fresh : task.bodyBytesNum = 0 ∧ task.postBody = none)
    (empty : task.responseBuf.content = []) (inv : task.responseBuf.Inv) :
    LengthHonoured cfg task request ↔
      LengthFits (getHeaderValue request (str "Content-Length")) := by
  refine ⟨fun honoured => honoured.fits post conversion fresh.1, fun fits => ?_⟩
  obtain ⟨lastRequest, took⟩ := takeRequest_post cfg post fresh.1
  refine ⟨_, took, ?_⟩
  simp only [bodyLength, post, conversion, true_and]
  generalize getHeaderValue request (str "Content-Length") = value at fits
  by_cases body : value ≠ [] ∧ 0 ≤ atoi value
  · rw [if_pos body]
    rcases fits with none | negative | ⟨numeral, fits⟩
    · exact absurd none body.1
    · exact absurd negative (not_lt.mpr body.2)
    · have read : (atoi value).toNat = digitsValue value := by
        rw [atoi_numeral numeral fits, Int.toNat_natCast]
      rw [read]
      exact .number numeral rfl rfl (takesBody_fresh rfl rfl rfl)
  · rw [if_neg body]
    exact lengthRead_refused fresh empty inv

private def trailingLetters : Request :=
  ⟨str "HTTP/1.1", str "POST", str "/a", [⟨str "Content-Length", str "12abc"⟩], 20⟩

theorem lengthHonoured_trailing : ∃ request,
    parse (str "POST /a HTTP/1.1\r\nContent-Length: 12abc\r\n\r\n") = .ok (some request) ∧
      request.httpMethod = str "POST" ∧
      ¬ LengthHonoured ⟨str "/www/", [], parse, atoi⟩ createHttpTask request := by
  refine ⟨trailingLetters, by decide +kernel, rfl, fun honoured => ?_⟩
  have value : getHeaderValue trailingLetters (str "Content-Length") = str "12abc" := by decide
  have fits := honoured.fits rfl rfl rfl
  rw [value] at fits
  rcases fits with none | negative | ⟨numeral, _⟩
  · cases none
  · exact absurd negative (by decide +kernel)
  · exact absurd (numeral.2 0x61 (by decide)) (by decide)

theorem lengthHonoured_plain : LengthHonoured ⟨str "/www/", [], parse, atoi⟩ createHttpTask
    ⟨str "HTTP/1.1", str "POST", str "/a", [⟨str "Content-Length", str "12"⟩], 20⟩ :=
  (lengthHonoured_iff _ createHttpTask _ rfl rfl ⟨rfl, rfl⟩ rfl (Cbuf.reset_inv _)).mpr
    (.inr (.inr ⟨⟨by decide +kernel, by decide +kernel⟩, by decide +kernel⟩))

end Liso
