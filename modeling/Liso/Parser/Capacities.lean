import Liso.Parser.Accounting

/-! The arrays of `Request` and the fields `parse` copies into them: the grammar gathers
up to 8191 bytes for a field and `strcpy` does not ask how many there are. -/

namespace Liso

/-- The strings of the record stand in their arrays, each with its NUL. -/
structure Request.Fits (r : Request) : Prop where
  method : r.httpMethod.length < 50
  uri : r.httpUri.length < 4096
  version : r.httpVersion.length < 50
  names : ∀ h ∈ r.headers, h.headerName.length < 4096
  values : ∀ h ∈ r.headers, h.headerValue.length < 4096

namespace Reading

theorem request_fits (q : Reading) (fits : q.Fits) : q.request.Fits := by
  have header (h : RequestHeader) (member : h ∈ q.request.headers) :
      h.headerName.length < 4096 ∧ h.headerValue.length < 4096 := by
    obtain ⟨line, listed, rfl⟩ := List.mem_map.mp member
    have room := fits.headerLines line listed
    exact ⟨room.name, room.value⟩
  exact ⟨fits.requestLine.method, fits.requestLine.uri, fits.requestLine.version,
    fun h member => (header h member).1, fun h member => (header h member).2⟩

def Begins (q : Reading) (block : Bytes) : Prop := q.tokens <+: (yylex block).tokens

end Reading

/-- The copies of `parse` stay within their arrays, what is accepted stands in them, and
a longer field is refused. -/
structure StoredWithin (buffer : Bytes) : Prop where
  stored : ∃ outcome, parse buffer = .ok outcome ∧ ∀ r, outcome = some r → r.Fits
  refused : (parseScan .start buffer 0).1 = .crlfcrlf →
    ∀ q : Reading, q.Begins (parsingBuf buffer) → ¬ q.Fits → parse buffer = .ok none

theorem parse_reading {buffer : Bytes} {r : Request} (parsed : parse buffer = .ok (some r)) :
    ∃ q : Reading, q.Begins (parsingBuf buffer) ∧ q.Fits ∧ q.request = r := by
  have outcome : yyparse (yylex (parsingBuf buffer)).tokens newRequest = .finished r := by
    unfold parse at parsed
    dsimp only at parsed
    split at parsed
    · cases parsed
    · split at parsed
      · split at parsed
        · next finished =>
            cases parsed
            exact finished
        · cases parsed
        · cases parsed
      · cases parsed
  obtain ⟨ls, tokens, -, -⟩ := yylex_lexemes (parsingBuf buffer)
  rw [tokens] at outcome
  obtain ⟨q, rest, split, fits, same⟩ := (yyparse_finished ls r).mp outcome
  refine ⟨q, ?_, fits, same⟩
  rw [Reading.Begins, tokens, split]
  exact ⟨(Lexeme.crlf :: rest).map Lexeme.token, by simp [Reading.tokens]⟩

theorem parse_fits {buffer : Bytes} {r : Request} (parsed : parse buffer = .ok (some r)) :
    r.Fits := by
  obtain ⟨q, -, fits, rfl⟩ := parse_reading parsed
  exact q.request_fits fits

private theorem isText_nonempty {blank : Lexeme → Bool} {ls : List Lexeme}
    (text : IsText blank ls) : textOf ls ≠ [] := by
  have letter {l : Lexeme} (char : l.isTextChar) : l.text ≠ [] := by
    obtain ⟨c, same⟩ := Option.isSome_iff_exists.mp char
    rw [Phase.textChar_text l c same]
    exact List.cons_ne_nil _ _
  cases text with
  | char l char =>
      rw [textOf_cons, textOf_nil, List.append_nil]
      exact letter char
  | snoc ls ows l text inner char =>
      rw [textOf_append, textOf_cons, textOf_nil, List.append_nil]
      exact List.append_ne_nil_of_right_ne_nil _ (letter char)

theorem parse_uri {buffer : Bytes} {r : Request} (parsed : parse buffer = .ok (some r)) :
    r.httpUri ≠ [] := by
  obtain ⟨q, -, -, rfl⟩ := parse_reading parsed
  exact isText_nonempty q.requestLine.uriText

theorem StoredWithin.fits {buffer : Bytes} (within : StoredWithin buffer)
    (size : buffer.length ≤ 8192) (ended : (parseScan .start buffer 0).1 = .crlfcrlf)
    (q : Reading) (front : q.Begins (parsingBuf buffer)) : q.Fits := by
  by_contra excess
  obtain ⟨fault, failed⟩ := parse_over buffer size ended q front excess
  obtain ⟨outcome, parsed, -⟩ := within.stored
  rw [failed] at parsed
  cases parsed

theorem storedWithin_fits (buffer : Bytes) (size : buffer.length ≤ 8192)
    (fits : (parseScan .start buffer 0).1 = .crlfcrlf →
      ∀ q : Reading, q.Begins (parsingBuf buffer) → q.Fits) : StoredWithin buffer := by
  refine ⟨?_, fun ended q front excess => absurd (fits ended q front) excess⟩
  by_cases ended : (parseScan .start buffer 0).1 = .crlfcrlf
  · cases outcome : parse buffer with
    | error fault =>
        obtain ⟨q, front, excess⟩ := parse_overrun buffer size ended fault outcome
        exact absurd (fits ended q front) excess
    | ok parsed =>
        refine ⟨parsed, rfl, ?_⟩
        rintro r rfl
        exact parse_fits outcome
  · refine ⟨none, parse_unended buffer size ended, ?_⟩
    intro r absent
    cases absent

theorem storedWithin_text (t : RequestText) (rest : Bytes)
    (size : (t.render ++ rest).length ≤ 8192) : StoredWithin (t.render ++ rest) ↔ t.Fits := by
  have looked : parsingBuf (t.render ++ rest) = t.render := by
    rw [parsingBuf, parseScan_render, List.take_left]
  have ended : (parseScan .start (t.render ++ rest) 0).1 = .crlfcrlf := by
    rw [parseScan_render]
  have shorter : t.render.length ≤ 8192 := by
    rw [List.length_append] at size
    omega
  constructor
  · intro within
    obtain ⟨q, -, bounds, -, lexed⟩ := requestText_reading t
    refine bounds.mp (within.fits size ended q ?_)
    rw [looked, Reading.Begins, lexed]
    exact ⟨[Lexeme.crlf.token], by simp [Reading.tokens]⟩
  · intro fits
    refine storedWithin_fits _ size fun _ q front => ?_
    by_contra excess
    obtain ⟨fault, failed⟩ := parse_over _ size ended q front excess
    rw [parse_text t rest fits shorter] at failed
    cases failed

/-- The copies stay within their arrays exactly where every line the grammar reads has
fields that fit. -/
theorem storedWithin_iff (buffer : Bytes) (size : buffer.length ≤ 8192) :
    StoredWithin buffer ↔ ((parseScan .start buffer 0).1 = .crlfcrlf →
      ∀ q : Reading, q.Begins (parsingBuf buffer) → q.Fits) :=
  ⟨fun within => within.fits size, storedWithin_fits buffer size⟩

def longMethod (n : Nat) : Bytes := List.replicate n 0x41 ++ str " / HTTP/1.1\r\n\r\n"

private def longMethodText : RequestText :=
  { getText with
    method := List.replicate 49 0x41
    headers := []
    methodNonempty := by decide
    methodToken := by decide +kernel }

theorem storedWithin_iff_method : StoredWithin (longMethod 49) ∧
    ((parseScan .start (longMethod 49) 0).1 = .crlfcrlf →
      ∀ q : Reading, q.Begins (parsingBuf (longMethod 49)) → q.Fits) := by
  have rendered : longMethodText.render ++ [] = longMethod 49 := by decide +kernel
  have fits : longMethodText.Fits := ⟨by decide, by decide, by decide, nofun⟩
  have stored := (storedWithin_text longMethodText [] (by rw [rendered]; decide)).mpr fits
  rw [rendered] at stored
  exact ⟨stored, (storedWithin_iff (longMethod 49) (by decide)).mp stored⟩

/-- The fiftieth letter of a method leaves no room for its NUL. -/
theorem not_storedWithin_method :
    ¬ ∀ buffer : Bytes, buffer.length ≤ 8192 → StoredWithin buffer := by
  intro all
  obtain ⟨outcome, parsed, -⟩ := (all (longMethod 50) (by decide)).stored
  have failed : parse (longMethod 50) = .error (.bounds .httpMethod) := by decide +kernel
  rw [failed] at parsed
  cases parsed

end Liso
