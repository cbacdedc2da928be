import Liso.Parser.RoundTrip

/-! What `parse` accepts that is not the text of a request: the lexer drops the
bytes no rule matches, and the grammar lets blanks into the URI and the version. -/

namespace Liso

theorem isToken_text (ls : List Lexeme) (token : IsToken ls) (lexed : ∀ l ∈ ls, l.Lexed) :
    textOf ls ≠ [] ∧ ∀ c ∈ textOf ls, isTokenChar c := by
  induction token with
  | char l name =>
      obtain ⟨c, rfl⟩ := Phase.step_nameChar l name
      have isToken : isTokenChar c := lexed (.tokenChar c) List.mem_cons_self
      simpa [Lexeme.text] using isToken
  | snoc ls l token name ih =>
      obtain ⟨c, rfl⟩ := Phase.step_nameChar l name
      obtain ⟨nonempty, all⟩ := ih fun l member => lexed l (List.mem_append_left _ member)
      have isToken : isTokenChar c := lexed (.tokenChar c) (by simp)
      refine ⟨by simp [nonempty], ?_⟩
      intro d member
      rw [textOf_append, List.mem_append] at member
      rcases member with before | last
      · exact all d before
      · have same : d = c := by simpa [Lexeme.text] using last
        rw [same]
        exact isToken

theorem isOws_text (ls : List Lexeme) (ows : IsOws Lexeme.isBlank ls)
    (lexed : ∀ l ∈ ls, l.Lexed) : ∀ c ∈ textOf ls, isWs c := by
  cases ows with
  | none => simp
  | some l isBlank =>
      intro c member
      rw [textOf_cons, textOf_nil, List.append_nil] at member
      cases l with
      | sp =>
          rw [List.mem_singleton.mp member]
          rfl
      | ws w =>
          have blanks : (Lexeme.ws w).Lexed := lexed _ List.mem_cons_self
          exact blanks.2 c member
      | _ => cases isBlank

theorem textChar_lexed (l : Lexeme) (char : l.isTextChar) (lexed : l.Lexed) :
    ∃ c, l.text = [c] ∧ isText c := by
  cases l with
  | tokenChar c => exact ⟨c, rfl, isText_token c lexed⟩
  | separator c => exact ⟨c, rfl, lexed⟩
  | colon => exact ⟨0x3a, rfl, rfl⟩
  | _ => cases char

theorem isOws_isBlank (ls : List Lexeme) (ows : IsOws Lexeme.isWs ls) :
    IsOws Lexeme.isBlank ls := by
  cases ows with
  | none => exact .none
  | some l isWs =>
      refine .some l ?_
      cases l <;> cases isWs
      rfl

theorem isText_isBlank (ls : List Lexeme) (text : IsText Lexeme.isWs ls) :
    IsText Lexeme.isBlank ls := by
  induction text with
  | char l char => exact .char l char
  | snoc ls ows l text inner char ih => exact .snoc ls ows l ih (isOws_isBlank ows inner) char

theorem isText_value (ls : List Lexeme) (text : IsText Lexeme.isBlank ls)
    (lexed : ∀ l ∈ ls, l.Lexed) : IsValue (textOf ls) := by
  induction text with
  | char l char =>
      obtain ⟨c, single, isText⟩ := textChar_lexed l char (lexed l List.mem_cons_self)
      rw [textOf_cons, single, textOf_nil, List.append_nil]
      exact ⟨by simpa using .inl isText, ⟨c, rfl, isText⟩, ⟨c, rfl, isText⟩⟩
  | snoc ls ows l text inner char ih =>
      have value := ih fun l member => lexed l (by simp [member])
      have blanks := isOws_text ows inner fun l member => lexed l (by simp [member])
      obtain ⟨c, single, isText⟩ := textChar_lexed l char (lexed l (by simp))
      rw [textOf_append, textOf_append, textOf_cons, single, textOf_nil, List.append_nil]
      refine ⟨?_, ?_, ⟨c, by simp, isText⟩⟩
      · intro d member
        simp only [List.mem_append, List.mem_singleton] at member
        rcases member with (before | blank) | rfl
        · exact value.chars d before
        · exact .inr (blanks d blank)
        · exact .inl isText
      · obtain ⟨d, head, letter⟩ := value.first
        obtain ⟨tail, split⟩ := List.head?_eq_some_iff.mp head
        exact ⟨d, by rw [split]; rfl, letter⟩

theorem value_unblank (v : Bytes) (value : IsValue v) (unblank : ∀ c ∈ v, isWs c = false) :
    v ≠ [] ∧ ∀ c ∈ v, isText c := by
  obtain ⟨c, head, -⟩ := value.first
  refine ⟨?_, ?_⟩
  · rintro rfl
    cases head
  · intro d member
    rcases value.chars d member with text | blank
    · exact text
    · rw [unblank d member] at blank
      cases blank

theorem headerLine_text (line : HeaderLine) (lexed : ∀ l ∈ line.lexemes, l.Lexed) :
    ∃ h : HeaderText, h.header = line.header ∧ h.render = textOf line.lexemes := by
  have part (ls : List Lexeme) (inside : ls ⊆ line.lexemes) : ∀ l ∈ ls, l.Lexed :=
    fun l member => lexed l (inside member)
  have name := isToken_text line.name line.nameToken
    (part _ fun l member => by simp [HeaderLine.lexemes, member])
  exact ⟨⟨textOf line.name, textOf line.before, textOf line.after, textOf line.value,
    textOf line.trailing, name.1, name.2,
    isOws_text _ line.beforeOws (part _ fun l member => by simp [HeaderLine.lexemes, member]),
    isOws_text _ line.afterOws (part _ fun l member => by simp [HeaderLine.lexemes, member]),
    isText_value _ line.valueText (part _ fun l member => by simp [HeaderLine.lexemes, member]),
    isOws_text _ line.trailingOws
      (part _ fun l member => by simp [HeaderLine.lexemes, member])⟩, rfl, by
    simp [HeaderText.render, HeaderLine.lexemes, Lexeme.text]⟩

theorem headerLines_text (lines : List HeaderLine)
    (lexed : ∀ l ∈ lines.flatMap HeaderLine.lexemes, l.Lexed) : ∃ headers : List HeaderText,
      headers.map HeaderText.header = lines.map HeaderLine.header ∧
      headers.flatMap HeaderText.render = textOf (lines.flatMap HeaderLine.lexemes) := by
  induction lines with
  | nil => exact ⟨[], rfl, rfl⟩
  | cons line lines ih =>
      rw [List.flatMap_cons, List.forall_mem_append] at lexed
      obtain ⟨headers, same, whole⟩ := ih lexed.2
      obtain ⟨h, header, text⟩ := headerLine_text line lexed.1
      refine ⟨h :: headers, ?_, ?_⟩
      · rw [List.map_cons, List.map_cons, header, same]
      · rw [List.flatMap_cons, List.flatMap_cons, textOf_append, text, whole]

namespace Reading

/-- The URI and the version, which may hold blanks. -/
structure Unblank (q : Reading) : Prop where
  uri : ∀ c ∈ textOf q.requestLine.uri, isWs c = false
  version : ∀ c ∈ textOf q.requestLine.version, isWs c = false

theorem requestText (q : Reading) (lexed : ∀ l ∈ q.lexemes, l.Lexed) (unblank : q.Unblank) :
    ∃ t : RequestText, t.request = q.request ∧ t.render = textOf q.lexemes ++ crlf := by
  rw [lexemes, List.forall_mem_append] at lexed
  obtain ⟨headers, same, whole⟩ := headerLines_text q.headerLines lexed.2
  have part (ls : List Lexeme) (inside : ls ⊆ q.requestLine.lexemes) : ∀ l ∈ ls, l.Lexed :=
    fun l member => lexed.1 l (inside member)
  have method := isToken_text _ q.requestLine.methodToken
    (part _ fun l member => by simp [RequestLine.lexemes, member])
  have uri := value_unblank _ (isText_value _ (isText_isBlank _ q.requestLine.uriText)
    (part _ fun l member => by simp [RequestLine.lexemes, member])) unblank.uri
  have version := value_unblank _ (isText_value _ q.requestLine.versionText
    (part _ fun l member => by simp [RequestLine.lexemes, member])) unblank.version
  refine ⟨⟨textOf q.requestLine.method, textOf q.requestLine.uri, textOf q.requestLine.version,
    headers, method.1, method.2, uri.1, uri.2, version.1, version.2⟩, ?_, ?_⟩
  · have count : headers.length = q.headerLines.length := by
      simpa using congrArg List.length same
    simp only [RequestText.request, request, same, count]
  · simp [RequestText.render, RequestText.requestLine, lexemes, RequestLine.lexemes, whole,
      Lexeme.text]

def tokens (q : Reading) : List (Token × Yystype) := q.lexemes.map Lexeme.token

end Reading

/-- `parse` stays defined, and what it accepts is, up to the first terminator, the
text of the request it returns. -/
def Accounted (buffer : Bytes) : Prop :=
  match parse buffer with
  | .error _ => False
  | .ok none => True
  | .ok (some r) => ∃ t : RequestText, t.request = r ∧
      ∃ rest, Matcher.cutAfter terminator buffer = some (t.render, rest)

/-- The tokens of `block` that can be read as lines of a request hide nothing: the
fields fit their arrays, and in a whole request no byte was dropped and no blank
stands in the URI or the version. -/
structure PlainBlock (block : Bytes) : Prop where
  fits : ∀ q : Reading, q.tokens <+: (yylex block).tokens → q.Fits
  matched : ∀ q : Reading, q.tokens ++ [Lexeme.crlf.token] <+: (yylex block).tokens →
    (yylex block).echoed = []
  unblank : ∀ q : Reading, q.tokens ++ [Lexeme.crlf.token] <+: (yylex block).tokens → q.Unblank

private theorem tokens_split (ms : List Lexeme) (tokens : List (Token × Yystype))
    (ls : List Lexeme) (lexed : tokens = ls.map Lexeme.token)
    (front : ms.map Lexeme.token <+: tokens) :
    ∃ more, tokens = (ms ++ more).map Lexeme.token := by
  obtain ⟨rest, split⟩ := front
  refine ⟨ls.drop ms.length, ?_⟩
  have tail : rest = (ls.drop ms.length).map Lexeme.token := by
    have length : ms.length = (ms.map Lexeme.token).length := (List.length_map _).symm
    rw [List.map_drop, ← lexed, ← split, length, List.drop_left]
  rw [List.map_append, ← tail, split]

theorem parseScan_bound (state : ParseState) (buffer : Bytes) (i : Nat) :
    (parseScan state buffer i).2 ≤ i + buffer.length := by
  induction buffer generalizing state i with
  | nil => cases state <;> exact Nat.le_add_right _ _
  | cons c buffer ih =>
      by_cases done : state = .crlfcrlf
      · rw [done]
        exact Nat.le_add_right _ _
      · rw [parseScan_cons state done, List.length_cons]
        have bound := ih (state.step c) (i + 1)
        omega

theorem parse_block (buffer : Bytes) (size : buffer.length ≤ 8192)
    (ended : (parseScan .start buffer 0).1 = .crlfcrlf) :
    parse buffer =
      match yyparse (yylex (parsingBuf buffer)).tokens newRequest with
      | .finished request => .ok (some request)
      | .fault fault => .error fault
      | _ => .ok none := by
  have bound := parseScan_bound .start buffer 0
  have short : ¬ (parseScan .start buffer 0).2 > 8192 := by omega
  exact (if_neg short).trans (if_pos ended)

theorem parse_unended (buffer : Bytes) (size : buffer.length ≤ 8192)
    (unended : (parseScan .start buffer 0).1 ≠ .crlfcrlf) : parse buffer = .ok none := by
  have bound := parseScan_bound .start buffer 0
  have short : ¬ (parseScan .start buffer 0).2 > 8192 := by omega
  simp only [parse, short, if_false, unended]

theorem parse_over (buffer : Bytes) (size : buffer.length ≤ 8192)
    (ended : (parseScan .start buffer 0).1 = .crlfcrlf) (q : Reading)
    (front : q.tokens <+: (yylex (parsingBuf buffer)).tokens) (excess : ¬ q.Fits) :
    ∃ fault, parse buffer = .error fault := by
  obtain ⟨ls, tokens, -, -⟩ := yylex_lexemes (parsingBuf buffer)
  obtain ⟨more, split⟩ := tokens_split q.lexemes _ ls tokens front
  obtain ⟨fault, stopped⟩ := (yyparse_fault (q.lexemes ++ more)).mpr ⟨q, more, rfl, excess⟩
  exact ⟨fault, by rw [parse_block buffer size ended, split, stopped]⟩

theorem parse_overrun (buffer : Bytes) (size : buffer.length ≤ 8192)
    (ended : (parseScan .start buffer 0).1 = .crlfcrlf) (fault : Fault)
    (failed : parse buffer = .error fault) :
    ∃ q : Reading, q.tokens <+: (yylex (parsingBuf buffer)).tokens ∧ ¬ q.Fits := by
  obtain ⟨ls, tokens, -, -⟩ := yylex_lexemes (parsingBuf buffer)
  rw [parse_block buffer size ended, tokens] at failed
  cases outcome : yyparse (ls.map Lexeme.token) newRequest with
  | fault f =>
      obtain ⟨q, rest, split, excess⟩ := (yyparse_fault ls).mp ⟨f, outcome⟩
      refine ⟨q, ?_, excess⟩
      rw [tokens, split]
      exact ⟨rest.map Lexeme.token, by simp [Reading.tokens]⟩
  | _ =>
      rw [outcome] at failed
      cases failed

private theorem parse_whole (buffer : Bytes) (size : buffer.length ≤ 8192)
    (ended : (parseScan .start buffer 0).1 = .crlfcrlf) (q : Reading)
    (front : q.tokens ++ [Lexeme.crlf.token] <+: (yylex (parsingBuf buffer)).tokens)
    (fits : q.Fits) : parse buffer = .ok (some q.request) := by
  obtain ⟨ls, tokens, -, -⟩ := yylex_lexemes (parsingBuf buffer)
  obtain ⟨more, split⟩ := tokens_split (q.lexemes ++ [.crlf]) _ ls tokens
    (by rwa [List.map_append])
  have finished := (yyparse_finished (q.lexemes ++ [.crlf] ++ more) q.request).mpr
    ⟨q, more, by simp, fits, rfl⟩
  rw [parse_block buffer size ended, split, finished]

private theorem plain_accounted (buffer : Bytes) (size : buffer.length ≤ 8192)
    (ended : (parseScan .start buffer 0).1 = .crlfcrlf) (plain : PlainBlock (parsingBuf buffer)) :
    Accounted buffer := by
  obtain ⟨ls, tokens, lexed, whole⟩ := yylex_lexemes (parsingBuf buffer)
  have parsed := parse_block buffer size ended
  rw [tokens] at parsed
  rw [Accounted, parsed]
  cases outcome : yyparse (ls.map Lexeme.token) newRequest with
  | finished r =>
      obtain ⟨q, rest, split, fits, rfl⟩ := (yyparse_finished ls r).mp outcome
      have front : q.tokens ++ [Lexeme.crlf.token] <+: (yylex (parsingBuf buffer)).tokens := by
        rw [tokens, split]
        exact ⟨rest.map Lexeme.token, by simp [Reading.tokens]⟩
      obtain ⟨t, request, render⟩ := q.requestText
        (fun l member => lexed l (by rw [split]; exact List.mem_append_left _ member))
        (plain.unblank q front)
      refine ⟨t, request, ?_⟩
      have text := whole (plain.matched q front)
      rw [split, textOf_append, textOf_cons, ← List.append_assoc] at text
      change textOf q.lexemes ++ crlf ++ textOf rest = parsingBuf buffer at text
      rw [← render] at text
      obtain ⟨tail, same⟩ : parsingBuf buffer <+: buffer := List.take_prefix ..
      have joined : buffer = t.render ++ (textOf rest ++ tail) := by
        rw [← List.append_assoc, text, same]
      obtain ⟨lines, all, shape⟩ := render_lines t
      refine ⟨textOf rest ++ tail, ?_⟩
      rw [joined, shape]
      exact cutAfter_lines _ lines _ (requestLine_isLine t) all
  | fault f =>
      rw [outcome] at parsed
      obtain ⟨q, front, excess⟩ := parse_overrun buffer size ended f parsed
      exact excess (plain.fits q front)
  | _ => trivial

private theorem accounted_plain (buffer : Bytes) (size : buffer.length ≤ 8192)
    (ended : (parseScan .start buffer 0).1 = .crlfcrlf) (accounted : Accounted buffer) :
    PlainBlock (parsingBuf buffer) := by
  have fits (q : Reading) (front : q.tokens <+: (yylex (parsingBuf buffer)).tokens) : q.Fits := by
    by_contra excess
    obtain ⟨fault, parsed⟩ := parse_over buffer size ended q front excess
    rw [Accounted, parsed] at accounted
    exact accounted
  have text (q : Reading)
      (front : q.tokens ++ [Lexeme.crlf.token] <+: (yylex (parsingBuf buffer)).tokens) :
      ∃ t : RequestText, t.request = q.request ∧ parsingBuf buffer = t.render := by
    have parsed := parse_whole buffer size ended q front
      (fits q ((List.prefix_append _ _).trans front))
    rw [Accounted, parsed] at accounted
    obtain ⟨t, request, rest, cut⟩ := accounted
    obtain ⟨split, -⟩ := Matcher.cutAfter_some _ _ cut
    refine ⟨t, request, ?_⟩
    rw [split, parsingBuf, parseScan_render, List.take_left]
  refine ⟨fits, ?_, ?_⟩
  · intro q front
    obtain ⟨t, -, same⟩ := text q front
    obtain ⟨_, -, -, -, lexed⟩ := requestText_reading t
    rw [same, lexed]
  · intro q front
    obtain ⟨t, request, -⟩ := text q front
    have unblank (c : UInt8) (isText : isText c) : isWs c = false := by
      cases blank : isWs c with
      | false => rfl
      | true => rw [not_text_ws c blank] at isText; cases isText
    have uri : t.uri = textOf q.requestLine.uri := congrArg Request.httpUri request
    have version : t.version = textOf q.requestLine.version := congrArg Request.httpVersion request
    refine ⟨fun c member => unblank c (t.uriText c ?_), fun c member =>
      unblank c (t.versionText c ?_)⟩
    · rwa [uri]
    · rwa [version]

/-- `parse` accounts for every byte exactly where its block is plain. -/
theorem accounted_iff (buffer : Bytes) (size : buffer.length ≤ 8192) :
    Accounted buffer ↔
      ((parseScan .start buffer 0).1 = .crlfcrlf → PlainBlock (parsingBuf buffer)) := by
  constructor
  · intro accounted ended
    exact accounted_plain buffer size ended accounted
  · intro plain
    by_cases ended : (parseScan .start buffer 0).1 = .crlfcrlf
    · exact plain_accounted buffer size ended (plain ended)
    · rw [Accounted, parse_unended buffer size ended]
      trivial

theorem accounted_iff_get : Accounted getText.render ∧
    ((parseScan .start getText.render 0).1 = .crlfcrlf →
      PlainBlock (parsingBuf getText.render)) := by
  have parsed := parse_text getText [] getText_fits (by decide)
  rw [List.append_nil] at parsed
  have accounted : Accounted getText.render := by
    rw [Accounted, parsed]
    exact ⟨getText, rfl, [], by decide +kernel⟩
  exact ⟨accounted, (accounted_iff getText.render (by decide)).mp accounted⟩

private theorem render_bare (t : RequestText) (r : Request) (request : t.request = r)
    (bare : r.headers = []) :
    t.render = r.httpMethod ++ [0x20] ++ r.httpUri ++ [0x20] ++ r.httpVersion ++ crlf ++ crlf := by
  subst request
  have none : t.headers = [] := List.map_eq_nil_iff.mp bare
  simp [RequestText.render, RequestText.requestLine, none, RequestText.request]

/-- A NUL in the URI is dropped: the request returned is that of another text. -/
theorem not_accounted_nul : ¬ ∀ buffer : Bytes, buffer.length ≤ 8192 → Accounted buffer := by
  intro all
  have accounted := all (str "GET /" ++ [0] ++ str "a HTTP/1.1\r\n\r\n") (by decide)
  have parsed : parse (str "GET /" ++ [0] ++ str "a HTTP/1.1\r\n\r\n") =
      .ok (some ⟨str "HTTP/1.1", str "GET", str "/a", [], 20⟩) := by decide +kernel
  rw [Accounted, parsed] at accounted
  obtain ⟨t, request, rest, cut⟩ := accounted
  obtain ⟨split, -⟩ := Matcher.cutAfter_some _ _ cut
  rw [render_bare t _ request rfl] at split
  have sixth := congrArg (fun bytes => bytes[5]?) split
  simp [str] at sixth

end Liso
