import Liso.Parser.Lexing
import Liso.Parser.Reading
import Liso.Terminator

/-! Requests as text, and the round trip from a request through its text. -/

namespace Liso

/-- A header value: it begins and ends with a character of a text, with any blanks between. -/
structure IsValue (value : Bytes) : Prop where
  chars : ∀ c ∈ value, isText c ∨ isWs c
  first : ∃ c, value.head? = some c ∧ isText c
  last : ∃ c, value.getLast? = some c ∧ isText c

/-- A header line with the blanks around its parts. -/
structure HeaderText where
  name : Bytes
  before : Bytes
  after : Bytes
  value : Bytes
  trailing : Bytes
  nameNonempty : name ≠ []
  nameToken : ∀ c ∈ name, isTokenChar c
  beforeOws : ∀ c ∈ before, isWs c
  afterOws : ∀ c ∈ after, isWs c
  valueText : IsValue value
  trailingOws : ∀ c ∈ trailing, isWs c

def HeaderText.render (h : HeaderText) : Bytes :=
  h.name ++ h.before ++ [0x3a] ++ h.after ++ h.value ++ h.trailing ++ crlf

def HeaderText.header (h : HeaderText) : RequestHeader := ⟨h.name, h.value⟩

structure HeaderText.Fits (h : HeaderText) : Prop where
  name : h.name.length < 4096
  value : h.value.length < 4096

/-- A request: three fields without blanks, and header lines. -/
structure RequestText where
  method : Bytes
  uri : Bytes
  version : Bytes
  headers : List HeaderText
  methodNonempty : method ≠ []
  methodToken : ∀ c ∈ method, isTokenChar c
  uriNonempty : uri ≠ []
  uriText : ∀ c ∈ uri, isText c
  versionNonempty : version ≠ []
  versionText : ∀ c ∈ version, isText c

namespace RequestText

def requestLine (t : RequestText) : Bytes :=
  t.method ++ [0x20] ++ t.uri ++ [0x20] ++ t.version ++ crlf

def render (t : RequestText) : Bytes :=
  t.requestLine ++ t.headers.flatMap HeaderText.render ++ crlf

structure Fits (t : RequestText) : Prop where
  method : t.method.length < 50
  uri : t.uri.length < 4096
  version : t.version.length < 50
  headers : ∀ h ∈ t.headers, h.Fits

def request (t : RequestText) : Request where
  httpMethod := t.method
  httpUri := t.uri
  httpVersion := t.version
  headers := t.headers.map HeaderText.header
  headerCap := headerCapAfter t.headers.length

end RequestText

def Lexes (text : Bytes) (ls : List Lexeme) (rest : Bytes) : Prop :=
  yylex (text ++ rest) = ⟨ls.map Lexeme.token ++ (yylex rest).tokens, (yylex rest).echoed⟩

def StartsUnblank (rest : Bytes) : Prop := ∀ c, rest.head? = some c → isWs c = false

theorem StartsUnblank.text {rest : Bytes} (c : UInt8) (text : isText c) :
    StartsUnblank (c :: rest) := by
  intro d first
  cases first
  cases blank : isWs c with
  | false => rfl
  | true => rw [not_text_ws c blank] at text; cases text

theorem StartsUnblank.break {rest : Bytes} : StartsUnblank (crlf ++ rest) := by
  intro d first
  cases first
  rfl

theorem isText_token (c : UInt8) (token : isTokenChar c) : isText c := by
  rw [isText, token, Bool.true_or]

theorem charLexeme_token (c : UInt8) (token : isTokenChar c) : charLexeme c = .tokenChar c := by
  have checked := every_byte (fun c => !isTokenChar c || charLexeme c = .tokenChar c)
    (by decide +kernel) c
  simpa [token] using checked

theorem charLexeme_isTextChar (c : UInt8) : (charLexeme c).isTextChar := by
  rw [charLexeme]
  split
  · rfl
  · split <;> rfl

theorem textOf_chars (text : Bytes) : textOf (text.map charLexeme) = text := by
  induction text with
  | nil => rfl
  | cons c text ih => rw [List.map_cons, textOf_cons, charLexeme_text, ih, List.singleton_append]

namespace Lexes

theorem nil (rest : Bytes) : Lexes [] [] rest := rfl

theorem append {text more rest : Bytes} {ls ms : List Lexeme} (first : Lexes text ls (more ++ rest))
    (second : Lexes more ms rest) : Lexes (text ++ more) (ls ++ ms) rest := by
  rw [Lexes] at *
  rw [List.append_assoc, first, second, List.map_append, List.append_assoc]

theorem chars (text rest : Bytes) (all : ∀ c ∈ text, isText c) :
    Lexes text (text.map charLexeme) rest := by
  induction text with
  | nil => exact nil rest
  | cons c text ih =>
      have tail := ih fun d member => all d (List.mem_cons_of_mem _ member)
      rw [Lexes] at *
      rw [List.cons_append, yylex_char c _ (all c List.mem_cons_self), tail]
      rfl

def owsLexemes (w : Bytes) : List Lexeme := if w = [] then [] else [blankLexeme w]

theorem ows (w rest : Bytes) (blank : ∀ c ∈ w, isWs c) (stops : StartsUnblank rest) :
    Lexes w (owsLexemes w) rest := by
  rw [owsLexemes]
  split
  · next empty => rw [empty]; exact nil rest
  · next nonempty => exact yylex_blank w rest nonempty blank stops

theorem space (rest : Bytes) (stops : StartsUnblank rest) : Lexes [0x20] [.sp] rest :=
  yylex_blank [0x20] rest (by simp) (by simp [isWs]) stops

theorem colon (rest : Bytes) : Lexes [0x3a] [.colon] rest := chars [0x3a] rest (by decide +kernel)

theorem lineBreak (rest : Bytes) (stops : StartsUnblank rest) : Lexes crlf [.crlf] rest :=
  yylex_crlf rest stops

end Lexes

theorem owsLexemes_text (w : Bytes) : textOf (Lexes.owsLexemes w) = w := by
  rw [Lexes.owsLexemes]
  split
  · next empty => rw [empty]; rfl
  · rw [textOf_cons, blankLexeme_text, textOf_nil, List.append_nil]

theorem owsLexemes_isOws (w : Bytes) : IsOws Lexeme.isBlank (Lexes.owsLexemes w) := by
  rw [Lexes.owsLexemes]
  split
  · exact .none
  · refine .some _ ?_
    rw [blankLexeme]
    split <;> rfl

theorem chars_isText (blank : Lexeme → Bool) (text : Bytes) (nonempty : text ≠ []) :
    IsText blank (text.map charLexeme) := by
  induction text with
  | nil => exact absurd rfl nonempty
  | cons c text ih =>
      by_cases empty : text = []
      · rw [empty]
        exact .char _ (charLexeme_isTextChar c)
      · exact (ih empty).cons (charLexeme c) [] (charLexeme_isTextChar c) .none

theorem chars_isToken (text : Bytes) (nonempty : text ≠ []) (token : ∀ c ∈ text, isTokenChar c) :
    IsToken (text.map charLexeme) := by
  induction text using List.reverseRecOn with
  | nil => exact absurd rfl nonempty
  | append_singleton text c ih =>
      have last : charLexeme c = .tokenChar c := charLexeme_token c (token c (by simp))
      rw [List.map_append, List.map_singleton, last]
      by_cases empty : text = []
      · rw [empty]
        exact .char _ rfl
      · exact .snoc _ _ (ih empty fun d member => token d (List.mem_append_left _ member)) rfl

private theorem value_split (c : UInt8) (tail : Bytes) (value : IsValue (c :: tail))
    (more : tail ≠ []) : IsValue (tail.dropWhile isWs) := by
  obtain ⟨z, lastOf, lastText⟩ := value.last
  have split := List.takeWhile_append_dropWhile (p := isWs) (l := tail)
  have tailLast : tail.getLast? = some z := by
    rwa [List.getLast?_cons_of_ne_nil more] at lastOf
  have nonempty : tail.dropWhile isWs ≠ [] := by
    intro empty
    rw [empty, List.append_nil] at split
    have member : z ∈ tail.takeWhile isWs := by
      rw [split]
      exact List.mem_of_getLast? tailLast
    rw [not_text_ws z (List.mem_takeWhile_imp member)] at lastText
    cases lastText
  refine ⟨?_, ?_, ?_⟩
  · intro d member
    exact value.chars d (List.mem_cons_of_mem _ ((List.dropWhile_suffix isWs).subset member))
  · obtain ⟨d, rest, head⟩ := List.exists_cons_of_ne_nil nonempty
    refine ⟨d, by rw [head]; rfl, ?_⟩
    have unblank : isWs d = false := by
      have stopped := List.head?_dropWhile_not isWs tail
      rw [head] at stopped
      simpa using stopped
    have member : d ∈ tail.dropWhile isWs := by
      rw [head]
      exact List.mem_cons_self
    rcases value.chars d (List.mem_cons_of_mem _ ((List.dropWhile_suffix isWs).subset member)) with
      text | blank
    · exact text
    · rw [unblank] at blank
      cases blank
  · refine ⟨z, ?_, lastText⟩
    rw [← split, List.getLast?_append_of_ne_nil _ nonempty] at tailLast
    exact tailLast

theorem value_lexemes (value : Bytes) (isValue : IsValue value) :
    ∃ ls, IsText Lexeme.isBlank ls ∧ textOf ls = value ∧ ∀ rest, Lexes value ls rest := by
  induction size : value.length using Nat.strongRecOn generalizing value with
  | ind n ih =>
      obtain ⟨c, head, text⟩ := isValue.first
      cases value with
      | nil => cases head
      | cons d tail =>
          cases head
          by_cases empty : tail = []
          · subst empty
            refine ⟨[charLexeme c], .char _ (charLexeme_isTextChar c), ?_, fun rest => ?_⟩
            · rw [textOf_cons, charLexeme_text]
              rfl
            · exact Lexes.chars [c] rest (by simpa using text)
          · have split := List.takeWhile_append_dropWhile (p := isWs) (l := tail)
            have shorter : (tail.dropWhile isWs).length < n := by
              have bound := List.length_dropWhile_le isWs tail
              rw [← size, List.length_cons]
              omega
            have rest := value_split c tail isValue empty
            obtain ⟨ls, isText, whole, lexes⟩ := ih _ shorter _ rest rfl
            refine ⟨charLexeme c :: (Lexes.owsLexemes (tail.takeWhile isWs) ++ ls),
              isText.cons _ _ (charLexeme_isTextChar c) (owsLexemes_isOws _), ?_, fun more => ?_⟩
            · rw [textOf_cons, textOf_append, owsLexemes_text, charLexeme_text, whole, split]
              rfl
            · have unblank : StartsUnblank (tail.dropWhile isWs ++ more) := by
                obtain ⟨d, first, letter⟩ := rest.first
                obtain ⟨line, head⟩ := List.head?_eq_some_iff.mp first
                rw [head]
                exact .text d letter
              have blanks := Lexes.ows (tail.takeWhile isWs) _
                (fun d member => List.mem_takeWhile_imp member) unblank
              have joined := (Lexes.chars [c] _ (by simpa using text)).append
                (blanks.append (lexes more))
              rw [split] at joined
              exact joined

theorem headerText_line (h : HeaderText) : ∃ line : HeaderLine, line.header = h.header ∧
    textOf line.lexemes = h.render ∧
    ∀ rest, StartsUnblank rest → Lexes h.render line.lexemes rest := by
  obtain ⟨value, isText, whole, lexes⟩ := value_lexemes h.value h.valueText
  refine ⟨⟨h.name.map charLexeme, Lexes.owsLexemes h.before, Lexes.owsLexemes h.after, value,
    Lexes.owsLexemes h.trailing, chars_isToken h.name h.nameNonempty h.nameToken,
    owsLexemes_isOws _, owsLexemes_isOws _, isText, owsLexemes_isOws _⟩, ?_, ?_, ?_⟩
  · simp only [HeaderLine.header, HeaderText.header, textOf_chars, whole]
  · simp only [HeaderLine.lexemes, HeaderText.render, textOf_append, textOf_chars,
      owsLexemes_text, whole, textOf_cons, textOf_nil, List.append_nil]
    rfl
  · intro rest stops
    obtain ⟨c, first, letter⟩ := h.valueText.first
    obtain ⟨line, head⟩ := List.head?_eq_some_iff.mp first
    have valueStarts (more : Bytes) : StartsUnblank (h.value ++ more) := by
      rw [head]
      exact .text c letter
    have ended := (Lexes.ows h.trailing _ h.trailingOws .break).append (Lexes.lineBreak rest stops)
    have valued := (lexes _).append ended
    have after := (Lexes.ows h.after _ h.afterOws
      (by rw [List.append_assoc]; exact valueStarts _)).append valued
    have coloned := (Lexes.colon _).append after
    have before := (Lexes.ows h.before _ h.beforeOws (.text 0x3a rfl)).append coloned
    have named := (Lexes.chars h.name _ fun c member =>
      isText_token c (h.nameToken c member)).append before
    simpa only [HeaderText.render, HeaderLine.lexemes, List.append_assoc] using named

theorem requestText_line (t : RequestText) : ∃ line : RequestLine,
    textOf line.method = t.method ∧ textOf line.uri = t.uri ∧ textOf line.version = t.version ∧
    textOf line.lexemes = t.requestLine ∧
    ∀ rest, StartsUnblank rest → Lexes t.requestLine line.lexemes rest := by
  refine ⟨⟨t.method.map charLexeme, t.uri.map charLexeme, t.version.map charLexeme,
    chars_isToken _ t.methodNonempty t.methodToken, chars_isText _ _ t.uriNonempty,
    chars_isText _ _ t.versionNonempty⟩, textOf_chars _, textOf_chars _, textOf_chars _, ?_, ?_⟩
  · simp only [RequestLine.lexemes, RequestText.requestLine, textOf_append, textOf_chars,
      textOf_cons, textOf_nil, List.append_nil]
    rfl
  · intro rest stops
    have fieldStarts (field more : Bytes) (nonempty : field ≠ []) (text : ∀ c ∈ field, isText c) :
        StartsUnblank (field ++ more) := by
      obtain ⟨c, tail, rfl⟩ := List.exists_cons_of_ne_nil nonempty
      exact .text c (text c List.mem_cons_self)
    have version := (Lexes.chars t.version _ t.versionText).append (Lexes.lineBreak rest stops)
    have second := (Lexes.space _ (by
      rw [List.append_assoc]
      exact fieldStarts _ _ t.versionNonempty t.versionText)).append version
    have uri := (Lexes.chars t.uri _ t.uriText).append second
    have first := (Lexes.space _ (by
      rw [List.append_assoc]
      exact fieldStarts _ _ t.uriNonempty t.uriText)).append uri
    have method := (Lexes.chars t.method _ fun c member =>
      isText_token c (t.methodToken c member)).append first
    simpa only [RequestText.requestLine, RequestLine.lexemes, List.append_assoc] using method

theorem headers_lines (headers : List HeaderText) : ∃ lines : List HeaderLine,
    lines.map HeaderLine.header = headers.map HeaderText.header ∧
    textOf (lines.flatMap HeaderLine.lexemes) = headers.flatMap HeaderText.render ∧
    StartsUnblank (headers.flatMap HeaderText.render ++ crlf) ∧
    Lexes (headers.flatMap HeaderText.render ++ crlf)
      (lines.flatMap HeaderLine.lexemes ++ [.crlf]) [] := by
  have nothing : StartsUnblank [] := by
    intro c first
    cases first
  induction headers with
  | nil => exact ⟨[], rfl, rfl, .break, Lexes.lineBreak [] nothing⟩
  | cons h headers ih =>
      obtain ⟨lines, same, whole, starts, lexes⟩ := ih
      obtain ⟨line, header, text, lexed⟩ := headerText_line h
      refine ⟨line :: lines, ?_, ?_, ?_, ?_⟩
      · rw [List.map_cons, List.map_cons, header, same]
      · rw [List.flatMap_cons, List.flatMap_cons, textOf_append, text, whole]
      · obtain ⟨c, tail, name⟩ := List.exists_cons_of_ne_nil h.nameNonempty
        have token : isTokenChar c := h.nameToken c (by rw [name]; exact List.mem_cons_self)
        simp only [List.flatMap_cons, HeaderText.render, name, List.cons_append]
        exact .text c (isText_token c token)
      · rw [List.flatMap_cons, List.flatMap_cons, List.append_assoc, List.append_assoc]
        refine (lexed _ ?_).append lexes
        rw [List.append_nil]
        exact starts

theorem header_fits (line : HeaderLine) (h : HeaderText) (same : line.header = h.header) :
    line.Fits ↔ h.Fits := by
  simp only [HeaderLine.header, HeaderText.header, RequestHeader.mk.injEq] at same
  constructor
  · intro fits
    exact ⟨same.1 ▸ fits.name, same.2 ▸ fits.value⟩
  · intro fits
    exact ⟨same.1 ▸ fits.name, same.2 ▸ fits.value⟩

/-- A request text is lexed without loss into a reading of the same request. -/
theorem requestText_reading (t : RequestText) : ∃ q : Reading,
    q.request = t.request ∧ (q.Fits ↔ t.Fits) ∧ textOf q.lexemes ++ crlf = t.render ∧
    yylex t.render = ⟨(q.lexemes ++ [Lexeme.crlf]).map Lexeme.token, []⟩ := by
  obtain ⟨line, method, uri, version, text, lexed⟩ := requestText_line t
  obtain ⟨lines, same, whole, starts, lexes⟩ := headers_lines t.headers
  refine ⟨⟨line, lines⟩, ?_, ?_, ?_, ?_⟩
  · have count : lines.length = t.headers.length := by
      simpa using congrArg List.length same
    simp only [Reading.request, RequestText.request, method, uri, version, same, count]
  · constructor
    · intro fits
      refine ⟨?_, ?_, ?_, ?_⟩
      · rw [← method]; exact fits.requestLine.method
      · rw [← uri]; exact fits.requestLine.uri
      · rw [← version]; exact fits.requestLine.version
      · intro h member
        have image : h.header ∈ lines.map HeaderLine.header := by
          rw [same]
          exact List.mem_map_of_mem member
        obtain ⟨line, inside, equal⟩ := List.mem_map.mp image
        exact (header_fits line h equal).mp (fits.headerLines line inside)
    · intro fits
      refine ⟨⟨?_, ?_, ?_⟩, ?_⟩
      · rw [method]; exact fits.method
      · rw [uri]; exact fits.uri
      · rw [version]; exact fits.version
      · intro line member
        have image : line.header ∈ t.headers.map HeaderText.header := by
          rw [← same]
          exact List.mem_map_of_mem member
        obtain ⟨h, inside, equal⟩ := List.mem_map.mp image
        exact (header_fits line h equal.symm).mpr (fits.headers h inside)
  · rw [Reading.lexemes, textOf_append, text, whole]
    rfl
  · have joined := (lexed _ (by rw [List.append_nil]; exact starts)).append lexes
    simp only [Lexes, List.append_nil] at joined
    rw [RequestText.render, List.append_assoc, joined, Reading.lexemes, List.append_assoc]
    simp [yylex]

theorem isText_plain (c : UInt8) (text : isText c ∨ isWs c) : c ≠ cl ∧ c ≠ rf := by
  rcases text with text | blank
  · constructor
    · rintro rfl
      rw [not_text_cr] at text
      cases text
    · rintro rfl
      rw [not_text_lf] at text
      cases text
  · constructor <;> rintro rfl <;> cases blank

theorem requestLine_isLine (t : RequestText) : IsLine t.requestLine := by
  refine ⟨t.method ++ [0x20] ++ t.uri ++ [0x20] ++ t.version, by simp, ?_, rfl⟩
  intro c member
  apply isText_plain c
  simp only [List.mem_append, List.mem_singleton] at member
  rcases member with (((method | rfl) | uri) | rfl) | version
  · exact .inl (isText_token c (t.methodToken c method))
  · exact .inr rfl
  · exact .inl (t.uriText c uri)
  · exact .inr rfl
  · exact .inl (t.versionText c version)

theorem headerText_isLine (h : HeaderText) : IsLine h.render := by
  refine ⟨h.name ++ h.before ++ [0x3a] ++ h.after ++ h.value ++ h.trailing, by simp, ?_, rfl⟩
  intro c member
  apply isText_plain c
  simp only [List.mem_append, List.mem_singleton] at member
  rcases member with ((((name | before) | rfl) | after) | value) | trailing
  · exact .inl (isText_token c (h.nameToken c name))
  · exact .inr (h.beforeOws c before)
  · exact .inl rfl
  · exact .inr (h.afterOws c after)
  · exact h.valueText.chars c value
  · exact .inr (h.trailingOws c trailing)

private theorem parseScan_plain (content rest : Bytes) (i : Nat)
    (plain : ∀ c ∈ content, c ≠ cl ∧ c ≠ rf) :
    parseScan .start (content ++ rest) i = parseScan .start rest (i + content.length) := by
  induction content generalizing i with
  | nil => rfl
  | cons c content ih =>
      rw [List.cons_append, parseScan_cons _ (by decide), ParseState.step,
        if_neg (plain c List.mem_cons_self).1,
        ih _ fun d member => plain d (List.mem_cons_of_mem _ member), List.length_cons]
      congr 1
      omega

theorem parseScan_line (state : ParseState) (fresh : state = .start ∨ state = .crlf)
    (line rest : Bytes) (i : Nat) (isLine : IsLine line) :
    parseScan state (line ++ rest) i = parseScan .crlf rest (i + line.length) := by
  obtain ⟨content, nonempty, plain, rfl⟩ := isLine
  obtain ⟨c, tail, rfl⟩ := List.exists_cons_of_ne_nil nonempty
  have head : parseScan state (c :: tail ++ crlf ++ rest) i =
      parseScan .start (tail ++ (crlf ++ rest)) (i + 1) := by
    have notCr := (plain c List.mem_cons_self).1
    rcases fresh with rfl | rfl
    all_goals
      rw [List.append_assoc, List.cons_append, parseScan_cons _ (by decide), ParseState.step,
        if_neg notCr]
  rw [head, parseScan_plain tail _ _ fun d member => plain d (List.mem_cons_of_mem _ member)]
  have ended (n : Nat) : parseScan .start (crlf ++ rest) n = parseScan .crlf rest (n + 2) := rfl
  rw [ended]
  congr 1
  simp [crlf]
  omega

theorem parseScan_lines (lines : List Bytes) (rest : Bytes) (i : Nat)
    (all : ∀ line ∈ lines, IsLine line) :
    parseScan .crlf (lines.flatten ++ crlf ++ rest) i =
      (.crlfcrlf, i + (lines.flatten ++ crlf).length) := by
  induction lines generalizing i with
  | nil => cases rest <;> rfl
  | cons line lines ih =>
      rw [List.flatten_cons, List.append_assoc, List.append_assoc,
        parseScan_line _ (.inr rfl) _ _ _ (all line List.mem_cons_self), ← List.append_assoc,
        ih _ fun other member => all other (List.mem_cons_of_mem _ member)]
      congr 1
      simp only [List.length_append]
      omega

theorem render_lines (t : RequestText) : ∃ lines : List Bytes, (∀ line ∈ lines, IsLine line) ∧
    t.render = t.requestLine ++ (lines.flatten ++ crlf) := by
  refine ⟨t.headers.map HeaderText.render, ?_, ?_⟩
  · intro line member
    obtain ⟨h, -, rfl⟩ := List.mem_map.mp member
    exact headerText_isLine h
  · rw [RequestText.render, List.append_assoc, List.flatMap_def]

theorem parseScan_render (t : RequestText) (rest : Bytes) :
    parseScan .start (t.render ++ rest) 0 = (.crlfcrlf, t.render.length) := by
  obtain ⟨lines, all, split⟩ := render_lines t
  rw [split, List.append_assoc, parseScan_line _ (.inl rfl) _ _ _ (requestLine_isLine t),
    parseScan_lines lines rest _ all, Nat.zero_add]
  congr 1
  simp only [List.length_append]

theorem parse_text (t : RequestText) (rest : Bytes) (fits : t.Fits)
    (size : t.render.length ≤ 8192) : parse (t.render ++ rest) = .ok (some t.request) := by
  obtain ⟨q, request, bounds, -, lexed⟩ := requestText_reading t
  have finished : yyparse (yylex t.render).tokens newRequest = .finished t.request := by
    rw [lexed, ← request]
    exact (yyparse_finished _ _).mpr ⟨q, [], rfl, bounds.mpr fits, rfl⟩
  have looked : parsingBuf (t.render ++ rest) = t.render := by
    rw [parsingBuf, parseScan_render, List.take_left]
  simp only [parse, parseScan_render, if_neg (Nat.not_lt.mpr size), if_true, looked, finished]

/-- `parse` undoes serialisation: every field and header comes back, and the array of
headers has always had room for the next one. -/
theorem parse_undoes_render (t : RequestText) (fits : t.Fits) (size : t.render.length ≤ 8192) :
    ∃ r, parse t.render = .ok (some r) ∧ r.httpMethod = t.method ∧ r.httpUri = t.uri ∧
      r.httpVersion = t.version ∧ r.headers = t.headers.map HeaderText.header ∧
      r.headerCount = t.headers.length ∧ r.headerCap = headerCapAfter t.headers.length ∧
      ∀ k, k ≤ t.headers.length → k < headerCapAfter k := by
  have parsed := parse_text t [] fits size
  rw [List.append_nil] at parsed
  refine ⟨t.request, parsed, rfl, rfl, rfl, rfl, ?_, rfl, fun k _ => headerCapAfter_room k⟩
  exact List.length_map ..

def getText : RequestText where
  method := str "GET"
  uri := str "/"
  version := str "HTTP/1.1"
  headers := [⟨str "Accept", [], str " ", str "text/html; \t q=1", str " \t",
    by decide +kernel, by decide +kernel, by decide +kernel, by decide +kernel,
    ⟨by decide +kernel, ⟨_, rfl, rfl⟩, ⟨_, rfl, rfl⟩⟩, by decide +kernel⟩]
  methodNonempty := by decide +kernel
  methodToken := by decide +kernel
  uriNonempty := by decide +kernel
  uriText := by decide +kernel
  versionNonempty := by decide +kernel
  versionText := by decide +kernel

theorem getText_fits : getText.Fits := by
  refine ⟨by decide +kernel, by decide +kernel, by decide +kernel, ?_⟩
  intro h member
  rw [List.mem_singleton.mp member]
  exact ⟨by decide +kernel, by decide +kernel⟩

theorem parse_undoes_render_get : ∃ r, parse getText.render = .ok (some r) ∧
    r.httpMethod = str "GET" ∧ r.headers = [⟨str "Accept", str "text/html; \t q=1"⟩] := by
  obtain ⟨r, parsed, method, -, -, headers, -⟩ :=
    parse_undoes_render getText getText_fits (by decide +kernel)
  exact ⟨r, parsed, method, headers⟩

end Liso
