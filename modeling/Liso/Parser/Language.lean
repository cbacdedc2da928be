import Liso.Lib.Derivation
import Liso.Parser.Accounting

/-! The language of the grammar of parser.y, whatever its conflicts, and the header
blocks that `parse` accepts by its tables. -/

namespace Liso

open Yacc (Sym Rule)

def Lexeme.code (l : Lexeme) : Nat := l.token.1.code

theorem Lexeme.tokenChar_code (c : UInt8) :
    (tokenChar c).code = Token.tokenChar.code ∨ (tokenChar c).code = Token.digit.code ∨
      (tokenChar c).code = Token.dot.code := by
  simp only [code, token]
  split
  · exact .inr (.inl rfl)
  · split
    · exact .inr (.inr rfl)
    · exact .inl rfl

theorem Lexeme.separator_code (c : UInt8) :
    (separator c).code = Token.separators.code ∨ (separator c).code = Token.backslash.code := by
  simp only [code, token]
  split
  · exact .inr rfl
  · exact .inl rfl

theorem Lexeme.nameChar_code (l : Lexeme) :
    l.isNameChar ↔
      l.code = Token.tokenChar.code ∨ l.code = Token.digit.code ∨ l.code = Token.dot.code := by
  cases l with
  | tokenChar c => exact iff_of_true rfl (tokenChar_code c)
  | separator c =>
      refine iff_of_false Bool.false_ne_true ?_
      obtain read | read := separator_code c <;> rw [read] <;> decide
  | _ => exact iff_of_false Bool.false_ne_true (by simp only [code, token]; decide)

theorem Lexeme.textChar_code (l : Lexeme) :
    l.isTextChar ↔ l.isNameChar ∨ l.code = Token.separators.code ∨ l.code = Token.colon.code ∨
      l.code = Token.backslash.code := by
  cases l with
  | tokenChar c => exact iff_of_true rfl (.inl rfl)
  | separator c =>
      refine iff_of_true rfl (.inr ?_)
      obtain read | read := separator_code c <;> rw [read] <;> decide
  | colon => exact iff_of_true rfl (.inr (.inr (.inl rfl)))
  | _ =>
      refine iff_of_false Bool.false_ne_true ?_
      rw [nameChar_code]
      simp only [code, token]
      decide

theorem Lexeme.blank_code (l : Lexeme) :
    l.isBlank ↔ l.code = Token.sp.code ∨ l.code = Token.ws.code := by
  cases l with
  | tokenChar c =>
      refine iff_of_false Bool.false_ne_true ?_
      obtain read | read | read := tokenChar_code c <;> rw [read] <;> decide
  | separator c =>
      refine iff_of_false Bool.false_ne_true ?_
      obtain read | read := separator_code c <;> rw [read] <;> decide
  | sp => exact iff_of_true rfl (.inl rfl)
  | ws text => exact iff_of_true rfl (.inr rfl)
  | _ => exact iff_of_false Bool.false_ne_true (by simp only [code, token]; decide)

theorem Lexeme.code_ne_char {l : Lexeme} {t : Token} (read : l.code = t.code)
    (other : t ≠ .tokenChar ∧ t ≠ .digit ∧ t ≠ .dot ∧ t ≠ .separators ∧ t ≠ .backslash) :
    (∀ c, l ≠ .tokenChar c) ∧ ∀ c, l ≠ .separator c := by
  constructor
  · rintro c rfl
    obtain same | same | same := tokenChar_code c <;> rw [same] at read <;>
      revert read other <;> cases t <;> decide
  · rintro c rfl
    obtain same | same := separator_code c <;> rw [same] at read <;>
      revert read other <;> cases t <;> decide

theorem Lexeme.sp_of_code (l : Lexeme) (read : l.code = Token.sp.code) : l = .sp := by
  have character := code_ne_char read (by decide)
  cases l with
  | tokenChar c => exact absurd rfl (character.1 c)
  | separator c => exact absurd rfl (character.2 c)
  | sp => rfl
  | _ => exact absurd read (by simp only [code, token]; decide)

theorem Lexeme.colon_of_code (l : Lexeme) (read : l.code = Token.colon.code) : l = .colon := by
  have character := code_ne_char read (by decide)
  cases l with
  | tokenChar c => exact absurd rfl (character.1 c)
  | separator c => exact absurd rfl (character.2 c)
  | colon => rfl
  | _ => exact absurd read (by simp only [code, token]; decide)

theorem Lexeme.crlf_of_code (l : Lexeme) (read : l.code = Token.crlf.code) : l = .crlf := by
  have character := code_ne_char read (by decide)
  cases l with
  | tokenChar c => exact absurd rfl (character.1 c)
  | separator c => exact absurd rfl (character.2 c)
  | crlf => rfl
  | _ => exact absurd read (by simp only [code, token]; decide)

theorem Lexeme.code_pos (l : Lexeme) : l.code ≠ 0 := by
  unfold code
  cases l.token.1 <;> decide

/-- `request_line` as the grammar has it: any blank may stand inside the URI. -/
def IsRequestLine (ls : List Lexeme) : Prop :=
  ∃ M U V, ls = M ++ [.sp] ++ U ++ [.sp] ++ V ++ [.crlf] ∧
    IsToken M ∧ IsText Lexeme.isBlank U ∧ IsText Lexeme.isBlank V

def IsRequestHeaders (ls : List Lexeme) : Prop :=
  ∃ lines : List HeaderLine, ls = lines.flatMap HeaderLine.lexemes

def IsRequest (ls : List Lexeme) : Prop :=
  ∃ line headers, ls = line ++ headers ++ [.crlf] ∧ IsRequestLine line ∧ IsRequestHeaders headers

def Denotes : Nat → List Lexeme → Prop
  | 1, ls => ∃ l, ls = [l] ∧ l.isNameChar
  | 2, ls => IsToken ls
  | 3, ls => ∃ l, ls = [l] ∧ l.isTextChar
  | 4, ls => IsText Lexeme.isBlank ls
  | 5, ls => IsOws Lexeme.isBlank ls
  | 6, ls => IsRequestLine ls
  | 7, ls => ∃ line : HeaderLine, ls = line.lexemes
  | 8, ls => IsRequestHeaders ls
  | 9, ls => IsRequest ls
  | _, _ => False

def SpellsRule (r : Rule) (ls : List Lexeme) : Prop :=
  Spells Lexeme.code Denotes r.production.output ls

/-- Every rule of parser.y keeps to what its nonterminals stand for. -/
theorem denotes_closed : ∀ r ∈ yyrules, ∀ ls, SpellsRule r ls → Denotes r.lhs ls := by
  simp only [yyrules, List.forall_mem_cons, List.not_mem_nil, false_imp_iff, implies_true, and_true,
    SpellsRule, Rule.production, rule, List.map_cons, List.map_nil, Sym.symbol, term, nonterm,
    Spells, Denotes, Nonterminal.code]
  refine ⟨?accept, ?tokenChar, ?digit, ?dot, ?token, ?tokenMore, ?nameChar, ?separators, ?colon,
    ?backslash, ?text, ?textMore, ?noOws, ?sp, ?ws, ?requestLine, ?requestHeader, ?headersMore,
    ?noHeaders, ?request⟩
  case accept =>
    rintro _ ⟨_, _, rfl, _, l, _, rfl, code, -⟩
    exact l.code_pos code
  case tokenChar =>
    rintro _ ⟨l, _, rfl, code, rfl⟩
    exact ⟨l, rfl, l.nameChar_code.mpr (.inl code)⟩
  case digit =>
    rintro _ ⟨l, _, rfl, code, rfl⟩
    exact ⟨l, rfl, l.nameChar_code.mpr (.inr (.inl code))⟩
  case dot =>
    rintro _ ⟨l, _, rfl, code, rfl⟩
    exact ⟨l, rfl, l.nameChar_code.mpr (.inr (.inr code))⟩
  case token =>
    rintro _ ⟨_, _, rfl, ⟨l, rfl, name⟩, rfl⟩
    exact .char l name
  case tokenMore =>
    rintro _ ⟨ls, _, rfl, token, _, _, rfl, ⟨l, rfl, name⟩, rfl⟩
    simpa using IsToken.snoc ls l token name
  case nameChar =>
    rintro _ ⟨_, _, rfl, ⟨l, rfl, name⟩, rfl⟩
    exact ⟨l, rfl, l.textChar_code.mpr (.inl name)⟩
  case separators =>
    rintro _ ⟨l, _, rfl, code, rfl⟩
    exact ⟨l, rfl, l.textChar_code.mpr (.inr (.inl code))⟩
  case colon =>
    rintro _ ⟨l, _, rfl, code, rfl⟩
    exact ⟨l, rfl, l.textChar_code.mpr (.inr (.inr (.inl code)))⟩
  case backslash =>
    rintro _ ⟨l, _, rfl, code, rfl⟩
    exact ⟨l, rfl, l.textChar_code.mpr (.inr (.inr (.inr code)))⟩
  case text =>
    rintro _ ⟨_, _, rfl, ⟨l, rfl, char⟩, rfl⟩
    exact .char l char
  case textMore =>
    rintro _ ⟨ls, _, rfl, text, ows, _, rfl, inner, _, _, rfl, ⟨l, rfl, char⟩, rfl⟩
    simpa using IsText.snoc ls ows l text inner char
  case noOws =>
    rintro _ rfl
    exact .none
  case sp =>
    rintro _ ⟨l, _, rfl, code, rfl⟩
    exact .some l (l.blank_code.mpr (.inl code))
  case ws =>
    rintro _ ⟨l, _, rfl, code, rfl⟩
    exact .some l (l.blank_code.mpr (.inr code))
  case requestLine =>
    rintro _ ⟨M, _, rfl, method, l, _, rfl, first, U, _, rfl, uri, l', _, rfl, second, V, _, rfl,
      version, l'', _, rfl, last, rfl⟩
    obtain rfl := l.sp_of_code first
    obtain rfl := l'.sp_of_code second
    obtain rfl := l''.crlf_of_code last
    exact ⟨M, U, V, by simp, method, uri, version⟩
  case requestHeader =>
    rintro _ ⟨name, _, rfl, nameToken, before, _, rfl, beforeOws, l, _, rfl, colon, after, _, rfl,
      afterOws, value, _, rfl, valueText, trailing, _, rfl, trailingOws, l', _, rfl, last, rfl⟩
    obtain rfl := l.colon_of_code colon
    obtain rfl := l'.crlf_of_code last
    exact ⟨⟨name, before, after, value, trailing, nameToken, beforeOws, afterOws, valueText,
      trailingOws⟩, by simp [HeaderLine.lexemes]⟩
  case headersMore =>
    rintro _ ⟨_, _, rfl, ⟨lines, rfl⟩, _, _, rfl, ⟨line, rfl⟩, rfl⟩
    exact ⟨lines ++ [line], by simp⟩
  case noHeaders =>
    rintro _ rfl
    exact ⟨[], rfl⟩
  case request =>
    rintro _ ⟨line, _, rfl, requestLine, headers, _, rfl, requestHeaders, l, _, rfl, last, rfl⟩
    obtain rfl := l.crlf_of_code last
    exact ⟨line, headers, by simp, requestLine, requestHeaders⟩

def Derived (n : Nat) (ls : List Lexeme) : Prop :=
  Yields (yygrammar.cfg Nonterminal.request.code) [.nonterminal n] (ls.map Lexeme.code)

theorem Derived.by_rule (r : Rule) (mem : r ∈ yyrules) {ls : List Lexeme}
    (spells : Spells Lexeme.code Derived r.production.output ls) : Derived r.lhs ls := by
  have member : r.production ∈ (yygrammar.cfg Nonterminal.request.code).rules :=
    (yygrammar.mem_cfg _ _).mpr ⟨r, mem, rfl⟩
  exact Yields.rule member (spells.yields fun _ _ derived => derived)

namespace Lexeme

variable (l : Lexeme)

theorem derived_nameChar (name : l.isNameChar) :
    Derived Nonterminal.allowedCharForToken.code [l] := by
  obtain code | code | code := l.nameChar_code.mp name
  · exact .by_rule (rule .allowedCharForToken [term .tokenChar]) (by decide)
      ⟨l, [], rfl, code, rfl⟩
  · exact .by_rule (rule .allowedCharForToken [term .digit]) (by decide) ⟨l, [], rfl, code, rfl⟩
  · exact .by_rule (rule .allowedCharForToken [term .dot]) (by decide) ⟨l, [], rfl, code, rfl⟩

theorem derived_textChar (char : l.isTextChar) :
    Derived Nonterminal.allowedCharForText.code [l] := by
  obtain name | code | code | code := l.textChar_code.mp char
  · exact .by_rule (rule .allowedCharForText [nonterm .allowedCharForToken]) (by decide)
      ⟨[l], [], rfl, l.derived_nameChar name, rfl⟩
  · exact .by_rule (rule .allowedCharForText [term .separators]) (by decide)
      ⟨l, [], rfl, code, rfl⟩
  · exact .by_rule (rule .allowedCharForText [term .colon]) (by decide) ⟨l, [], rfl, code, rfl⟩
  · exact .by_rule (rule .allowedCharForText [term .backslash]) (by decide)
      ⟨l, [], rfl, code, rfl⟩

end Lexeme

section Derived

variable {ls : List Lexeme}

theorem derived_token (token : IsToken ls) : Derived Nonterminal.token.code ls := by
  induction token with
  | char l name =>
      exact .by_rule (rule .token [nonterm .allowedCharForToken]) (by decide)
        ⟨[l], [], rfl, l.derived_nameChar name, rfl⟩
  | snoc ls l _ name ih =>
      exact .by_rule (rule .token [nonterm .token, nonterm .allowedCharForToken]) (by decide)
        ⟨ls, [l], rfl, ih, [l], [], rfl, l.derived_nameChar name, rfl⟩

theorem derived_ows (ows : IsOws Lexeme.isBlank ls) : Derived Nonterminal.ows.code ls := by
  cases ows with
  | none => exact .by_rule (rule .ows []) (by decide) rfl
  | some l blank =>
      obtain code | code := l.blank_code.mp blank
      · exact .by_rule (rule .ows [term .sp]) (by decide) ⟨l, [], rfl, code, rfl⟩
      · exact .by_rule (rule .ows [term .ws]) (by decide) ⟨l, [], rfl, code, rfl⟩

theorem derived_text (text : IsText Lexeme.isBlank ls) : Derived Nonterminal.text.code ls := by
  induction text with
  | char l char =>
      exact .by_rule (rule .text [nonterm .allowedCharForText]) (by decide)
        ⟨[l], [], rfl, l.derived_textChar char, rfl⟩
  | snoc ls ows l _ inner char ih =>
      exact .by_rule (rule .text [nonterm .text, nonterm .ows, nonterm .allowedCharForText])
        (by decide) ⟨ls, ows ++ [l], List.append_assoc .., ih, ows, [l], rfl, derived_ows inner,
          [l], [], rfl, l.derived_textChar char, rfl⟩

theorem derived_requestLine (line : IsRequestLine ls) :
    Derived Nonterminal.requestLine.code ls := by
  obtain ⟨M, U, V, rfl, method, uri, version⟩ := line
  exact .by_rule (rule .requestLine
      [nonterm .token, term .sp, nonterm .text, term .sp, nonterm .text, term .crlf]) (by decide)
    ⟨M, .sp :: (U ++ .sp :: (V ++ [.crlf])), by simp, derived_token method,
      .sp, _, rfl, rfl, U, .sp :: (V ++ [.crlf]), rfl, derived_text uri,
      .sp, _, rfl, rfl, V, [.crlf], rfl, derived_text version, .crlf, [], rfl, rfl, rfl⟩

theorem derived_headerLine (line : HeaderLine) :
    Derived Nonterminal.requestHeader.code line.lexemes := by
  obtain ⟨name, before, after, value, trailing, nameToken, beforeOws, afterOws, valueText,
    trailingOws⟩ := line
  exact .by_rule (rule .requestHeader [nonterm .token, nonterm .ows, term .colon, nonterm .ows,
      nonterm .text, nonterm .ows, term .crlf]) (by decide)
    ⟨name, before ++ .colon :: (after ++ (value ++ (trailing ++ [.crlf]))),
      by simp [HeaderLine.lexemes], derived_token nameToken, before, _, rfl, derived_ows beforeOws,
      .colon, _, rfl, rfl, after, _, rfl, derived_ows afterOws, value, _, rfl,
      derived_text valueText, trailing, [.crlf], rfl, derived_ows trailingOws,
      .crlf, [], rfl, rfl, rfl⟩

theorem derived_headers (lines : List HeaderLine) :
    Derived Nonterminal.requestHeaders.code (lines.flatMap HeaderLine.lexemes) := by
  induction lines using List.reverseRecOn with
  | nil => exact .by_rule (rule .requestHeaders []) (by decide) rfl
  | append_singleton lines line ih =>
      exact .by_rule (rule .requestHeaders [nonterm .requestHeaders, nonterm .requestHeader])
        (by decide) ⟨_, line.lexemes, by simp, ih, line.lexemes, [], by simp,
          derived_headerLine line, rfl⟩

theorem derived_request (request : IsRequest ls) : Derived Nonterminal.request.code ls := by
  obtain ⟨line, _, rfl, requestLine, lines, rfl⟩ := request
  exact .by_rule (rule .request [nonterm .requestLine, nonterm .requestHeaders, term .crlf])
    (by decide) ⟨line, lines.flatMap HeaderLine.lexemes ++ [.crlf], List.append_assoc ..,
      derived_requestLine requestLine, _, [.crlf], rfl, derived_headers lines,
      .crlf, [], rfl, rfl, rfl⟩

end Derived

theorem mem_language_request (ls : List Lexeme) :
    ls.map Lexeme.code ∈ (yygrammar.cfg Nonterminal.request.code).language ↔ IsRequest ls := by
  refine ⟨fun sentence => ?_, fun request => mem_language_yields.mpr (derived_request request)⟩
  have yields := mem_language_yields.mp sentence
  have closed : ∀ r ∈ (yygrammar.cfg Nonterminal.request.code).rules, ∀ ls,
      Spells Lexeme.code Denotes r.output ls → Denotes r.input ls := by
    intro _ mem ls spells
    obtain ⟨r, member, rfl⟩ := (yygrammar.mem_cfg _ _).mp mem
    exact denotes_closed r member ls spells
  obtain ⟨_, _, rfl, request, rfl⟩ := yields.spells closed ls rfl
  rwa [List.append_nil]

theorem IsText.append {blank : Lexeme → Bool} {ls ows more : List Lexeme} (text : IsText blank ls)
    (inner : IsOws blank ows) (last : IsText blank more) : IsText blank (ls ++ ows ++ more) := by
  induction last with
  | char l char => exact .snoc ls ows l text inner char
  | snoc more ows' l _ inner' char ih =>
      simpa using IsText.snoc (ls ++ ows ++ more) ows' l ih inner' char

theorem IsText.mono {blank blank' : Lexeme → Bool} (allowed : ∀ l, blank l → blank' l)
    {ls : List Lexeme} (text : IsText blank ls) : IsText blank' ls := by
  induction text with
  | char l char => exact .char l char
  | snoc ls ows l _ inner char ih =>
      cases inner with
      | none => exact .snoc ls [] l ih .none char
      | some w isBlank => exact .snoc ls [w] l ih (.some w (allowed w isBlank)) char

theorem Lexeme.blank_of_ws (l : Lexeme) (ws : l.isWs) : l.isBlank := by
  cases l with
  | ws text => rfl
  | _ => exact absurd ws Bool.false_ne_true

theorem IsText.firstSpace {ls : List Lexeme} (text : IsText Lexeme.isBlank ls) :
    IsText Lexeme.isWs ls ∨ ∃ front rest, ls = front ++ .sp :: rest ∧
      IsText Lexeme.isWs front ∧ IsText Lexeme.isBlank rest := by
  induction text with
  | char l char => exact .inl (.char l char)
  | snoc ls ows l _ inner char ih =>
      obtain spaceless | ⟨front, rest, rfl, first, last⟩ := ih
      · cases inner with
        | none => exact .inl (.snoc ls [] l spaceless .none char)
        | some w blank =>
            cases w with
            | sp => exact .inr ⟨ls, [l], by simp, spaceless, .char l char⟩
            | ws text => exact .inl (.snoc ls [.ws text] l spaceless (.some _ rfl) char)
            | _ => exact absurd blank Bool.false_ne_true
      · exact .inr ⟨front, rest ++ ows ++ [l], by simp, first, .snoc rest ows l last inner char⟩

theorem isRequestLine_iff (ls : List Lexeme) :
    IsRequestLine ls ↔ ∃ line : RequestLine, ls = line.lexemes := by
  constructor
  · rintro ⟨M, U, V, rfl, method, uri, version⟩
    obtain spaceless | ⟨front, rest, rfl, first, last⟩ := uri.firstSpace
    · exact ⟨⟨M, U, V, method, spaceless, version⟩, rfl⟩
    · have whole := last.append (.some .sp rfl) version
      exact ⟨⟨M, front, rest ++ [.sp] ++ V, method, first, whole⟩, by simp [RequestLine.lexemes]⟩
  · rintro ⟨line, rfl⟩
    exact ⟨line.method, line.uri, line.version, rfl, line.methodToken,
      line.uriText.mono Lexeme.blank_of_ws, line.versionText⟩

theorem isRequest_iff (ls : List Lexeme) :
    IsRequest ls ↔ ∃ q : Reading, ls = q.lexemes ++ [.crlf] := by
  constructor
  · rintro ⟨_, _, rfl, requestLine, lines, rfl⟩
    obtain ⟨line, rfl⟩ := (isRequestLine_iff _).mp requestLine
    exact ⟨⟨line, lines⟩, rfl⟩
  · rintro ⟨q, rfl⟩
    exact ⟨_, _, rfl, (isRequestLine_iff _).mpr ⟨q.requestLine, rfl⟩, q.headerLines, rfl⟩

/-- A sentence of parser.y. -/
def Sentence (tokens : List (Token × Yystype)) : Prop :=
  tokens.map (fun token => token.1.code) ∈ (yygrammar.cfg Nonterminal.request.code).language

theorem sentence_lexemes (ls : List Lexeme) :
    Sentence (ls.map Lexeme.token) ↔ ∃ q : Reading, ls = q.lexemes ++ [.crlf] := by
  have codes : (ls.map Lexeme.token).map (fun token => token.1.code) = ls.map Lexeme.code :=
    List.map_map
  rw [Sentence, codes, mem_language_request, isRequest_iff]

theorem yyparse_sentence (ls : List Lexeme)
    (safe : ∀ fault, yyparse (ls.map Lexeme.token) newRequest ≠ .fault fault) :
    (∃ r, yyparse (ls.map Lexeme.token) newRequest = .finished r) ↔
      ∃ front, front <+: ls.map Lexeme.token ∧ Sentence front := by
  constructor
  · rintro ⟨r, finished⟩
    obtain ⟨q, rest, rfl, -, -⟩ := (yyparse_finished ls r).mp finished
    refine ⟨(q.lexemes ++ [Lexeme.crlf]).map Lexeme.token, ⟨rest.map Lexeme.token, by simp⟩, ?_⟩
    exact (sentence_lexemes _).mpr ⟨q, rfl⟩
  · rintro ⟨_, ⟨rest, whole⟩, sentence⟩
    obtain ⟨front, back, rfl, rfl, rfl⟩ := List.map_eq_append_iff.mp whole.symm
    obtain ⟨q, rfl⟩ := (sentence_lexemes front).mp sentence
    have fits : q.Fits := by
      by_contra excess
      obtain ⟨fault, faulty⟩ :=
        (yyparse_fault (q.lexemes ++ [.crlf] ++ back)).mpr ⟨q, .crlf :: back, by simp, excess⟩
      exact safe fault faulty
    exact ⟨q.request, (yyparse_finished _ _).mpr ⟨q, back, by simp, fits, rfl⟩⟩

/-- `parse` accepts a buffer exactly where it holds the end of a header block and the tokens
up to it begin with a sentence of parser.y, unless it runs past the end of an array. -/
theorem parse_language (buffer : Bytes) :
    (∃ request, parse buffer = .ok (some request)) ↔
      (parseScan .start buffer 0).1 = .crlfcrlf ∧
        (∃ front, front <+: (yylex (parsingBuf buffer)).tokens ∧ Sentence front) ∧
        ∀ fault, parse buffer ≠ .error fault := by
  obtain ⟨ls, tokens, -, -⟩ := yylex_lexemes (parsingBuf buffer)
  simp only [parse, tokens]
  by_cases long : (parseScan .start buffer 0).2 > 8192
  · simp [long]
  by_cases ended : (parseScan .start buffer 0).1 = .crlfcrlf
  · simp only [long, ended, if_false, if_true, true_and]
    cases outcome : yyparse (ls.map Lexeme.token) newRequest with
    | fault fault => simp
    | finished request =>
        have safe : ∀ fault, yyparse (ls.map Lexeme.token) newRequest ≠ .fault fault := by
          simp [outcome]
        have sentence := (yyparse_sentence ls safe).mp ⟨request, outcome⟩
        simpa using sentence
    | _ =>
        have safe : ∀ fault, yyparse (ls.map Lexeme.token) newRequest ≠ .fault fault := by
          simp [outcome]
        have refused := mt (yyparse_sentence ls safe).mpr (by simp [outcome])
        simpa using refused
  · simp [long, ended]

end Liso
