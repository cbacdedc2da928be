import Mathlib.Data.List.TakeWhile
import Liso.Parser.Phases

/-! What the lexer makes of a buffer: one lexeme at a time, and the bytes that
no rule matches dropped. -/

namespace Liso

def isText (c : UInt8) : Bool := isTokenChar c || (isSeparator c && !isWs c)

def charLexeme (c : UInt8) : Lexeme :=
  if c = 0x3a then .colon else if isSeparator c then .separator c else .tokenChar c

def blankLexeme (w : Bytes) : Lexeme := if w = [0x20] then .sp else .ws w

theorem charLexeme_text (c : UInt8) : (charLexeme c).text = [c] := by
  rw [charLexeme]
  split
  · next colon => rw [colon]; rfl
  · split <;> rfl

theorem blankLexeme_text (w : Bytes) : (blankLexeme w).text = w := by
  rw [blankLexeme]
  split
  · next space => rw [space]; rfl
  · rfl

theorem not_text_ws (c : UInt8) (blank : isWs c) : isText c = false := by
  have excluded := every_byte (fun c => !isWs c || !isText c) (by decide +kernel) c
  simpa [blank] using excluded

theorem not_text_cr : isText cl = false := by decide

theorem not_text_lf : isText rf = false := by decide

def Lexeme.Lexed : Lexeme → Prop
  | .tokenChar c => isTokenChar c
  | .separator c => isText c
  | .ws w => w ≠ [] ∧ ∀ c ∈ w, isWs c
  | _ => True

theorem charLexeme_lexed (c : UInt8) (text : isText c) : (charLexeme c).Lexed := by
  rw [charLexeme]
  split
  · trivial
  · split
    · exact text
    · next separator =>
        rw [isText, Bool.or_eq_true] at text
        rcases text with token | other
        · exact token
        · simp [separator] at other

theorem blankLexeme_lexed (w : Bytes) (nonempty : w ≠ []) (blank : ∀ c ∈ w, isWs c) :
    (blankLexeme w).Lexed := by
  rw [blankLexeme]
  split
  · trivial
  · exact ⟨nonempty, blank⟩

def loneToken (c : UInt8) : Option (Nat × (Token × Yystype)) :=
  (Flex.best lexRules [c]).map fun (n, rule) => (n, rule.action [c])

private theorem loneToken_text (c : UInt8) (text : isText c) :
    loneToken c = some (1, (charLexeme c).token) := by
  have checked := every_byte (fun c => !isText c || loneToken c = some (1, (charLexeme c).token))
    (by decide +kernel) c
  simpa [text] using checked

private theorem loneToken_stray (c : UInt8) (text : isText c = false) (blank : isWs c = false) :
    (loneToken c).map Prod.fst = some 0 := by
  have checked := every_byte
    (fun c => isText c || isWs c || (loneToken c).map Prod.fst = some 0) (by decide +kernel) c
  simpa [text, blank] using checked

private theorem best_first (c : UInt8) (rest : Bytes) (notBreak : ¬ (c = cl ∧ rest.head? = some rf))
    (notWs : isWs c = false) : Flex.best lexRules (c :: rest) = Flex.best lexRules [c] := by
  refine Flex.best_congr _ _ _ fun rule member => ?_
  have single (p : UInt8 → Bool) : (one p).longest (c :: rest) = (one p).longest [c] := by
    simp only [Flex.Pattern.longest, Flex.matchHead, one]
    cases p c <;> rfl
  have lineBreak (star : Option (UInt8 → Bool)) (line : List UInt8)
      (other : ¬ (c = cl ∧ line.head? = some rf)) :
      (⟨[(· = 0x0d), (· = 0x0a)], star⟩ : Flex.Pattern UInt8).longest (c :: line) = none := by
    cases line with
    | nil => by_cases cr : c = 0x0d <;> simp [Flex.Pattern.longest, Flex.matchHead, cr]
    | cons d line =>
        by_cases cr : c = 0x0d
        · have notLf : d ≠ 0x0a := fun lf => other ⟨cr, by rw [lf]; rfl⟩
          simp [Flex.Pattern.longest, Flex.matchHead, cr, notLf]
        · simp [Flex.Pattern.longest, Flex.matchHead, cr]
  have noBreak (star : Option (UInt8 → Bool)) :
      (⟨[(· = 0x0d), (· = 0x0a)], star⟩ : Flex.Pattern UInt8).longest (c :: rest) =
        (⟨[(· = 0x0d), (· = 0x0a)], star⟩ : Flex.Pattern UInt8).longest [c] := by
    rw [lineBreak star rest notBreak, lineBreak star [] (by simp)]
  have noBlank : (⟨[], some isWs⟩ : Flex.Pattern UInt8).longest (c :: rest) =
      (⟨[], some isWs⟩ : Flex.Pattern UInt8).longest [c] := by
    simp [Flex.Pattern.longest, Flex.matchHead, notWs]
  simp only [lexRules, List.mem_cons, List.not_mem_nil, or_false] at member
  rcases member with rfl | rfl | rfl | rfl | rfl | rfl | rfl | rfl | rfl | rfl
  all_goals first | exact single _ | exact noBreak _ | exact noBlank

theorem yylex_char (c : UInt8) (rest : Bytes) (text : isText c) :
    yylex (c :: rest) = (yylex rest).token (charLexeme c).token := by
  have notBreak : ¬ (c = cl ∧ rest.head? = some rf) := by
    rintro ⟨rfl, -⟩
    rw [not_text_cr] at text
    cases text
  have notWs : isWs c = false := by
    cases blank : isWs c with
    | false => rfl
    | true => rw [not_text_ws c blank] at text; cases text
  have single := best_first c rest notBreak notWs
  obtain ⟨⟨n, rule⟩, wins, token⟩ := Option.map_eq_some_iff.mp (loneToken_text c text)
  simp only [Prod.mk.injEq] at token
  obtain ⟨rfl, token⟩ := token
  have scanned := Flex.scan_match lexRules [c] rest rule (by simp)
    (by rw [List.singleton_append, single, wins]; rfl)
  rw [token] at scanned
  exact scanned

theorem yylex_stray (c : UInt8) (rest : Bytes) (text : isText c = false) (blank : isWs c = false)
    (notBreak : ¬ (c = cl ∧ rest.head? = some rf)) : yylex (c :: rest) = (yylex rest).echo c := by
  refine Flex.scan_echo lexRules c rest fun n rule wins => ?_
  rw [best_first c rest notBreak blank] at wins
  have none := loneToken_stray c text blank
  simp [loneToken, wins] at none

private theorem blanks_end (w rest : Bytes) (blank : ∀ c ∈ w, isWs c)
    (stops : ∀ c, rest.head? = some c → isWs c = false) : (w ++ rest).takeWhile isWs = w := by
  rw [List.takeWhile_append_of_pos blank]
  cases rest with
  | nil => simp
  | cons c rest => simp [stops c rfl]

private theorem space_wins (rest : Bytes) (stops : ∀ c, rest.head? = some c → isWs c = false) :
    Flex.best lexRules ([0x20] ++ rest) = some (1, ⟨one (· = 0x20), charToken .sp⟩) := by
  have blank : (⟨[], some isWs⟩ : Flex.Pattern UInt8).longest (0x20 :: rest) = some 1 := by
    have run := blanks_end [0x20] rest (by simp [isWs]) stops
    simp only [List.singleton_append] at run
    simp only [Flex.Pattern.longest, Flex.matchHead, run]
    rfl
  apply Flex.best_wins (lexRules.take 2) (lexRules.drop 3) _ _ 1 rfl
  · simp [lexRules, one, Flex.Pattern.longest, Flex.matchHead]
  · intro r member m long
    simp only [lexRules, List.drop_succ_cons, List.drop_zero, List.mem_cons, List.not_mem_nil,
      or_false] at member
    rcases member with rfl | others
    · rw [List.singleton_append, blank] at long
      cases long
      exact Nat.le_refl 1
    · rcases others with rfl | rfl | rfl | rfl | rfl | rfl
      all_goals cases long
      exact Nat.le_refl 1

private theorem blanks_win (w rest : Bytes) (nonempty : w ≠ []) (space : w ≠ [0x20])
    (blank : ∀ c ∈ w, isWs c) (stops : ∀ c, rest.head? = some c → isWs c = false) :
    Flex.best lexRules (w ++ rest) =
      some (w.length, ⟨⟨[], some isWs⟩, fun yytext => (.ws, .str yytext)⟩) := by
  have run := blanks_end w rest blank stops
  have hit : (⟨[], some isWs⟩ : Flex.Pattern UInt8).longest (w ++ rest) = some w.length := by
    simp only [Flex.Pattern.longest, Flex.matchHead, run, List.length_nil, Nat.zero_add]
  obtain ⟨c, tail, rfl⟩ := List.exists_cons_of_ne_nil nonempty
  have first : c = 0x20 ∨ c = 0x09 := by simpa [isWs] using blank c List.mem_cons_self
  apply Flex.best_wins (lexRules.take 3) (lexRules.drop 4) _ _ _ hit
  · have two : c = 0x20 → 1 < (c :: tail).length := by
      rintro rfl
      cases tail with
      | nil => exact absurd rfl space
      | cons d tail => simp
    intro r member m long
    simp only [lexRules, List.take_succ_cons, List.take_zero, List.mem_cons, List.not_mem_nil,
      or_false] at member
    rcases first with rfl | rfl
    all_goals
      rcases member with rfl | rfl | rfl
      all_goals cases long
    exact two rfl
  · intro r member m long
    simp only [lexRules, List.drop_succ_cons, List.drop_zero, List.mem_cons, List.not_mem_nil,
      or_false] at member
    have some_one : m = 1 → m ≤ (c :: tail).length := by
      rintro rfl
      simp
    rcases first with rfl | rfl
    all_goals
      rcases member with rfl | rfl | rfl | rfl | rfl | rfl
      all_goals
        cases long
      exact some_one rfl

theorem yylex_blank (w rest : Bytes) (nonempty : w ≠ []) (blank : ∀ c ∈ w, isWs c)
    (stops : ∀ c, rest.head? = some c → isWs c = false) :
    yylex (w ++ rest) = (yylex rest).token (blankLexeme w).token := by
  by_cases space : w = [0x20]
  · subst space
    exact Flex.scan_match lexRules [0x20] rest _ (by simp) (space_wins rest stops)
  · rw [blankLexeme, if_neg space]
    exact Flex.scan_match lexRules w rest _ nonempty (blanks_win w rest nonempty space blank stops)

private theorem lineBreak_longest (w rest : Bytes) (blank : ∀ c ∈ w, isWs c)
    (stops : ∀ c, rest.head? = some c → isWs c = false) :
    (⟨[(· = 0x0d), (· = 0x0a)], some isWs⟩ : Flex.Pattern UInt8).longest (crlf ++ w ++ rest) =
      some (2 + w.length) := by
  have run := blanks_end w rest blank stops
  simp [Flex.Pattern.longest, Flex.matchHead, crlf, cl, rf, run]

private theorem crlf_wins (rest : Bytes) (stops : ∀ c, rest.head? = some c → isWs c = false) :
    Flex.best lexRules (crlf ++ rest) =
      some (2, ⟨⟨[(· = 0x0d), (· = 0x0a)], none⟩, fun _ => (.crlf, .unset)⟩) := by
  have folded := lineBreak_longest [] rest (by simp) stops
  rw [List.append_nil] at folded
  apply Flex.best_wins (lexRules.take 1) (lexRules.drop 2) _ _ 2 rfl
  · simp [lexRules, one, Flex.Pattern.longest, Flex.matchHead, crlf, cl]
  · intro r member m long
    simp only [lexRules, List.drop_succ_cons, List.drop_zero, List.mem_cons, List.not_mem_nil,
      or_false] at member
    rcases member with rfl | rfl | rfl | rfl | rfl | rfl | rfl | rfl
    case inr.inr.inr.inr.inr.inr.inr =>
      rw [folded] at long
      cases long
      exact Nat.le_refl 2
    all_goals cases long
    exact Nat.zero_le 2

private theorem lws_wins (w rest : Bytes) (nonempty : w ≠ []) (blank : ∀ c ∈ w, isWs c)
    (stops : ∀ c, rest.head? = some c → isWs c = false) :
    Flex.best lexRules (crlf ++ w ++ rest) =
      some ((crlf ++ w).length,
        ⟨⟨[(· = 0x0d), (· = 0x0a)], some isWs⟩, fun _ => (.lws, .unset)⟩) := by
  have folded := lineBreak_longest w rest blank stops
  have long : 0 < w.length := List.length_pos_of_ne_nil nonempty
  have whole : (crlf ++ w).length = 2 + w.length := by
    rw [List.length_append]
    rfl
  rw [whole]
  refine Flex.best_wins (lexRules.take 9) [] _ _ _ folded ?_ (by simp)
  intro r member m short
  simp only [lexRules, List.take_succ_cons, List.take_zero, List.mem_cons, List.not_mem_nil,
    or_false] at member
  rcases member with rfl | rfl | rfl | rfl | rfl | rfl | rfl | rfl | rfl
  all_goals cases short
  · exact Nat.lt_add_of_pos_right long
  · exact Nat.lt_of_lt_of_le Nat.two_pos (Nat.le_add_right 2 w.length)

theorem yylex_crlf (rest : Bytes) (stops : ∀ c, rest.head? = some c → isWs c = false) :
    yylex (crlf ++ rest) = (yylex rest).token Lexeme.crlf.token :=
  Flex.scan_match lexRules crlf rest _ (by simp [crlf]) (crlf_wins rest stops)

theorem yylex_lws (w rest : Bytes) (nonempty : w ≠ []) (blank : ∀ c ∈ w, isWs c)
    (stops : ∀ c, rest.head? = some c → isWs c = false) :
    yylex (crlf ++ w ++ rest) = (yylex rest).token (Lexeme.lws w).token :=
  Flex.scan_match lexRules (crlf ++ w) rest _ (by simp [crlf])
    (lws_wins w rest nonempty blank stops)

private theorem dropWhile_stops (text : Bytes) (c : UInt8)
    (head : (text.dropWhile isWs).head? = some c) : isWs c = false := by
  have stopped := List.head?_dropWhile_not isWs text
  rw [head] at stopped
  simpa using stopped

private theorem takeWhile_ws (text : Bytes) (c : UInt8) (member : c ∈ text.takeWhile isWs) :
    isWs c := List.mem_takeWhile_imp member

/-- The tokens are those of lexemes, which are the whole buffer where nothing was dropped. -/
theorem yylex_lexemes (input : Bytes) :
    ∃ ls : List Lexeme, (yylex input).tokens = ls.map Lexeme.token ∧ (∀ l ∈ ls, l.Lexed) ∧
      ((yylex input).echoed = [] → textOf ls = input) := by
  induction size : input.length using Nat.strongRecOn generalizing input with
  | ind n ih =>
      have lexeme (l : Lexeme) (rest : Bytes) (lexed : l.Lexed) (split : input = l.text ++ rest)
          (scanned : yylex input = (yylex rest).token l.token) (shorter : rest.length < n) :
          ∃ ls : List Lexeme, (yylex input).tokens = ls.map Lexeme.token ∧ (∀ l ∈ ls, l.Lexed) ∧
            ((yylex input).echoed = [] → textOf ls = input) := by
        obtain ⟨ls, tokens, all, whole⟩ := ih rest.length shorter rest rfl
        refine ⟨l :: ls, ?_, List.forall_mem_cons.mpr ⟨lexed, all⟩, ?_⟩
        · rw [scanned, List.map_cons, ← tokens]
          rfl
        · rw [scanned, split, textOf_cons]
          exact fun none => congrArg (l.text ++ ·) (whole none)
      cases input with
      | nil => exact ⟨[], rfl, by simp, fun _ => rfl⟩
      | cons c rest =>
          have split := List.takeWhile_append_dropWhile (p := isWs) (l := c :: rest)
          subst size
          by_cases text : isText c
          · exact lexeme (charLexeme c) rest (charLexeme_lexed c text)
              (by rw [charLexeme_text]; rfl) (yylex_char c rest text) (by simp)
          by_cases blank : isWs c
          · have nonempty : (c :: rest).takeWhile isWs ≠ [] := by simp [blank]
            refine lexeme (blankLexeme ((c :: rest).takeWhile isWs)) ((c :: rest).dropWhile isWs)
              (blankLexeme_lexed _ nonempty (takeWhile_ws (c :: rest))) ?_ ?_ ?_
            · rw [blankLexeme_text, split]
            · have scanned := yylex_blank _ _ nonempty (takeWhile_ws (c :: rest))
                (dropWhile_stops (c :: rest))
              rwa [split] at scanned
            · simp only [List.dropWhile_cons, blank, if_true, List.length_cons]
              exact Nat.lt_succ_of_le (List.length_dropWhile_le isWs rest)
          by_cases lineBreak : c = cl ∧ rest.head? = some rf
          · obtain ⟨rfl, second⟩ := lineBreak
            cases rest with
            | nil => cases second
            | cons d line =>
                cases second
                have split := List.takeWhile_append_dropWhile (p := isWs) (l := line)
                have below : (line.dropWhile isWs).length < (cl :: rf :: line).length := by
                  have bound := List.length_dropWhile_le isWs line
                  simp only [List.length_cons]
                  omega
                by_cases empty : line.takeWhile isWs = []
                · rw [empty, List.nil_append] at split
                  have shorter : line.length < (cl :: rf :: line).length := by
                    simp only [List.length_cons]
                    omega
                  refine lexeme .crlf line trivial rfl (yylex_crlf line ?_) shorter
                  rw [← split]
                  exact dropWhile_stops line
                · refine lexeme (.lws (line.takeWhile isWs)) (line.dropWhile isWs) trivial ?_ ?_ below
                  · simp only [Lexeme.text, List.append_assoc, split]
                    rfl
                  · have scanned := yylex_lws _ _ empty (takeWhile_ws line) (dropWhile_stops line)
                    rw [List.append_assoc, split] at scanned
                    exact scanned
          · have scanned := yylex_stray c rest (by simpa using text) (by simpa using blank) lineBreak
            obtain ⟨ls, tokens, all, -⟩ := ih rest.length (by simp) rest rfl
            refine ⟨ls, ?_, all, ?_⟩
            · rw [scanned]
              exact tokens
            · rw [scanned]
              intro none
              cases none

end Liso
