import Liso.Parser.Parse

/-! The parser seen one lexeme at a time: what the stack of the LALR machine
holds between two tokens, and what the next token does to it. -/

namespace Liso

/-- A token together with the text it stands for. -/
inductive Lexeme
  | tokenChar (c : UInt8)
  | separator (c : UInt8)
  | colon
  | sp
  | ws (text : Bytes)
  | crlf
  | lws (blanks : Bytes)
  deriving DecidableEq

def Lexeme.text : Lexeme → Bytes
  | .tokenChar c => [c]
  | .separator c => [c]
  | .colon => [0x3a]
  | .sp => [0x20]
  | .ws text => text
  | .crlf => Liso.crlf
  | .lws blanks => Liso.crlf ++ blanks

def textOf (ls : List Lexeme) : Bytes := ls.flatMap Lexeme.text

@[simp] theorem textOf_nil : textOf [] = [] := rfl

@[simp] theorem textOf_cons (l : Lexeme) (ls : List Lexeme) :
    textOf (l :: ls) = l.text ++ textOf ls := rfl

@[simp] theorem textOf_append (ls more : List Lexeme) :
    textOf (ls ++ more) = textOf ls ++ textOf more := by
  simp [textOf, List.flatMap_append]

def Lexeme.token : Lexeme → Token × Yystype
  | .tokenChar c =>
      if isDigit c then (.digit, .i (c.toNat - 0x30))
      else if c = 0x2e then (.dot, .i 0x2e)
      else (.tokenChar, .i c.toNat)
  | .separator c => if c = 0x2f then (.backslash, .i 0x2f) else (.separators, .i c.toNat)
  | .colon => (.colon, .i 0x3a)
  | .sp => (.sp, .i 0x20)
  | .ws text => (.ws, .str text)
  | .crlf => (.crlf, .unset)
  | .lws _ => (.lws, .unset)

def Lexeme.nameChar : Lexeme → Option UInt8
  | .tokenChar c => some c
  | _ => none

def Lexeme.textChar : Lexeme → Option UInt8
  | .tokenChar c => some c
  | .separator c => some c
  | .colon => some 0x3a
  | _ => none

def Lexeme.blank : Lexeme → Option Bytes
  | .sp => some [0x20]
  | .ws text => some text
  | _ => none

theorem nameChar_sp : Lexeme.nameChar .sp = none := rfl

theorem textChar_sp : Lexeme.textChar .sp = none := rfl

theorem textChar_crlf : Lexeme.textChar .crlf = none := rfl

theorem blank_crlf : Lexeme.blank .crlf = none := rfl

/-- Where the parser stands, with the strings it has gathered. -/
inductive Phase
  | start
  | method (m : Bytes)
  | methodSp (m : Bytes)
  | uri (m u : Bytes)
  | uriWs (m u w : Bytes)
  | uriSp (m u : Bytes)
  | version (m u v : Bytes)
  | versionWs (m u v w : Bytes)
  | headers
  | name (n : Bytes)
  | nameWs (n w : Bytes)
  | colon (n w : Bytes)
  | colonWs (n w x : Bytes)
  | value (n w x v : Bytes)
  | valueWs (n w x v y : Bytes)

/-- The strings of the semantic values have room for 8191 bytes. -/
def cut (text : Bytes) : Bytes := text.take 8191

namespace Phase

def stack : Phase → List (Nat × Yystype)
  | start => []
  | method m => [(5, .str m)]
  | methodSp m => [(8, .i 0x20), (5, .str m)]
  | uri m u => [(17, .str u), (8, .i 0x20), (5, .str m)]
  | uriWs m u w => [(23, .str w), (17, .str u), (8, .i 0x20), (5, .str m)]
  | uriSp m u => [(21, .i 0x20), (17, .str u), (8, .i 0x20), (5, .str m)]
  | version m u v => [(26, .str v), (21, .i 0x20), (17, .str u), (8, .i 0x20), (5, .str m)]
  | versionWs m u v w =>
      [(23, .str w), (26, .str v), (21, .i 0x20), (17, .str u), (8, .i 0x20), (5, .str m)]
  | headers => [(10, .unset), (6, .unset)]
  | name n => [(19, .str n), (10, .unset), (6, .unset)]
  | nameWs n w => [(25, .str w), (19, .str n), (10, .unset), (6, .unset)]
  | colon n w => [(28, .i 0x3a), (25, .str w), (19, .str n), (10, .unset), (6, .unset)]
  | colonWs n w x =>
      [(30, .str x), (28, .i 0x3a), (25, .str w), (19, .str n), (10, .unset), (6, .unset)]
  | value n w x v =>
      [(31, .str v), (30, .str x), (28, .i 0x3a), (25, .str w), (19, .str n), (10, .unset),
        (6, .unset)]
  | valueWs n w x v y =>
      [(32, .str y), (31, .str v), (30, .str x), (28, .i 0x3a), (25, .str w), (19, .str n),
        (10, .unset), (6, .unset)]

end Phase

inductive PhaseResult
  | next (phase : Phase) (request : Request)
  | finished (request : Request)
  | rejected
  | fault (fault : Fault)

def PhaseResult.outcome : PhaseResult → Yacc.Outcome Yystype Request Fault
  | .next phase request => .shifted phase.stack request
  | .finished request => .finished request
  | .rejected => .rejected
  | .fault f => .fault f

def PhaseResult.stored : Except Fault Request → PhaseResult
  | .ok request => .next .headers request
  | .error f => .fault f

namespace Phase

def extend (text w : Bytes) (c : UInt8) : Bytes := cut (text ++ w ++ [c])

/-- The effect of the next lexeme. In `uri` a single space ends the text: the
shift of `t_sp` wins over the reduction of `ows`. -/
def step : Phase → Lexeme → Request → PhaseResult
  | start, l, r =>
      match l.nameChar with
      | some c => .next (method [c]) r
      | none => .rejected
  | method m, l, r =>
      match l.nameChar, l with
      | some c, _ => .next (method (cut (m ++ [c]))) r
      | none, .sp => .next (methodSp m) r
      | none, _ => .rejected
  | methodSp m, l, r =>
      match l.textChar with
      | some c => .next (uri m [c]) r
      | none => .rejected
  | uri m u, l, r =>
      match l.textChar, l with
      | some c, _ => .next (uri m (extend u [] c)) r
      | none, .sp => .next (uriSp m u) r
      | none, .ws w => .next (uriWs m u (cut w)) r
      | none, _ => .rejected
  | uriWs m u w, l, r =>
      match l.textChar with
      | some c => .next (uri m (extend u w c)) r
      | none => .rejected
  | uriSp m u, l, r =>
      match l.textChar with
      | some c => .next (version m u [c]) r
      | none => .rejected
  | version m u v, l, r =>
      match l.textChar, l.blank, l with
      | some c, _, _ => .next (version m u (extend v [] c)) r
      | none, some w, _ => .next (versionWs m u v (cut w)) r
      | none, none, .crlf => .stored (storeRequestLine m u v r)
      | none, none, _ => .rejected
  | versionWs m u v w, l, r =>
      match l.textChar with
      | some c => .next (version m u (extend v w c)) r
      | none => .rejected
  | headers, l, r =>
      match l.nameChar, l with
      | some c, _ => .next (name [c]) r
      | none, .crlf => .finished r
      | none, _ => .rejected
  | name n, l, r =>
      match l.nameChar, l.blank, l with
      | some c, _, _ => .next (name (cut (n ++ [c]))) r
      | none, some w, _ => .next (nameWs n (cut w)) r
      | none, none, .colon => .next (colon n []) r
      | none, none, _ => .rejected
  | nameWs n w, l, r =>
      match l with
      | .colon => .next (colon n w) r
      | _ => .rejected
  | colon n w, l, r =>
      match l.textChar, l.blank with
      | some c, _ => .next (value n w [] [c]) r
      | none, some x => .next (colonWs n w (cut x)) r
      | none, none => .rejected
  | colonWs n w x, l, r =>
      match l.textChar with
      | some c => .next (value n w x [c]) r
      | none => .rejected
  | value n w x v, l, r =>
      match l.textChar, l.blank, l with
      | some c, _, _ => .next (value n w x (extend v [] c)) r
      | none, some y, _ => .next (valueWs n w x v (cut y)) r
      | none, none, .crlf => .stored (storeHeader n v r)
      | none, none, _ => .rejected
  | valueWs n w x v y, l, r =>
      match l.textChar, l with
      | some c, _ => .next (value n w x (extend v y c)) r
      | none, .crlf => .stored (storeHeader n v r)
      | none, _ => .rejected

end Phase

def consumeLexeme (l : Lexeme) (stack : List (Nat × Yystype)) (request : Request) :
    Yacc.Outcome Yystype Request Fault :=
  yyparser.consume l.token.1.code l.token.2 yyparser.depth stack request

theorem tokenChar_cases (c : UInt8) :
    (∃ d, c = UInt8.ofNat (0x30 + d) ∧ (Lexeme.tokenChar c).token = (.digit, .i d)) ∨
    (c = UInt8.ofNat 0x2e ∧ (Lexeme.tokenChar c).token = (.dot, .i 0x2e)) ∨
    (∃ n, c = UInt8.ofNat n ∧ (Lexeme.tokenChar c).token = (.tokenChar, .i n)) := by
  by_cases digit : isDigit c
  · left
    refine ⟨c.toNat - 0x30, ?_, by simp [Lexeme.token, digit]⟩
    have low : 0x30 ≤ c.toNat := by
      simp only [isDigit, Bool.and_eq_true, decide_eq_true_eq] at digit
      exact digit.1
    rw [Nat.add_sub_cancel' low, UInt8.ofNat_toNat]
  · right
    by_cases dot : c = 0x2e
    · left
      subst dot
      exact ⟨rfl, rfl⟩
    · right
      exact ⟨c.toNat, by simp, by simp [Lexeme.token, digit, dot]⟩

theorem separator_cases (c : UInt8) :
    (c = UInt8.ofNat 0x2f ∧ (Lexeme.separator c).token = (.backslash, .i 0x2f)) ∨
    (∃ n, c = UInt8.ofNat n ∧ (Lexeme.separator c).token = (.separators, .i n)) := by
  by_cases slash : c = 0x2f
  · left
    subst slash
    exact ⟨rfl, rfl⟩
  · right
    exact ⟨c.toNat, by simp, by simp [Lexeme.token, slash]⟩

def storedFrame (state : Nat) (rest : List (Nat × Yystype)) :
    Except Fault Request → Yacc.Outcome Yystype Request Fault
  | .ok request => .shifted ((state, .unset) :: rest) request
  | .error f => .fault f

theorem reduce_requestLine (m u v : Bytes) (r : Request) :
    yyparser.reduce 15 ((29, .unset) :: (Phase.version m u v).stack) r =
      storedFrame 6 [] (storeRequestLine m u v r) := by
  have acted : yyparser.act 15 (yyparser.args 15 ((29, .unset) :: (Phase.version m u v).stack)) r =
      effect (storeRequestLine m u v r) := rfl
  cases stored : storeRequestLine m u v r with
  | error f => exact Yacc.Parser.reduce_fault _ _ _ _ f (by rw [acted, stored]; rfl)
  | ok next =>
      exact Yacc.Parser.reduce_value _ _ 6 _ [] _ next Yystype.unset
        (by rw [acted, stored]; rfl) rfl rfl

theorem reduce_requestHeader (n w x v y : Bytes) (r : Request) :
    yyparser.reduce 16 ((33, .unset) :: (Phase.valueWs n w x v y).stack) r =
      storedFrame 20 Phase.headers.stack (storeHeader n v r) := by
  have acted : yyparser.act 16
      (yyparser.args 16 ((33, .unset) :: (Phase.valueWs n w x v y).stack)) r =
      effect (storeHeader n v r) := rfl
  cases stored : storeHeader n v r with
  | error f => exact Yacc.Parser.reduce_fault _ _ _ _ f (by rw [acted, stored]; rfl)
  | ok next =>
      exact Yacc.Parser.reduce_value _ _ 20 _ Phase.headers.stack _ next Yystype.unset
        (by rw [acted, stored]; rfl) rfl rfl

theorem consume_crlf_version (m u v : Bytes) (r : Request) :
    consumeLexeme .crlf (Phase.version m u v).stack r =
      (PhaseResult.stored (storeRequestLine m u v r)).outcome := by
  change yyparser.settle 11 ((29, .unset) :: (Phase.version m u v).stack) r = _
  rw [Yacc.Parser.settle_default _ _ 15 _ _ rfl, reduce_requestLine]
  cases storeRequestLine m u v r <;> rfl

theorem consume_crlf_valueWs (n w x v y : Bytes) (r : Request) (fuel : Nat) :
    yyparser.settle (fuel + 3) ((33, .unset) :: (Phase.valueWs n w x v y).stack) r =
      (PhaseResult.stored (storeHeader n v r)).outcome := by
  rw [Yacc.Parser.settle_default _ _ 16 _ _ rfl, reduce_requestHeader]
  cases storeHeader n v r <;> rfl

theorem consume_phase (l : Lexeme) (p : Phase) (r : Request) :
    consumeLexeme l p.stack r = (p.step l r).outcome := by
  cases l with
  | tokenChar c =>
      rcases tokenChar_cases c with ⟨d, rfl, token⟩ | ⟨rfl, token⟩ | ⟨n, rfl, token⟩
      all_goals
        rw [consumeLexeme, token]
        cases p <;> rfl
  | separator c =>
      rcases separator_cases c with ⟨rfl, token⟩ | ⟨n, rfl, token⟩
      all_goals
        rw [consumeLexeme, token]
        cases p <;> rfl
  | colon => cases p <;> rfl
  | sp => cases p <;> rfl
  | ws text => cases p <;> rfl
  | crlf =>
      cases p with
      | version m u v => exact consume_crlf_version m u v r
      | value n w x v => exact consume_crlf_valueWs n w x v [] r 7
      | valueWs n w x v y => exact consume_crlf_valueWs n w x v y r 8
      | _ => rfl
  | lws blanks => cases p <;> rfl

theorem consume_end (p : Phase) (r : Request) :
    yyparser.consume 0 .unset yyparser.depth p.stack r = .rejected := by
  cases p <;> rfl

namespace Phase

def run : Phase → List Lexeme → Request → PhaseResult
  | p, [], r => .next p r
  | p, l :: ls, r =>
      match p.step l r with
      | .next p r => run p ls r
      | other => other

theorem run_append (p : Phase) (ls more : List Lexeme) (r : Request) :
    p.run (ls ++ more) r =
      match p.run ls r with
      | .next p r => p.run more r
      | other => other := by
  induction ls generalizing p r with
  | nil => rfl
  | cons l ls ih =>
      simp only [List.cons_append, run]
      cases p.step l r with
      | next q s => exact ih q s
      | _ => rfl

theorem run_snoc (p q : Phase) (ls : List Lexeme) (l : Lexeme) (r s : Request)
    (ran : p.run ls r = .next q s) : p.run (ls ++ [l]) r = q.step l s := by
  rw [run_append, ran]
  simp only [run]
  cases q.step l s <;> rfl

end Phase

def PhaseResult.ended : PhaseResult → Yacc.Outcome Yystype Request Fault
  | .next _ _ => .rejected
  | other => other.outcome

theorem yyparse_run (ls : List Lexeme) (r : Request) :
    yyparse (ls.map Lexeme.token) r = (Phase.start.run ls r).ended := by
  suffices general : ∀ p : Phase,
      yyparser.run .unset ((ls.map Lexeme.token).map (Prod.map Token.code id)) p.stack r =
        (p.run ls r).ended from general .start
  intro p
  induction ls generalizing p r with
  | nil => exact consume_end p r
  | cons l ls ih =>
      have head : yyparser.consume l.token.1.code l.token.2 yyparser.depth p.stack r =
          (p.step l r).outcome := consume_phase l p r
      simp only [List.map_cons, Prod.map, id, Yacc.Parser.run, Phase.run, head]
      cases p.step l r with
      | next q s => exact ih s q
      | _ => rfl

end Liso
