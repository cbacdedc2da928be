import Liso.Parser.Lexer
import Liso.Lib.Yacc

/-! The grammar of parser.y, its tables and its semantic actions. -/

namespace Liso

open Yacc (Sym)

structure RequestHeader where
  headerName : Bytes
  headerValue : Bytes
  deriving DecidableEq, Repr

/-- `Request`; `headers` holds the first `header_count` entries of the array. -/
structure Request where
  httpVersion : Bytes
  httpMethod : Bytes
  httpUri : Bytes
  headers : List RequestHeader
  headerCap : Nat
  deriving DecidableEq, Repr

def Request.headerCount (r : Request) : Nat := r.headers.length

inductive Nonterminal
  | accept
  | allowedCharForToken
  | token
  | allowedCharForText
  | text
  | ows
  | requestLine
  | requestHeader
  | requestHeaders
  | request

def Nonterminal.code : Nonterminal → Nat
  | .accept => 0
  | .allowedCharForToken => 1
  | .token => 2
  | .allowedCharForText => 3
  | .text => 4
  | .ows => 5
  | .requestLine => 6
  | .requestHeader => 7
  | .requestHeaders => 8
  | .request => 9

def term (t : Token) : Sym := .term t.code
def nonterm (n : Nonterminal) : Sym := .non n.code

def rule (lhs : Nonterminal) (rhs : List Sym) : Yacc.Rule := ⟨lhs.code, rhs⟩

def yyrules : List Yacc.Rule :=
  [rule .accept [nonterm .request, .term 0],
   rule .allowedCharForToken [term .tokenChar],
   rule .allowedCharForToken [term .digit],
   rule .allowedCharForToken [term .dot],
   rule .token [nonterm .allowedCharForToken],
   rule .token [nonterm .token, nonterm .allowedCharForToken],
   rule .allowedCharForText [nonterm .allowedCharForToken],
   rule .allowedCharForText [term .separators],
   rule .allowedCharForText [term .colon],
   rule .allowedCharForText [term .backslash],
   rule .text [nonterm .allowedCharForText],
   rule .text [nonterm .text, nonterm .ows, nonterm .allowedCharForText],
   rule .ows [],
   rule .ows [term .sp],
   rule .ows [term .ws],
   rule .requestLine [nonterm .token, term .sp, nonterm .text, term .sp, nonterm .text, term .crlf],
   rule .requestHeader [nonterm .token, nonterm .ows, term .colon, nonterm .ows, nonterm .text,
     nonterm .ows, term .crlf],
   rule .requestHeaders [nonterm .requestHeaders, nonterm .requestHeader],
   rule .requestHeaders [],
   rule .request [nonterm .requestLine, nonterm .requestHeaders, term .crlf]]

def yygrammar : Yacc.Grammar := ⟨11, 10, yyrules⟩

/-! The tables: `e` is an error, `a` acceptance, `s` a shift and `r` a reduction;
`gotos` lists the gotos a state has. -/

namespace Yytable

def e : Yacc.Action := .error
def a : Yacc.Action := .accept
def s (state : Nat) : Yacc.Action := .shift state
def r (rule : Nat) : Yacc.Action := .reduce rule

def gotos (entries : List (Nat × Nat)) : List (Option Nat) :=
  (List.range 10).map fun n => List.lookup n entries

end Yytable

open Yytable in
def yytables : List Yacc.Row :=
  [⟨[e, e, e, s 1, s 2, s 3, e, e, e, e, e], gotos [(1, 4), (2, 5), (6, 6), (9, 7)], none⟩,
   ⟨[e, r 2, r 2, r 2, r 2, r 2, e, r 2, r 2, r 2, r 2], gotos [], some 2⟩,
   ⟨[e, r 3, r 3, r 3, r 3, r 3, e, r 3, r 3, r 3, r 3], gotos [], some 3⟩,
   ⟨[e, r 1, r 1, r 1, r 1, r 1, e, r 1, r 1, r 1, r 1], gotos [], some 1⟩,
   ⟨[e, e, e, r 4, r 4, r 4, e, r 4, e, r 4, r 4], gotos [], some 4⟩,
   ⟨[e, e, e, s 1, s 2, s 3, e, e, e, s 8, e], gotos [(1, 9)], none⟩,
   ⟨[e, r 18, e, r 18, r 18, r 18, e, e, e, e, e], gotos [(8, 10)], some 18⟩,
   ⟨[a, e, e, e, e, e, e, e, e, e, e], gotos [], none⟩,
   ⟨[e, e, s 12, s 1, s 2, s 3, e, s 13, s 14, e, e], gotos [(1, 15), (3, 16), (4, 17)], none⟩,
   ⟨[e, e, e, r 5, r 5, r 5, e, r 5, e, r 5, r 5], gotos [], some 5⟩,
   ⟨[e, s 18, e, s 1, s 2, s 3, e, e, e, e, e], gotos [(1, 4), (2, 19), (7, 20)], none⟩,
   ⟨[e, e, e, e, e, e, e, e, e, e, e], gotos [], none⟩,
   ⟨[e, r 9, r 9, r 9, r 9, r 9, e, r 9, r 9, r 9, r 9], gotos [], some 9⟩,
   ⟨[e, r 8, r 8, r 8, r 8, r 8, e, r 8, r 8, r 8, r 8], gotos [], some 8⟩,
   ⟨[e, r 7, r 7, r 7, r 7, r 7, e, r 7, r 7, r 7, r 7], gotos [], some 7⟩,
   ⟨[e, r 6, r 6, r 6, r 6, r 6, e, r 6, r 6, r 6, r 6], gotos [], some 6⟩,
   ⟨[e, r 10, r 10, r 10, r 10, r 10, e, r 10, r 10, r 10, r 10], gotos [], some 10⟩,
   ⟨[e, e, r 12, r 12, r 12, r 12, e, r 12, r 12, s 21, s 22], gotos [(5, 23)], none⟩,
   ⟨[r 19, e, e, e, e, e, e, e, e, e, e], gotos [], some 19⟩,
   ⟨[e, e, e, s 1, s 2, s 3, e, r 12, e, s 24, s 22], gotos [(1, 9), (5, 25)], none⟩,
   ⟨[e, r 17, e, r 17, r 17, r 17, e, e, e, e, e], gotos [], some 17⟩,
   ⟨[e, e, s 12, s 1, s 2, s 3, e, s 13, s 14, e, e], gotos [(1, 15), (3, 16), (4, 26)], none⟩,
   ⟨[e, r 14, r 14, r 14, r 14, r 14, e, r 14, r 14, e, e], gotos [], some 14⟩,
   ⟨[e, e, s 12, s 1, s 2, s 3, e, s 13, s 14, e, e], gotos [(1, 15), (3, 27)], none⟩,
   ⟨[e, r 13, r 13, r 13, r 13, r 13, e, r 13, r 13, e, e], gotos [], some 13⟩,
   ⟨[e, e, e, e, e, e, e, s 28, e, e, e], gotos [], none⟩,
   ⟨[e, s 29, r 12, r 12, r 12, r 12, e, r 12, r 12, s 24, s 22], gotos [(5, 23)], none⟩,
   ⟨[e, r 11, r 11, r 11, r 11, r 11, e, r 11, r 11, r 11, r 11], gotos [], some 11⟩,
   ⟨[e, e, r 12, r 12, r 12, r 12, e, r 12, r 12, s 24, s 22], gotos [(5, 30)], none⟩,
   ⟨[e, r 15, e, r 15, r 15, r 15, e, e, e, e, e], gotos [], some 15⟩,
   ⟨[e, e, s 12, s 1, s 2, s 3, e, s 13, s 14, e, e], gotos [(1, 15), (3, 16), (4, 31)], none⟩,
   ⟨[e, r 12, r 12, r 12, r 12, r 12, e, r 12, r 12, s 24, s 22], gotos [(5, 32)], none⟩,
   ⟨[e, s 33, s 12, s 1, s 2, s 3, e, s 13, s 14, e, e], gotos [(1, 15), (3, 27)], none⟩,
   ⟨[e, r 16, e, r 16, r 16, r 16, e, e, e, e, e], gotos [], some 16⟩]

/-- The tables are those of yacc's LALR(1) construction for the grammar. -/
theorem yytables_lalr : Yacc.tables yygrammar 40 = yytables := by decide +kernel

def Yystype.int : Yystype → Nat
  | .i value => value
  | _ => 0

def Yystype.text : Yystype → Bytes
  | .str text => text
  | _ => []

def Yystype.char (v : Yystype) : Bytes := [UInt8.ofNat v.int]

def snprintf (text : Bytes) : Yystype := .str (text.take 8191)

def storeRequestLine (method uri version : Bytes) (request : Request) : Except Fault Request :=
  match strcpy .httpMethod 50 method with
  | .error fault => .error fault
  | .ok method =>
      match strcpy .httpUri 4096 uri with
      | .error fault => .error fault
      | .ok uri =>
          match strcpy .httpVersion 50 version with
          | .error fault => .error fault
          | .ok version =>
              .ok { request with httpMethod := method, httpUri := uri, httpVersion := version }

/-- The entry `header_count` of the array is written; the array is doubled when full. -/
def storeHeader (name value : Bytes) (request : Request) : Except Fault Request :=
  if request.headerCount < request.headerCap then
    match strcpy .headerName 4096 name with
    | .error fault => .error fault
    | .ok name =>
        match strcpy .headerValue 4096 value with
        | .error fault => .error fault
        | .ok value =>
            let headers := request.headers ++ [⟨name, value⟩]
            .ok { request with
              headers
              headerCap :=
                if headers.length = request.headerCap then request.headerCap * 2
                else request.headerCap }
  else .error (.bounds .headers)

def effect : Except Fault Request → Yacc.Effect Yystype Request Fault
  | .ok request => .value .unset request
  | .error fault => .fault fault

def yyact : Nat → List Yystype → Request → Yacc.Effect Yystype Request Fault
  | 2, [d], request => .value (.i (0x30 + d.int)) request
  | 4, [c], request => .value (snprintf c.char) request
  | 5, [t, c], request => .value (snprintf (t.text ++ c.char)) request
  | 10, [c], request => .value (snprintf c.char) request
  | 11, [t, w, c], request => .value (snprintf (t.text ++ w.text ++ c.char)) request
  | 12, [], request => .value (.str []) request
  | 13, [c], request => .value (snprintf c.char) request
  | 14, [w], request => .value (snprintf w.text) request
  | 15, [method, _, uri, _, version, _], request =>
      effect (storeRequestLine method.text uri.text version.text request)
  | 16, [name, _, _, _, value, _, _], request =>
      effect (storeHeader name.text value.text request)
  | 17, _, request => .value .unset request
  | 18, _, request => .value .unset request
  | 19, _, request => .finish request
  -- the default action `$$ = $1`
  | _, v :: _, request => .value v request
  | _, [], request => .value .unset request

def yyparser : Yacc.Parser Yystype Request Fault where
  rows := yytables
  rules := yyrules
  act := yyact
  depth := 12

def yyparse (tokens : List (Token × Yystype)) (request : Request) :
    Yacc.Outcome Yystype Request Fault :=
  yyparser.run .unset (tokens.map fun (t, v) => (t.code, v)) [] request

end Liso
