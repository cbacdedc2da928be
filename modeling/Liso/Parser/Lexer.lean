import Liso.Common
import Liso.Lib.Flex

/-! The rules of lexer.l. -/

namespace Liso

inductive Token
  | crlf
  | backslash
  | digit
  | dot
  | tokenChar
  | lws
  | colon
  | separators
  | sp
  | ws
  deriving DecidableEq, Repr

/-- Terminal number in the grammar; 0 is the end of input. -/
def Token.code : Token → Nat
  | .crlf => 1
  | .backslash => 2
  | .digit => 3
  | .dot => 4
  | .tokenChar => 5
  | .lws => 6
  | .colon => 7
  | .separators => 8
  | .sp => 9
  | .ws => 10

/-- The `%union`; `unset` is a value no action has assigned. -/
inductive Yystype
  | unset
  | i (value : Nat)
  | str (text : Bytes)
  deriving DecidableEq, Repr

def isDigit (c : UInt8) : Bool := 0x30 ≤ c && c ≤ 0x39

def isWs (c : UInt8) : Bool := c = 0x20 || c = 0x09

def separatorChars : Bytes :=
  [0x28, 0x29, 0x3c, 0x3e, 0x40, 0x2c, 0x3b, 0x3a, 0x5c, 0x22, 0x2f, 0x5b, 0x5d, 0x3f, 0x3d,
    0x7b, 0x7d, 0x20, 0x09]

def isSeparator (c : UInt8) : Bool := separatorChars.contains c

def isCtl (c : UInt8) : Bool := c ≤ 0x1f || c = 0x7f

def isTokenChar (c : UInt8) : Bool := c ≤ 0x7f && !isCtl c && !isSeparator c

def one (p : UInt8 → Bool) : Flex.Pattern UInt8 := ⟨[p], none⟩

def yytextHead (yytext : Bytes) : Nat := (yytext.headD 0).toNat

def charToken (token : Token) (yytext : Bytes) : Token × Yystype :=
  (token, .i (yytextHead yytext))

def lexRules : List (Flex.Rule UInt8 (Token × Yystype)) :=
  [⟨one (· = 0x2f), charToken .backslash⟩,
   ⟨⟨[(· = 0x0d), (· = 0x0a)], none⟩, fun _ => (.crlf, .unset)⟩,
   ⟨one (· = 0x20), charToken .sp⟩,
   ⟨⟨[], some isWs⟩, fun yytext => (.ws, .str yytext)⟩,
   ⟨one isDigit, fun yytext => (.digit, .i (yytextHead yytext - 0x30))⟩,
   ⟨one (· = 0x2e), charToken .dot⟩,
   ⟨one (· = 0x3a), charToken .colon⟩,
   ⟨one isSeparator, charToken .separators⟩,
   ⟨one isTokenChar, charToken .tokenChar⟩,
   ⟨⟨[(· = 0x0d), (· = 0x0a)], some isWs⟩, fun _ => (.lws, .unset)⟩]

def yylex (input : Bytes) : Flex.Scan UInt8 (Token × Yystype) := Flex.scan lexRules input

end Liso
