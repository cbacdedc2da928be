import Liso.Parser.Grammar

/-! `parse` of parse.c: the end-of-header scan, then the grammar on the bytes up to it. -/

namespace Liso

inductive ParseState
  | start
  | cr
  | crlf
  | crlfcr
  | crlfcrlf
  deriving DecidableEq, Repr

/-- One pass of the loop: a byte other than the expected one restarts the match. -/
def ParseState.step : ParseState → UInt8 → ParseState
  | .start, ch => if ch = cl then .cr else .start
  | .cr, ch => if ch = rf then .crlf else .start
  | .crlf, ch => if ch = cl then .crlfcr else .start
  | .crlfcr, ch => if ch = rf then .crlfcrlf else .start
  | .crlfcrlf, _ => .start

def parseScan : ParseState → Bytes → Nat → ParseState × Nat
  | .crlfcrlf, _, i => (.crlfcrlf, i)
  | state, [], i => (state, i)
  | state, ch :: rest, i => parseScan (state.step ch) rest (i + 1)

theorem parseScan_cons (state : ParseState) (unfinished : state ≠ .crlfcrlf) (ch : UInt8)
    (rest : Bytes) (i : Nat) :
    parseScan state (ch :: rest) i = parseScan (state.step ch) rest (i + 1) := by
  cases state with
  | crlfcrlf => exact absurd rfl unfinished
  | _ => rfl

def headerNum : Nat := 20

def newRequest : Request :=
  { httpVersion := [], httpMethod := [], httpUri := [], headers := [], headerCap := headerNum }

def parsingBuf (buffer : Bytes) : Bytes := buffer.take (parseScan .start buffer 0).2

def parse (buffer : Bytes) : Except Fault (Option Request) :=
  let (state, i) := parseScan .start buffer 0
  if i > 8192 then .error (.bounds .parserBuf)
  else if state = .crlfcrlf then
    match yyparse (yylex (parsingBuf buffer)).tokens newRequest with
    | .finished request => .ok (some request)
    | .fault fault => .error fault
    | _ => .ok none
  else .ok none

private theorem strcpy_bounds {array : CArray} {capacity : Nat} {source : Bytes} {fault : Fault}
    (failed : strcpy array capacity source = .error fault) : ∃ array, fault = .bounds array := by
  unfold strcpy at failed
  split at failed
  · cases failed
  · cases failed
    exact ⟨array, rfl⟩

private theorem storeRequestLine_bounds {method uri version : Bytes} {request : Request}
    {fault : Fault} (failed : storeRequestLine method uri version request = .error fault) :
    ∃ array, fault = .bounds array := by
  unfold storeRequestLine at failed
  split at failed
  · next copied =>
      cases failed
      exact strcpy_bounds copied
  · split at failed
    · next copied =>
        cases failed
        exact strcpy_bounds copied
    · split at failed
      · next copied =>
          cases failed
          exact strcpy_bounds copied
      · cases failed

private theorem storeHeader_bounds {name value : Bytes} {request : Request} {fault : Fault}
    (failed : storeHeader name value request = .error fault) : ∃ array, fault = .bounds array := by
  unfold storeHeader at failed
  split at failed
  · split at failed
    · next copied =>
        cases failed
        exact strcpy_bounds copied
    · split at failed
      · next copied =>
          cases failed
          exact strcpy_bounds copied
      · cases failed
  · cases failed
    exact ⟨_, rfl⟩

private theorem yyparser_bounds : yyparser.ActsWithin fun fault => ∃ array, fault = .bounds array := by
  intro r args request fault acted
  have stored {result : Except Fault Request}
      (bounds : ∀ fault, result = .error fault → ∃ array, fault = .bounds array)
      (acted : effect result = .fault fault) : ∃ array, fault = .bounds array := by
    cases result with
    | ok request => cases acted
    | error other =>
        cases acted
        exact bounds _ rfl
  change yyact r args request = .fault fault at acted
  unfold yyact at acted
  split at acted
  all_goals first
    | cases acted
    | exact stored (fun _ => storeRequestLine_bounds) acted
    | exact stored (fun _ => storeHeader_bounds) acted

theorem parse_bounds {buffer : Bytes} {fault : Fault} (failed : parse buffer = .error fault) :
    ∃ array, fault = .bounds array := by
  unfold parse at failed
  dsimp only at failed
  split at failed
  · cases failed
    exact ⟨_, rfl⟩
  · split at failed
    · split at failed
      · cases failed
      · next parsed =>
          cases failed
          exact Yacc.Parser.run_within yyparser_bounds parsed
      · cases failed
    · cases failed

end Liso
