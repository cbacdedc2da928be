import Mathlib.Data.List.Induction
import Liso.Parser.Parse
import Liso.Parser.Phases

/-! The lines of the grammar of parser.y, read off a sequence of lexemes, and the
parser's run on them: it finishes exactly on a reading whose fields fit. -/

namespace Liso

def Lexeme.isNameChar (l : Lexeme) : Bool := l.nameChar.isSome
def Lexeme.isTextChar (l : Lexeme) : Bool := l.textChar.isSome
def Lexeme.isBlank (l : Lexeme) : Bool := l.blank.isSome

def Lexeme.isWs : Lexeme → Bool
  | .ws _ => true
  | _ => false

inductive IsToken : List Lexeme → Prop
  | char (l : Lexeme) (name : l.isNameChar) : IsToken [l]
  | snoc (ls : List Lexeme) (l : Lexeme) (token : IsToken ls) (name : l.isNameChar) :
      IsToken (ls ++ [l])

inductive IsOws (blank : Lexeme → Bool) : List Lexeme → Prop
  | none : IsOws blank []
  | some (l : Lexeme) (isBlank : blank l) : IsOws blank [l]

inductive IsText (blank : Lexeme → Bool) : List Lexeme → Prop
  | char (l : Lexeme) (char : l.isTextChar) : IsText blank [l]
  | snoc (ls ows : List Lexeme) (l : Lexeme) (text : IsText blank ls) (inner : IsOws blank ows)
      (char : l.isTextChar) : IsText blank (ls ++ ows ++ [l])

theorem IsText.cons {blank : Lexeme → Bool} {ls : List Lexeme} (text : IsText blank ls)
    (l : Lexeme) (ows : List Lexeme) (char : l.isTextChar) (inner : IsOws blank ows) :
    IsText blank (l :: (ows ++ ls)) := by
  induction text with
  | char last isChar => exact IsText.snoc [l] ows last (.char l char) inner isChar
  | snoc ls between last text betweenOws isChar ih =>
      have longer := IsText.snoc _ between last ih betweenOws isChar
      simpa only [List.cons_append, List.append_assoc] using longer

/-- `request_line`. A single space ends the URI, so only other blanks stand inside it. -/
structure RequestLine where
  method : List Lexeme
  uri : List Lexeme
  version : List Lexeme
  methodToken : IsToken method
  uriText : IsText Lexeme.isWs uri
  versionText : IsText Lexeme.isBlank version

structure HeaderLine where
  name : List Lexeme
  before : List Lexeme
  after : List Lexeme
  value : List Lexeme
  trailing : List Lexeme
  nameToken : IsToken name
  beforeOws : IsOws Lexeme.isBlank before
  afterOws : IsOws Lexeme.isBlank after
  valueText : IsText Lexeme.isBlank value
  trailingOws : IsOws Lexeme.isBlank trailing

namespace RequestLine

def lexemes (line : RequestLine) : List Lexeme :=
  line.method ++ [.sp] ++ line.uri ++ [.sp] ++ line.version ++ [.crlf]

/-- The arrays of `Request` have room for the fields and their NULs. -/
structure Fits (line : RequestLine) : Prop where
  method : (textOf line.method).length < 50
  uri : (textOf line.uri).length < 4096
  version : (textOf line.version).length < 50

end RequestLine

namespace HeaderLine

def lexemes (line : HeaderLine) : List Lexeme :=
  line.name ++ line.before ++ [.colon] ++ line.after ++ line.value ++ line.trailing ++ [.crlf]

def header (line : HeaderLine) : RequestHeader := ⟨textOf line.name, textOf line.value⟩

structure Fits (line : HeaderLine) : Prop where
  name : (textOf line.name).length < 4096
  value : (textOf line.value).length < 4096

end HeaderLine

def headerCapAfter : Nat → Nat
  | 0 => headerNum
  | n + 1 => if n + 1 = headerCapAfter n then headerCapAfter n * 2 else headerCapAfter n

theorem headerCapAfter_room (n : Nat) : n < headerCapAfter n := by
  induction n with
  | zero => decide
  | succ n ih =>
      rw [headerCapAfter]
      split <;> omega

/-- A request line and header lines, without the blank line that ends them. -/
structure Reading where
  requestLine : RequestLine
  headerLines : List HeaderLine

namespace Reading

def lexemes (q : Reading) : List Lexeme :=
  q.requestLine.lexemes ++ q.headerLines.flatMap HeaderLine.lexemes

structure Fits (q : Reading) : Prop where
  requestLine : q.requestLine.Fits
  headerLines : ∀ line ∈ q.headerLines, line.Fits

def request (q : Reading) : Request where
  httpMethod := textOf q.requestLine.method
  httpUri := textOf q.requestLine.uri
  httpVersion := textOf q.requestLine.version
  headers := q.headerLines.map HeaderLine.header
  headerCap := headerCapAfter q.headerLines.length

def snoc (q : Reading) (line : HeaderLine) : Reading :=
  ⟨q.requestLine, q.headerLines ++ [line]⟩

theorem snoc_lexemes (q : Reading) (line : HeaderLine) :
    (q.snoc line).lexemes = q.lexemes ++ line.lexemes := by
  simp [snoc, lexemes, List.flatMap_append]

theorem snoc_fits (q : Reading) (line : HeaderLine) :
    (q.snoc line).Fits ↔ q.Fits ∧ line.Fits := by
  constructor
  · intro fits
    refine ⟨⟨fits.requestLine, fun l member => fits.headerLines l ?_⟩, fits.headerLines line ?_⟩
    · exact List.mem_append_left _ member
    · simp [snoc]
  · rintro ⟨fits, last⟩
    refine ⟨fits.requestLine, fun l member => ?_⟩
    rcases List.mem_append.mp member with old | new
    · exact fits.headerLines l old
    · rw [List.mem_singleton.mp new]
      exact last

end Reading

theorem cut_cut (text w rest : Bytes) : cut (cut text ++ cut w ++ rest) = cut (text ++ w ++ rest) := by
  have split (x y : Bytes) (n : Nat) : (x ++ y).take n = x.take n ++ y.take (n - x.length) :=
    List.take_append
  simp only [cut, List.append_assoc]
  by_cases long : 8191 ≤ text.length
  · rw [List.take_append_of_le_length (by simp; omega), List.take_append_of_le_length long,
      List.take_take, Nat.min_self]
  · have whole : text.take 8191 = text := List.take_of_length_le (by omega)
    rw [whole, split text, split text]
    congr 1
    rw [split (w.take 8191), split w, List.take_take, List.length_take]
    have shorter : min (8191 - text.length) 8191 = 8191 - text.length := by omega
    rw [shorter]
    by_cases wide : w.length ≤ 8191
    · rw [Nat.min_eq_right wide]
    · have spent : 8191 - text.length - min 8191 w.length = 0 := by omega
      rw [spent, show 8191 - text.length - w.length = 0 by omega]

theorem cut_snoc (text : Bytes) (rest : Bytes) : cut (cut text ++ rest) = cut (text ++ rest) := by
  simpa [cut] using cut_cut text [] rest

theorem cut_short (text : Bytes) (short : text.length < 4096) : cut text = text :=
  List.take_of_length_le (by omega)

theorem cut_long (text : Bytes) (bound : Nat) (low : bound ≤ 4096) :
    (cut text).length < bound ↔ text.length < bound := by
  rw [cut, List.length_take]
  omega

theorem storeRequestLine_fits (m u v : Bytes) (r : Request) (method : m.length < 50)
    (uri : u.length < 4096) (version : v.length < 50) :
    storeRequestLine (cut m) (cut u) (cut v) r =
      .ok { r with httpMethod := m, httpUri := u, httpVersion := v } := by
  rw [cut_short m (by omega), cut_short u uri, cut_short v (by omega)]
  simp only [storeRequestLine, strcpy_fits .httpMethod 50 m method,
    strcpy_fits .httpUri 4096 u uri, strcpy_fits .httpVersion 50 v version]

theorem storeRequestLine_over (m u v : Bytes) (r : Request)
    (excess : ¬ (m.length < 50 ∧ u.length < 4096 ∧ v.length < 50)) :
    ∃ fault, storeRequestLine (cut m) (cut u) (cut v) r = .error fault := by
  simp only [storeRequestLine, strcpy]
  rw [← cut_long m 50 (by omega), ← cut_long u 4096 (by omega), ← cut_long v 50 (by omega)] at excess
  by_cases method : (cut m).length < 50
  · by_cases uri : (cut u).length < 4096
    · have version : ¬ (cut v).length < 50 := fun version => excess ⟨method, uri, version⟩
      exact ⟨.bounds .httpVersion, by simp only [method, uri, version, if_true, if_false]⟩
    · exact ⟨.bounds .httpUri, by simp only [method, uri, if_true, if_false]⟩
  · exact ⟨.bounds .httpMethod, by simp only [method, if_false]⟩

theorem storeHeader_fits (n v : Bytes) (r : Request) (room : r.headerCount < r.headerCap)
    (name : n.length < 4096) (value : v.length < 4096) :
    storeHeader (cut n) (cut v) r =
      .ok { r with
        headers := r.headers ++ [⟨n, v⟩]
        headerCap :=
          if r.headerCount + 1 = r.headerCap then r.headerCap * 2 else r.headerCap } := by
  rw [cut_short n name, cut_short v value, storeHeader, if_pos room]
  simp only [strcpy_fits .headerName 4096 n name, strcpy_fits .headerValue 4096 v value,
    Request.headerCount, List.length_append, List.length_singleton]
  rfl

theorem storeHeader_over (n v : Bytes) (r : Request)
    (excess : ¬ (n.length < 4096 ∧ v.length < 4096)) :
    ∃ fault, storeHeader (cut n) (cut v) r = .error fault := by
  simp only [storeHeader, strcpy]
  rw [← cut_long n 4096 (by omega), ← cut_long v 4096 (by omega)] at excess
  by_cases room : r.headerCount < r.headerCap
  · by_cases name : (cut n).length < 4096
    · have value : ¬ (cut v).length < 4096 := fun value => excess ⟨name, value⟩
      exact ⟨.bounds .headerValue, by simp only [room, name, value, if_true, if_false]⟩
    · exact ⟨.bounds .headerName, by simp only [room, name, if_true, if_false]⟩
  · exact ⟨.bounds .headers, by simp only [room, if_false]⟩

namespace Phase

theorem step_nameChar (l : Lexeme) (name : l.isNameChar) :
    ∃ c, l = .tokenChar c := by
  cases l with
  | tokenChar c => exact ⟨c, rfl⟩
  | _ => cases name

theorem textChar_text (l : Lexeme) (c : UInt8) (char : l.textChar = some c) : l.text = [c] := by
  cases l <;> cases char <;> rfl

theorem blank_text (l : Lexeme) (w : Bytes) (blank : l.blank = some w) : l.text = w := by
  cases l <;> cases blank <;> rfl

theorem run_token (gather : Bytes → Phase) (first : Phase) (r : Request)
    (start : ∀ c, first.step (.tokenChar c) r = .next (gather [c]) r)
    (more : ∀ text c, (gather text).step (.tokenChar c) r = .next (gather (cut (text ++ [c]))) r)
    (ls : List Lexeme) (token : IsToken ls) :
    first.run ls r = .next (gather (cut (textOf ls))) r := by
  induction token with
  | char l name =>
      obtain ⟨c, rfl⟩ := step_nameChar l name
      rw [run, start]
      rfl
  | snoc ls l token name ih =>
      obtain ⟨c, rfl⟩ := step_nameChar l name
      rw [run_snoc _ _ _ _ _ _ ih, more, cut_snoc, textOf_append]
      rfl

theorem run_text (gather : Bytes → Phase) (between : Bytes → Bytes → Phase) (first : Phase)
    (blank : Lexeme → Bool) (r : Request)
    (start : ∀ l c, l.textChar = some c → first.step l r = .next (gather [c]) r)
    (more : ∀ text l c, l.textChar = some c →
      (gather text).step l r = .next (gather (extend text [] c)) r)
    (stop : ∀ text l, blank l → (gather text).step l r = .next (between text (cut l.text)) r)
    (resume : ∀ text w l c, l.textChar = some c →
      (between text w).step l r = .next (gather (extend text w c)) r)
    (ls : List Lexeme) (text : IsText blank ls) :
    first.run ls r = .next (gather (cut (textOf ls))) r := by
  induction text with
  | char l char =>
      obtain ⟨c, letter⟩ := Option.isSome_iff_exists.mp char
      rw [run, start l c letter, textOf_cons, textChar_text l c letter]
      rfl
  | snoc ls ows l text inner char ih =>
      obtain ⟨c, letter⟩ := Option.isSome_iff_exists.mp char
      cases inner with
      | none =>
          rw [List.append_nil, run_snoc _ _ _ _ _ _ ih, more _ l c letter, extend,
            List.append_nil, cut_snoc, textOf_append, textOf_cons, textChar_text l c letter]
          rfl
      | some w isBlank =>
          have paused : first.run (ls ++ [w]) r =
              .next (between (cut (textOf ls)) (cut w.text)) r := by
            rw [run_snoc _ _ _ _ _ _ ih, stop _ w isBlank]
          rw [run_snoc _ _ _ _ _ _ paused, resume _ _ l c letter, extend, cut_cut]
          simp only [textOf_append, textOf_cons, textOf_nil, List.append_nil,
            textChar_text l c letter]

theorem run_requestLine (line : RequestLine) (r : Request) :
    start.run line.lexemes r =
      .stored (storeRequestLine (cut (textOf line.method)) (cut (textOf line.uri))
        (cut (textOf line.version)) r) := by
  have method := run_token method start r (fun _ => rfl) (fun _ _ => rfl) _ line.methodToken
  have uri (m : Bytes) : (methodSp m).run line.uri r = .next (uri m (cut (textOf line.uri))) r := by
    refine run_text (uri m) (uriWs m) _ Lexeme.isWs r ?_ ?_ ?_ ?_ _ line.uriText
    · intro l c letter
      simp only [step, letter]
    · intro text l c letter
      simp only [step, letter]
    · intro text l blank
      cases l <;> cases blank
      rfl
    · intro text w l c letter
      simp only [step, letter]
  have version (m u : Bytes) :
      (uriSp m u).run line.version r = .next (version m u (cut (textOf line.version))) r := by
    refine run_text (version m u) (versionWs m u) _ Lexeme.isBlank r ?_ ?_ ?_ ?_ _ line.versionText
    · intro l c letter
      simp only [step, letter]
    · intro text l c letter
      simp only [step, letter]
    · intro text l blank
      cases l <;> cases blank <;> rfl
    · intro text w l c letter
      simp only [step, letter]
  simp only [RequestLine.lexemes, run_append, method, uri, version, run, step, nameChar_sp,
    textChar_sp, textChar_crlf, blank_crlf]
  generalize storeRequestLine (cut (textOf line.method)) (cut (textOf line.uri))
    (cut (textOf line.version)) r = outcome
  cases outcome <;> rfl

theorem run_ows (first : Phase) (after : Bytes → Phase) (r : Request)
    (blank : ∀ l, l.isBlank → first.step l r = .next (after (cut l.text)) r)
    (ls : List Lexeme) (ows : IsOws Lexeme.isBlank ls) :
    first.run ls r = .next first r ∧ ls = [] ∨ ∃ w, first.run ls r = .next (after w) r := by
  cases ows with
  | none => exact .inl ⟨rfl, rfl⟩
  | some l isBlank =>
      right
      refine ⟨cut l.text, ?_⟩
      simp only [run, blank l isBlank]

theorem run_headerLine (line : HeaderLine) (r : Request) :
    headers.run line.lexemes r =
      .stored (storeHeader (cut (textOf line.name)) (cut (textOf line.value)) r) := by
  have gathered := run_token name headers r (fun _ => rfl) (fun _ _ => rfl) _ line.nameToken
  have toColon : ∃ w, headers.run (line.name ++ line.before ++ [.colon]) r =
      .next (colon (cut (textOf line.name)) w) r := by
    rcases run_ows (name (cut (textOf line.name))) (nameWs (cut (textOf line.name))) r
      (by intro l blank; cases l <;> cases blank <;> rfl) _ line.beforeOws with
      ⟨-, empty⟩ | ⟨w, ran⟩
    · refine ⟨[], ?_⟩
      rw [empty, List.append_nil, run_snoc _ _ _ _ _ _ gathered]
      rfl
    · refine ⟨w, ?_⟩
      rw [run_append, run_append, gathered]
      simp only [ran, run]
      rfl
  obtain ⟨w, toColon⟩ := toColon
  have value (first : Phase) (x : Bytes)
      (start : ∀ l c, l.textChar = some c →
        first.step l r = .next (value (cut (textOf line.name)) w x [c]) r) :
      first.run line.value r =
        .next (value (cut (textOf line.name)) w x (cut (textOf line.value))) r := by
    refine run_text (value (cut (textOf line.name)) w x) (valueWs (cut (textOf line.name)) w x) _
      Lexeme.isBlank r start ?_ ?_ ?_ _ line.valueText
    · intro text l c letter
      simp only [step, letter]
    · intro text l blank
      cases l <;> cases blank <;> rfl
    · intro text y l c letter
      simp only [step, letter]
  have toValue : ∃ x, (colon (cut (textOf line.name)) w).run (line.after ++ line.value) r =
      .next (.value (cut (textOf line.name)) w x (cut (textOf line.value))) r := by
    rcases run_ows (colon (cut (textOf line.name)) w) (colonWs (cut (textOf line.name)) w) r
      (by intro l blank; cases l <;> cases blank <;> rfl) _ line.afterOws with
      ⟨-, empty⟩ | ⟨x, ran⟩
    · refine ⟨[], ?_⟩
      rw [empty, List.nil_append]
      exact value _ [] (by intro l c letter; simp only [step, letter])
    · refine ⟨x, ?_⟩
      rw [run_append, ran]
      exact value _ x (by intro l c letter; simp only [step, letter])
  obtain ⟨x, toValue⟩ := toValue
  have ended (ls : List Lexeme) (ows : IsOws Lexeme.isBlank ls) (n v : Bytes) :
      (Phase.value n w x v).run (ls ++ [.crlf]) r = .stored (storeHeader n v r) := by
    rcases run_ows (Phase.value n w x v) (valueWs n w x v) r
      (by intro l blank; cases l <;> cases blank <;> rfl) _ ows with ⟨-, empty⟩ | ⟨y, ran⟩
    · rw [empty]
      simp only [List.nil_append, run, step, textChar_crlf, blank_crlf]
      generalize storeHeader n v r = outcome
      cases outcome <;> rfl
    · rw [run_append, ran]
      simp only [run, step, textChar_crlf]
      generalize storeHeader n v r = outcome
      cases outcome <;> rfl
  have split : line.lexemes = (line.name ++ line.before ++ [.colon]) ++
      ((line.after ++ line.value) ++ (line.trailing ++ [.crlf])) := by
    simp only [HeaderLine.lexemes, List.append_assoc]
  rw [split, run_append, toColon]
  simp only []
  rw [run_append, toValue]
  exact ended _ line.trailingOws _ _

end Phase

namespace Reading

theorem request_snoc (q : Reading) (line : HeaderLine) (fits : line.Fits) :
    storeHeader (cut (textOf line.name)) (cut (textOf line.value)) q.request =
      .ok (q.snoc line).request := by
  have count : q.request.headerCount = q.headerLines.length := List.length_map ..
  have room : q.request.headerCount < q.request.headerCap := by
    rw [count]
    exact headerCapAfter_room _
  rw [storeHeader_fits _ _ _ room fits.name fits.value, count]
  simp only [request, snoc, HeaderLine.header, List.map_append, List.map_cons, List.map_nil,
    List.length_append, List.length_singleton, headerCapAfter]
  rfl

theorem run_fits (q : Reading) (fits : q.Fits) :
    Phase.start.run q.lexemes newRequest = .next .headers q.request := by
  obtain ⟨line, lines⟩ := q
  induction lines using List.reverseRecOn with
  | nil =>
      have bounds := fits.requestLine
      rw [lexemes, List.flatMap_nil, List.append_nil, Phase.run_requestLine,
        storeRequestLine_fits _ _ _ _ bounds.method bounds.uri bounds.version]
      rfl
  | append_singleton lines last ih =>
      obtain ⟨before, fitsLast⟩ := (snoc_fits ⟨line, lines⟩ last).mp fits
      have split : lexemes ⟨line, lines ++ [last]⟩ = lexemes ⟨line, lines⟩ ++ last.lexemes :=
        snoc_lexemes ⟨line, lines⟩ last
      rw [split, Phase.run_append, ih before]
      simp only [Phase.run_headerLine, request_snoc _ last fitsLast]
      rfl

theorem run_over (q : Reading) (excess : ¬ q.Fits) :
    ∃ fault, Phase.start.run q.lexemes newRequest = .fault fault := by
  obtain ⟨line, lines⟩ := q
  induction lines using List.reverseRecOn with
  | nil =>
      have overLine : ¬ ((textOf line.method).length < 50 ∧ (textOf line.uri).length < 4096 ∧
          (textOf line.version).length < 50) := by
        rintro ⟨method, uri, version⟩
        exact excess ⟨⟨method, uri, version⟩, by simp⟩
      obtain ⟨fault, stored⟩ := storeRequestLine_over _ _ _ newRequest overLine
      refine ⟨fault, ?_⟩
      rw [lexemes, List.flatMap_nil, List.append_nil, Phase.run_requestLine, stored]
      rfl
  | append_singleton lines last ih =>
      have split : lexemes ⟨line, lines ++ [last]⟩ = lexemes ⟨line, lines⟩ ++ last.lexemes :=
        snoc_lexemes ⟨line, lines⟩ last
      rw [split, Phase.run_append]
      by_cases before : Fits ⟨line, lines⟩
      · have overLast : ¬ ((textOf last.name).length < 4096 ∧
            (textOf last.value).length < 4096) := by
          rintro ⟨name, value⟩
          exact excess ((snoc_fits ⟨line, lines⟩ last).mpr ⟨before, ⟨name, value⟩⟩)
        obtain ⟨fault, stored⟩ := storeHeader_over _ _ (request ⟨line, lines⟩) overLast
        refine ⟨fault, ?_⟩
        simp only [run_fits _ before, Phase.run_headerLine, stored]
        rfl
      · obtain ⟨fault, ran⟩ := ih before
        exact ⟨fault, by simp only [ran]⟩

end Reading

inductive Reads : Phase → Request → List Lexeme → Prop
  | start : Reads .start newRequest []
  | method {M} (token : IsToken M) : Reads (.method (cut (textOf M))) newRequest M
  | methodSp {M} (token : IsToken M) :
      Reads (.methodSp (cut (textOf M))) newRequest (M ++ [.sp])
  | uri {M U} (token : IsToken M) (text : IsText Lexeme.isWs U) :
      Reads (.uri (cut (textOf M)) (cut (textOf U))) newRequest (M ++ [.sp] ++ U)
  | uriWs {M U W} (token : IsToken M) (text : IsText Lexeme.isWs U) (blank : W.isWs) :
      Reads (.uriWs (cut (textOf M)) (cut (textOf U)) (cut W.text)) newRequest
        (M ++ [.sp] ++ (U ++ [W]))
  | uriSp {M U} (token : IsToken M) (text : IsText Lexeme.isWs U) :
      Reads (.uriSp (cut (textOf M)) (cut (textOf U))) newRequest (M ++ [.sp] ++ U ++ [.sp])
  | version {M U V} (token : IsToken M) (text : IsText Lexeme.isWs U)
      (last : IsText Lexeme.isBlank V) :
      Reads (.version (cut (textOf M)) (cut (textOf U)) (cut (textOf V))) newRequest
        (M ++ [.sp] ++ U ++ [.sp] ++ V)
  | versionWs {M U V W} (token : IsToken M) (text : IsText Lexeme.isWs U)
      (last : IsText Lexeme.isBlank V) (blank : W.isBlank) :
      Reads (.versionWs (cut (textOf M)) (cut (textOf U)) (cut (textOf V)) (cut W.text)) newRequest
        (M ++ [.sp] ++ U ++ [.sp] ++ (V ++ [W]))
  | headers {q : Reading} (fits : q.Fits) : Reads .headers q.request q.lexemes
  | name {q : Reading} {N} (fits : q.Fits) (token : IsToken N) :
      Reads (.name (cut (textOf N))) q.request (q.lexemes ++ N)
  | nameWs {q : Reading} {N B} (fits : q.Fits) (token : IsToken N) (blank : B.isBlank) :
      Reads (.nameWs (cut (textOf N)) (cut B.text)) q.request (q.lexemes ++ (N ++ [B]))
  | colon {q : Reading} {N B w} (fits : q.Fits) (token : IsToken N)
      (before : IsOws Lexeme.isBlank B) :
      Reads (.colon (cut (textOf N)) w) q.request (q.lexemes ++ (N ++ B ++ [.colon]))
  | colonWs {q : Reading} {N B A w} (fits : q.Fits) (token : IsToken N)
      (before : IsOws Lexeme.isBlank B) (blank : A.isBlank) :
      Reads (.colonWs (cut (textOf N)) w (cut A.text)) q.request
        (q.lexemes ++ (N ++ B ++ [.colon] ++ [A]))
  | value {q : Reading} {N B A V w x} (fits : q.Fits) (token : IsToken N)
      (before : IsOws Lexeme.isBlank B) (after : IsOws Lexeme.isBlank A)
      (text : IsText Lexeme.isBlank V) :
      Reads (.value (cut (textOf N)) w x (cut (textOf V))) q.request
        (q.lexemes ++ (N ++ B ++ [.colon] ++ A ++ V))
  | valueWs {q : Reading} {N B A V Y w x} (fits : q.Fits) (token : IsToken N)
      (before : IsOws Lexeme.isBlank B) (after : IsOws Lexeme.isBlank A)
      (text : IsText Lexeme.isBlank V) (blank : Y.isBlank) :
      Reads (.valueWs (cut (textOf N)) w x (cut (textOf V)) (cut Y.text)) q.request
        (q.lexemes ++ (N ++ B ++ [.colon] ++ A ++ (V ++ [Y])))

inductive ReadsOn (ls : List Lexeme) : PhaseResult → Prop
  | next {p : Phase} {r : Request} (reads : Reads p r ls) : ReadsOn ls (.next p r)
  | finished (q : Reading) (fits : q.Fits) (whole : ls = q.lexemes ++ [.crlf]) :
      ReadsOn ls (.finished q.request)
  | rejected : ReadsOn ls .rejected
  | fault (q : Reading) (excess : ¬ q.Fits) (whole : ls = q.lexemes) (fault : Fault) :
      ReadsOn ls (.fault fault)

theorem extend_char (ls : List Lexeme) (l : Lexeme) (c : UInt8) (letter : l.textChar = some c) :
    Phase.extend (cut (textOf ls)) [] c = cut (textOf (ls ++ [] ++ [l])) := by
  rw [Phase.extend, List.append_nil, cut_snoc, List.append_nil, textOf_append, textOf_cons,
    Phase.textChar_text l c letter]
  rfl

theorem extend_blank (ls : List Lexeme) (w l : Lexeme) (c : UInt8)
    (letter : l.textChar = some c) :
    Phase.extend (cut (textOf ls)) (cut w.text) c = cut (textOf (ls ++ [w] ++ [l])) := by
  rw [Phase.extend, cut_cut]
  simp only [textOf_append, textOf_cons, textOf_nil, List.append_nil, Phase.textChar_text l c letter]

theorem cut_char (l : Lexeme) (c : UInt8) (letter : l.textChar = some c) :
    [c] = cut (textOf [l]) := by
  rw [textOf_cons, Phase.textChar_text l c letter]
  rfl

theorem isTextChar_of {l : Lexeme} {c : UInt8} (letter : l.textChar = some c) : l.isTextChar := by
  rw [Lexeme.isTextChar, letter]
  rfl

private theorem reads_requestLine (M U V : List Lexeme) (token : IsToken M)
    (text : IsText Lexeme.isWs U) (last : IsText Lexeme.isBlank V) :
    ReadsOn (M ++ [.sp] ++ U ++ [.sp] ++ V ++ [.crlf])
      (.stored (storeRequestLine (cut (textOf M)) (cut (textOf U)) (cut (textOf V))
        newRequest)) := by
  let q : Reading := ⟨⟨M, U, V, token, text, last⟩, []⟩
  have whole : M ++ [.sp] ++ U ++ [.sp] ++ V ++ [.crlf] = q.lexemes := (List.append_nil _).symm
  have ran : Phase.start.run q.lexemes newRequest =
      .stored (storeRequestLine (cut (textOf M)) (cut (textOf U)) (cut (textOf V)) newRequest) := by
    rw [← whole]
    exact Phase.run_requestLine q.requestLine newRequest
  rw [whole, ← ran]
  by_cases fits : q.Fits
  · rw [q.run_fits fits]
    exact .next (.headers fits)
  · obtain ⟨fault, excess⟩ := q.run_over fits
    rw [excess]
    exact .fault q fits rfl fault

private theorem reads_headerLine (q : Reading) (fits : q.Fits) (line : HeaderLine) :
    ReadsOn (q.lexemes ++ line.lexemes)
      (.stored (storeHeader (cut (textOf line.name)) (cut (textOf line.value)) q.request)) := by
  have ran : Phase.start.run (q.snoc line).lexemes newRequest =
      .stored (storeHeader (cut (textOf line.name)) (cut (textOf line.value)) q.request) := by
    rw [q.snoc_lexemes, Phase.run_append, q.run_fits fits]
    exact Phase.run_headerLine line q.request
  rw [← q.snoc_lexemes, ← ran]
  by_cases fitsLast : (q.snoc line).Fits
  · rw [(q.snoc line).run_fits fitsLast]
    exact .next (.headers fitsLast)
  · obtain ⟨fault, excess⟩ := (q.snoc line).run_over fitsLast
    rw [excess]
    exact .fault _ fitsLast rfl fault

theorem isBlank_of {l : Lexeme} {w : Bytes} (blank : l.blank = some w) : l.isBlank := by
  rw [Lexeme.isBlank, blank]
  rfl

section RequestLine

variable {M U V : List Lexeme} {W : Lexeme} (l : Lexeme)

private theorem reads_start : ReadsOn [l] (Phase.start.step l newRequest) := by
  cases l with
  | tokenChar c => exact .next (.method (.char (.tokenChar c) rfl))
  | _ => exact .rejected

private theorem reads_method (token : IsToken M) :
    ReadsOn (M ++ [l]) ((Phase.method (cut (textOf M))).step l newRequest) := by
  cases l with
  | tokenChar c =>
      have longer := Reads.method (.snoc M (.tokenChar c) token rfl)
      rw [textOf_append, ← cut_snoc] at longer
      exact .next longer
  | sp => exact .next (.methodSp token)
  | _ => exact .rejected

private theorem reads_methodSp (token : IsToken M) :
    ReadsOn (M ++ [.sp] ++ [l]) ((Phase.methodSp (cut (textOf M))).step l newRequest) := by
  simp only [Phase.step]
  cases letter : l.textChar with
  | none => exact .rejected
  | some c =>
      dsimp only
      rw [cut_char l c letter]
      exact .next (.uri token (.char l (isTextChar_of letter)))

private theorem reads_uri (token : IsToken M) (text : IsText Lexeme.isWs U) :
    ReadsOn (M ++ [.sp] ++ U ++ [l])
      ((Phase.uri (cut (textOf M)) (cut (textOf U))).step l newRequest) := by
  simp only [Phase.step]
  cases letter : l.textChar with
  | some c =>
      dsimp only
      rw [extend_char U l c letter, List.append_assoc]
      have longer := IsText.snoc U [] l text .none (isTextChar_of letter)
      simp only [List.append_nil] at longer ⊢
      exact .next (.uri token longer)
  | none =>
      cases l with
      | sp => exact .next (.uriSp token text)
      | ws w =>
          rw [List.append_assoc]
          exact .next (.uriWs token text (W := .ws w) rfl)
      | _ => exact .rejected

private theorem reads_uriWs (token : IsToken M) (text : IsText Lexeme.isWs U) (blank : W.isWs) :
    ReadsOn (M ++ [.sp] ++ (U ++ [W]) ++ [l])
      ((Phase.uriWs (cut (textOf M)) (cut (textOf U)) (cut W.text)).step l newRequest) := by
  simp only [Phase.step]
  cases letter : l.textChar with
  | none => exact .rejected
  | some c =>
      dsimp only
      rw [extend_blank U W l c letter, List.append_assoc]
      exact .next (.uri token (.snoc U [W] l text (.some W blank) (isTextChar_of letter)))

private theorem reads_uriSp (token : IsToken M) (text : IsText Lexeme.isWs U) :
    ReadsOn (M ++ [.sp] ++ U ++ [.sp] ++ [l])
      ((Phase.uriSp (cut (textOf M)) (cut (textOf U))).step l newRequest) := by
  simp only [Phase.step]
  cases letter : l.textChar with
  | none => exact .rejected
  | some c =>
      dsimp only
      rw [cut_char l c letter]
      exact .next (.version token text (.char l (isTextChar_of letter)))

private theorem reads_version (token : IsToken M) (text : IsText Lexeme.isWs U)
    (last : IsText Lexeme.isBlank V) :
    ReadsOn (M ++ [.sp] ++ U ++ [.sp] ++ V ++ [l])
      ((Phase.version (cut (textOf M)) (cut (textOf U)) (cut (textOf V))).step l newRequest) := by
  simp only [Phase.step]
  cases letter : l.textChar with
  | some c =>
      dsimp only
      rw [extend_char V l c letter, List.append_assoc]
      have longer := IsText.snoc V [] l last .none (isTextChar_of letter)
      simp only [List.append_nil] at longer ⊢
      exact .next (.version token text longer)
  | none =>
      cases blank : l.blank with
      | some w =>
          dsimp only
          rw [← Phase.blank_text l w blank, List.append_assoc]
          exact .next (.versionWs token text last (W := l) (isBlank_of blank))
      | none =>
          cases l with
          | crlf => exact reads_requestLine M U V token text last
          | _ => exact .rejected

private theorem reads_versionWs (token : IsToken M) (text : IsText Lexeme.isWs U)
    (last : IsText Lexeme.isBlank V) (blank : W.isBlank) :
    ReadsOn (M ++ [.sp] ++ U ++ [.sp] ++ (V ++ [W]) ++ [l])
      ((Phase.versionWs (cut (textOf M)) (cut (textOf U)) (cut (textOf V)) (cut W.text)).step l
        newRequest) := by
  simp only [Phase.step]
  cases letter : l.textChar with
  | none => exact .rejected
  | some c =>
      dsimp only
      rw [extend_blank V W l c letter, List.append_assoc]
      exact .next (.version token text
        (.snoc V [W] l last (.some W blank) (isTextChar_of letter)))

end RequestLine

section HeaderLine

variable {q : Reading} {N before after V : List Lexeme} {B A Y : Lexeme} {w x : Bytes} (l : Lexeme)

private theorem reads_headers (fits : q.Fits) :
    ReadsOn (q.lexemes ++ [l]) (Phase.headers.step l q.request) := by
  cases l with
  | tokenChar c => exact .next (.name fits (.char (.tokenChar c) rfl))
  | crlf => exact .finished q fits rfl
  | _ => exact .rejected

private theorem reads_name (fits : q.Fits) (token : IsToken N) :
    ReadsOn (q.lexemes ++ N ++ [l]) ((Phase.name (cut (textOf N))).step l q.request) := by
  simp only [Phase.step]
  cases l with
  | tokenChar c =>
      have longer := Reads.name fits (.snoc N (.tokenChar c) token rfl)
      rw [textOf_append, ← cut_snoc, ← List.append_assoc] at longer
      exact .next longer
  | sp =>
      rw [List.append_assoc]
      exact .next (.nameWs fits token (B := .sp) rfl)
  | ws w =>
      rw [List.append_assoc]
      exact .next (.nameWs fits token (B := .ws w) rfl)
  | colon =>
      have next := Reads.colon (w := []) fits token .none
      simp only [List.append_nil] at next
      rw [List.append_assoc]
      exact .next next
  | _ => exact .rejected

private theorem reads_nameWs (fits : q.Fits) (token : IsToken N) (blank : B.isBlank) :
    ReadsOn (q.lexemes ++ (N ++ [B]) ++ [l])
      ((Phase.nameWs (cut (textOf N)) (cut B.text)).step l q.request) := by
  cases l with
  | colon =>
      rw [List.append_assoc]
      exact .next (.colon fits token (.some B blank))
  | _ => exact .rejected

private theorem reads_colon (fits : q.Fits) (token : IsToken N)
    (ows : IsOws Lexeme.isBlank before) :
    ReadsOn (q.lexemes ++ (N ++ before ++ [.colon]) ++ [l])
      ((Phase.colon (cut (textOf N)) w).step l q.request) := by
  simp only [Phase.step]
  cases letter : l.textChar with
  | some c =>
      dsimp only
      have next := Reads.value (w := w) (x := []) fits token ows .none
        (.char l (isTextChar_of letter))
      rw [cut_char l c letter, List.append_assoc]
      simp only [List.append_nil] at next
      exact .next next
  | none =>
      cases blank : l.blank with
      | some x =>
          dsimp only
          rw [← Phase.blank_text l x blank, List.append_assoc]
          exact .next (.colonWs fits token ows (isBlank_of blank))
      | none => exact .rejected

private theorem reads_colonWs (fits : q.Fits) (token : IsToken N)
    (ows : IsOws Lexeme.isBlank before) (blank : A.isBlank) :
    ReadsOn (q.lexemes ++ (N ++ before ++ [.colon] ++ [A]) ++ [l])
      ((Phase.colonWs (cut (textOf N)) w (cut A.text)).step l q.request) := by
  simp only [Phase.step]
  cases letter : l.textChar with
  | none => exact .rejected
  | some c =>
      dsimp only
      rw [cut_char l c letter, List.append_assoc]
      exact .next (.value fits token ows (.some A blank) (.char l (isTextChar_of letter)))

private theorem reads_value (fits : q.Fits) (token : IsToken N)
    (ows : IsOws Lexeme.isBlank before) (owsToo : IsOws Lexeme.isBlank after)
    (text : IsText Lexeme.isBlank V) :
    ReadsOn (q.lexemes ++ (N ++ before ++ [.colon] ++ after ++ V) ++ [l])
      ((Phase.value (cut (textOf N)) w x (cut (textOf V))).step l q.request) := by
  simp only [Phase.step]
  cases letter : l.textChar with
  | some c =>
      dsimp only
      rw [extend_char V l c letter, List.append_assoc]
      have longer := IsText.snoc V [] l text .none (isTextChar_of letter)
      simp only [List.append_nil, List.append_assoc] at longer ⊢
      have next := Reads.value (w := w) (x := x) fits token ows owsToo longer
      simp only [List.append_assoc] at next
      exact .next next
  | none =>
      cases blank : l.blank with
      | some y =>
          dsimp only
          rw [← Phase.blank_text l y blank, List.append_assoc, List.append_assoc]
          exact .next (.valueWs fits token ows owsToo text (isBlank_of blank))
      | none =>
          cases l with
          | crlf =>
              have stored := reads_headerLine q fits
                ⟨N, before, after, V, [], token, ows, owsToo, text, .none⟩
              simp only [HeaderLine.lexemes, List.append_nil] at stored
              rw [List.append_assoc]
              exact stored
          | _ => exact .rejected

private theorem reads_valueWs (fits : q.Fits) (token : IsToken N)
    (ows : IsOws Lexeme.isBlank before) (owsToo : IsOws Lexeme.isBlank after)
    (text : IsText Lexeme.isBlank V) (blank : Y.isBlank) :
    ReadsOn (q.lexemes ++ (N ++ before ++ [.colon] ++ after ++ (V ++ [Y])) ++ [l])
      ((Phase.valueWs (cut (textOf N)) w x (cut (textOf V)) (cut Y.text)).step l q.request) := by
  simp only [Phase.step]
  cases letter : l.textChar with
  | some c =>
      dsimp only
      rw [extend_blank V Y l c letter]
      have longer := IsText.snoc V [Y] l text (.some Y blank) (isTextChar_of letter)
      have next := Reads.value (w := w) (x := x) fits token ows owsToo longer
      simp only [List.append_assoc] at next ⊢
      exact .next next
  | none =>
      cases l with
      | crlf =>
          have stored := reads_headerLine q fits
            ⟨N, before, after, V, [Y], token, ows, owsToo, text, .some Y blank⟩
          simp only [HeaderLine.lexemes, List.append_assoc] at stored ⊢
          exact stored
      | _ => exact .rejected

end HeaderLine

theorem reads_step (p : Phase) (r : Request) (ls : List Lexeme) (l : Lexeme)
    (reads : Reads p r ls) : ReadsOn (ls ++ [l]) (p.step l r) := by
  cases reads with
  | start => exact reads_start l
  | method token => exact reads_method l token
  | methodSp token => exact reads_methodSp l token
  | uri token text => exact reads_uri l token text
  | uriWs token text blank => exact reads_uriWs l token text blank
  | uriSp token text => exact reads_uriSp l token text
  | version token text last => exact reads_version l token text last
  | versionWs token text last blank => exact reads_versionWs l token text last blank
  | headers fits => exact reads_headers l fits
  | name fits token => exact reads_name l fits token
  | nameWs fits token blank => exact reads_nameWs l fits token blank
  | colon fits token before => exact reads_colon l fits token before
  | colonWs fits token before blank => exact reads_colonWs l fits token before blank
  | value fits token before after text => exact reads_value l fits token before after text
  | valueWs fits token before after text blank =>
      exact reads_valueWs l fits token before after text blank

theorem reads_run (p : Phase) (r : Request) (ls more : List Lexeme) (reads : Reads p r ls) :
    ∃ consumed rest, more = consumed ++ rest ∧ ReadsOn (ls ++ consumed) (p.run more r) := by
  induction more generalizing p r ls with
  | nil => exact ⟨[], [], rfl, .next (by simpa using reads)⟩
  | cons l more ih =>
      have head := reads_step p r ls l reads
      simp only [Phase.run]
      generalize p.step l r = result at head
      cases head with
      | next further =>
          obtain ⟨consumed, rest, rfl, on⟩ := ih _ _ _ further
          refine ⟨l :: consumed, rest, rfl, ?_⟩
          simpa using on
      | finished q fits whole => exact ⟨[l], more, rfl, .finished q fits whole⟩
      | rejected => exact ⟨[l], more, rfl, .rejected⟩
      | fault q excess whole fault => exact ⟨[l], more, rfl, .fault q excess whole fault⟩

/-- The parser accepts exactly a reading whose fields fit, followed by a blank line. -/
theorem yyparse_finished (ls : List Lexeme) (r : Request) :
    yyparse (ls.map Lexeme.token) newRequest = .finished r ↔
      ∃ q : Reading, ∃ rest, ls = q.lexemes ++ .crlf :: rest ∧ q.Fits ∧ q.request = r := by
  rw [yyparse_run]
  constructor
  · intro finished
    obtain ⟨consumed, rest, rfl, on⟩ := reads_run .start newRequest [] ls .start
    generalize Phase.start.run (consumed ++ rest) newRequest = result at on finished
    cases on with
    | finished q fits whole =>
        cases finished
        refine ⟨q, rest, ?_, fits, rfl⟩
        rw [List.nil_append] at whole
        rw [whole, List.append_assoc]
        rfl
    | _ => cases finished
  · rintro ⟨q, rest, rfl, fits, rfl⟩
    rw [Phase.run_append, q.run_fits fits]
    rfl

/-- It faults exactly where a reading of the first lexemes does not fit. -/
theorem yyparse_fault (ls : List Lexeme) :
    (∃ fault, yyparse (ls.map Lexeme.token) newRequest = .fault fault) ↔
      ∃ q : Reading, ∃ rest, ls = q.lexemes ++ rest ∧ ¬ q.Fits := by
  rw [yyparse_run]
  constructor
  · rintro ⟨fault, stopped⟩
    obtain ⟨consumed, rest, rfl, on⟩ := reads_run .start newRequest [] ls .start
    generalize Phase.start.run (consumed ++ rest) newRequest = result at on stopped
    cases on with
    | fault q excess whole _ =>
        refine ⟨q, rest, ?_, excess⟩
        rw [← whole, List.nil_append]
    | _ => cases stopped
  · rintro ⟨q, rest, rfl, excess⟩
    obtain ⟨fault, ran⟩ := q.run_over excess
    refine ⟨fault, ?_⟩
    rw [Phase.run_append, ran]
    rfl

end Liso
