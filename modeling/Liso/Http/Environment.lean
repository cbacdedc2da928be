import Mathlib.Data.List.TakeWhile
import Liso.Http.Cgi

/-! The environment of a CGI child in the array it is built in, its content, and the walk that
frees it. -/

namespace Liso

/-- The strings made by `new_string`, each at an address of its own and `none` once freed, and
the slots of `envp`, where `none` is NULL. -/
structure EnvpMemory where
  strings : List (Option Bytes)
  envp : List (Option Nat)

def cgiEnvpLen : Nat := 22

def newString (memory : EnvpMemory) (text : Bytes) : Nat × EnvpMemory :=
  (memory.strings.length, { memory with strings := memory.strings ++ [some text] })

def setEnvp (memory : EnvpMemory) (index : Nat) (value : Option Nat) : Except Fault EnvpMemory :=
  if index < memory.envp.length then .ok { memory with envp := memory.envp.set index value }
  else .error (.bounds .envp)

def setEnvpField (name value : Bytes) (memory : EnvpMemory) (index : Nat) :
    Except Fault EnvpMemory := do
  let text ← setEnvpFieldByStr name value
  let (address, memory) := newString memory text
  setEnvp memory index (some address)

def setEnvpFields : List (Bytes × Bytes) → EnvpMemory → Nat → Except Fault (EnvpMemory × Nat)
  | [], memory, index => .ok (memory, index)
  | (name, value) :: rest, memory, index => do
      let memory ← setEnvpField name value memory index
      setEnvpFields rest memory (index + 1)

def setEnvpUriFields (uri : Bytes) (memory : EnvpMemory) (index : Nat) :
    Except Fault (EnvpMemory × Nat) :=
  if uri.contains 0x3f then do
    let split := uri.idxOf 0x3f
    let queryString ← strcpy .queryString 512 (uri.drop (split + 1))
    let memory ← setEnvpField (str "QUERY_STRING") queryString memory index
    let pathInfo ← strcpy .pathInfo 512 ((uri.take split).drop 4)
    let memory ← setEnvpField (str "PATH_INFO") pathInfo memory (index + 1)
    return (memory, index + 2)
  else do
    let memory ← setEnvpField (str "QUERY_STRING") [] memory index
    let pathInfo ← strcpy .pathInfo 512 (uri.drop 4)
    let memory ← setEnvpField (str "PATH_INFO") pathInfo memory (index + 1)
    return (memory, index + 2)

def envpFixed (request : Request) : List (Bytes × Bytes) :=
  [(str "GATEWAY_INTERFACE", str "CGI/1.1"), (str "SERVER_SOFTWARE", str "Liso/1.0"),
   (str "SERVER_PROTOCOL", str "HTTP/1.1"), (str "REQUEST_METHOD", request.httpMethod),
   (str "REQUEST_URI", request.httpUri), (str "SCRIPT_NAME", str "/cgi")]

def envpFromHeaders (request : Request) : List (Bytes × Bytes) :=
  envpHeaders.map fun (header, name) => (name, getHeaderValue request header)

def envpAddress (hap : Address) : List (Bytes × Bytes) :=
  [(str "REMOTE_ADDR", hap.host), (str "SERVER_PORT", str (toString hap.port))]

def buildEnvp (request : Request) (hap : Address) (memory : EnvpMemory) :
    Except Fault EnvpMemory := do
  let (memory, index) ← setEnvpFields (envpFixed request) memory 0
  let (memory, index) ← setEnvpUriFields request.httpUri memory index
  let (memory, index) ← setEnvpFields (envpFromHeaders request) memory index
  let (memory, index) ← setEnvpFields (envpAddress hap) memory index
  setEnvp memory index none

/-- The loop of `free_CGI_param`, from some slot on. -/
def freeEnvpLoop : List (Option Nat) → List (Option Bytes) → Except Fault (List (Option Bytes))
  | [], _ => .error (.bounds .envp)
  | none :: _, strings => .ok strings
  | some address :: rest, strings =>
      match strings[address]? with
      | some (some _) => freeEnvpLoop rest (strings.set address none)
      | _ => .error .freed

def freeCgiParam (memory : EnvpMemory) : Except Fault (List (Option Bytes)) :=
  freeEnvpLoop memory.envp memory.strings

def envpEntry (field : Bytes × Bytes) : Bytes := field.1 ++ str "=" ++ field.2

def EnvpFits (field : Bytes × Bytes) : Prop := (envpEntry field).length < 1024

instance (field : Bytes × Bytes) : Decidable (EnvpFits field) :=
  inferInstanceAs (Decidable (_ < _))

theorem setEnvpFieldByStr_fits {name value : Bytes} (fits : EnvpFits (name, value)) :
    setEnvpFieldByStr name value = .ok (envpEntry (name, value)) := strcpy_fits _ _ _ fits

structure Filled (before : EnvpMemory) (texts : List Bytes) (memory : EnvpMemory) : Prop where
  strings : memory.strings = before.strings ++ texts.map some
  envp : memory.envp = (List.range' before.strings.length texts.length).map some ++
    before.envp.drop texts.length

namespace Filled

variable {before memory : EnvpMemory} {texts : List Bytes}

theorem start (before : EnvpMemory) : Filled before [] before where
  strings := (List.append_nil _).symm
  envp := rfl

theorem set (filled : Filled before texts memory) (room : texts.length < before.envp.length)
    (strings : List (Option Bytes)) (value : Option Nat) :
    setEnvp { memory with strings } texts.length value = .ok {
      strings
      envp := (List.range' before.strings.length texts.length).map some ++
        value :: before.envp.drop (texts.length + 1) } := by
  have front : ((List.range' before.strings.length texts.length).map some).length =
      texts.length := by simp
  have inside : texts.length < memory.envp.length := by
    rw [filled.envp, List.length_append, front, List.length_drop]
    omega
  rw [setEnvp, if_pos inside, filled.envp, List.set_append_right _ _ (Nat.le_of_eq front), front,
    Nat.sub_self, List.drop_eq_getElem_cons room, List.set_cons_zero]

theorem field (filled : Filled before texts memory) (room : texts.length < before.envp.length)
    {name value text : Bytes} (made : setEnvpFieldByStr name value = .ok text) :
    ∃ next, setEnvpField name value memory texts.length = .ok next ∧
      Filled before (texts ++ [text]) next := by
  have address : memory.strings.length = before.strings.length + texts.length := by
    rw [filled.strings, List.length_append, List.length_map]
  have wrote := filled.set room (memory.strings ++ [some text]) (some memory.strings.length)
  refine ⟨_, by rw [setEnvpField, made, ok_bind]; exact wrote, ⟨?_, ?_⟩⟩
  · rw [filled.strings, List.map_append, List.append_assoc]
    rfl
  · rw [address, List.length_append, List.length_singleton, List.range'_concat, Nat.one_mul,
      List.map_append, List.append_assoc]
    rfl

theorem fields (filled : Filled before texts memory) (list : List (Bytes × Bytes))
    (room : texts.length + list.length ≤ before.envp.length)
    (fits : ∀ field ∈ list, EnvpFits field) :
    ∃ next, setEnvpFields list memory texts.length =
        .ok (next, (texts ++ list.map envpEntry).length) ∧
      Filled before (texts ++ list.map envpEntry) next := by
  induction list generalizing memory texts with
  | nil => exact ⟨memory, by simp [setEnvpFields], by simpa using filled⟩
  | cons field list ih =>
      obtain ⟨name, value⟩ := field
      rw [List.length_cons] at room
      have made := setEnvpFieldByStr_fits (fits (name, value) List.mem_cons_self)
      obtain ⟨middle, wrote, more⟩ := filled.field (by omega) made
      have size : (texts ++ [envpEntry (name, value)]).length = texts.length + 1 := by simp
      obtain ⟨next, ran, all⟩ := ih more (by rw [size]; omega)
        fun other member => fits other (List.mem_cons_of_mem _ member)
      rw [List.append_assoc, List.singleton_append] at ran all
      refine ⟨next, ?_, all⟩
      rw [setEnvpFields, wrote, ok_bind, ← size, ran]
      rfl

end Filled

def pathInfoOf (uri : Bytes) : Bytes := (uri.takeWhile (· ≠ 0x3f)).drop 4

def queryOf (uri : Bytes) : Bytes := (uri.dropWhile (· ≠ 0x3f)).tail

def envpUri (uri : Bytes) : List (Bytes × Bytes) :=
  [(str "QUERY_STRING", queryOf uri), (str "PATH_INFO", pathInfoOf uri)]

/-- The names and values of the 21 strings. -/
def envpFieldsOf (request : Request) (hap : Address) : List (Bytes × Bytes) :=
  envpFixed request ++ envpUri request.httpUri ++ envpFromHeaders request ++ envpAddress hap

private theorem split_first (text : Bytes) (mark : UInt8) :
    (mark ∉ text ∧ text.takeWhile (· ≠ mark) = text ∧ text.dropWhile (· ≠ mark) = []) ∨
      ∃ front back, text = front ++ mark :: back ∧ mark ∉ front ∧
        text.takeWhile (· ≠ mark) = front ∧ text.dropWhile (· ≠ mark) = mark :: back := by
  by_cases member : mark ∈ text
  · obtain ⟨front, back, rfl, before⟩ := List.eq_append_cons_of_mem member
    have plain : ∀ c ∈ front, decide (c ≠ mark) = true := fun c inFront =>
      decide_eq_true fun same => before (same ▸ inFront)
    refine .inr ⟨front, back, rfl, before, ?_, ?_⟩
    · rw [List.takeWhile_append_of_pos plain, List.takeWhile_cons_of_neg (by simp),
        List.append_nil]
    · rw [List.dropWhile_append_of_pos plain, List.dropWhile_cons_of_neg (by simp)]
  · have plain : ∀ c ∈ text, decide (c ≠ mark) = true := fun c inText =>
      decide_eq_true fun same => member (same ▸ inText)
    exact .inl ⟨member, List.takeWhile_eq_self_iff.mpr plain, List.dropWhile_eq_nil_iff.mpr plain⟩

private theorem idxOf_first {front : Bytes} {mark : UInt8} {back : Bytes} (before : mark ∉ front) :
    (front ++ mark :: back).idxOf mark = front.length := by
  rw [List.idxOf_append_of_notMem before, List.idxOf_cons_self, Nat.add_zero]

private theorem drop_first {front : Bytes} {mark : UInt8} {back : Bytes} :
    (front ++ mark :: back).drop (front.length + 1) = back := by
  rw [List.drop_append]
  simp

private theorem uri_cases (uri : Bytes) :
    (uri.contains 0x3f = true ∧ uri.drop (uri.idxOf 0x3f + 1) = queryOf uri ∧
        (uri.take (uri.idxOf 0x3f)).drop 4 = pathInfoOf uri) ∨
      (¬ uri.contains 0x3f = true ∧ queryOf uri = [] ∧ uri.drop 4 = pathInfoOf uri) := by
  rw [queryOf, pathInfoOf]
  rcases split_first uri 0x3f with ⟨none, all, nothing⟩ | ⟨front, back, rfl, before, first, rest⟩
  · refine .inr ⟨by simpa using none, ?_, ?_⟩
    · rw [nothing, List.tail_nil]
    · rw [all]
  · refine .inl ⟨by simp, ?_, ?_⟩
    · rw [idxOf_first before, drop_first, rest, List.tail_cons]
    · rw [idxOf_first before, List.take_left, first]

theorem setEnvpUriFields_eq (uri : Bytes) (memory : EnvpMemory) (index : Nat)
    (path : (pathInfoOf uri).length < 512) (query : (queryOf uri).length < 512) :
    setEnvpUriFields uri memory index = setEnvpFields (envpUri uri) memory index := by
  rw [setEnvpUriFields, envpUri]
  rcases uri_cases uri with ⟨found, rest, front⟩ | ⟨missing, nothing, all⟩
  · rw [if_pos found]
    simp only [rest, front]
    rw [strcpy_fits _ _ _ query, strcpy_fits _ _ _ path]
    rfl
  · rw [if_neg missing, nothing, all, strcpy_fits _ _ _ path]
    rfl

theorem buildEnvp_fills (request : Request) (hap : Address) (before : EnvpMemory)
    (slots : before.envp.length = cgiEnvpLen)
    (path : (pathInfoOf request.httpUri).length < 512)
    (query : (queryOf request.httpUri).length < 512)
    (fits : ∀ field ∈ envpFieldsOf request hap, EnvpFits field) :
    buildEnvp request hap before = .ok {
      strings := before.strings ++ ((envpFieldsOf request hap).map envpEntry).map some
      envp := (List.range' before.strings.length 21).map some ++ [none] } := by
  obtain ⟨one, ranOne, filledOne⟩ := (Filled.start before).fields (envpFixed request)
    (by rw [slots]; simp [envpFixed, cgiEnvpLen])
    fun field member => fits field (by simp [envpFieldsOf, member])
  obtain ⟨two, ranTwo, filledTwo⟩ := filledOne.fields (envpUri request.httpUri)
    (by rw [slots]; simp [envpFixed, envpUri, cgiEnvpLen])
    fun field member => fits field (by simp [envpFieldsOf, member])
  obtain ⟨three, ranThree, filledThree⟩ := filledTwo.fields (envpFromHeaders request)
    (by rw [slots]; simp [envpFixed, envpUri, envpFromHeaders, envpHeaders, cgiEnvpLen])
    fun field member => fits field (by simp [envpFieldsOf, member])
  obtain ⟨four, ranFour, filledFour⟩ := filledThree.fields (envpAddress hap)
    (by rw [slots]; simp [envpFixed, envpUri, envpFromHeaders, envpHeaders, envpAddress,
      cgiEnvpLen])
    fun field member => fits field (by simp [envpFieldsOf, member])
  have all : [] ++ (envpFixed request).map envpEntry ++ (envpUri request.httpUri).map envpEntry ++
      (envpFromHeaders request).map envpEntry ++ (envpAddress hap).map envpEntry =
      (envpFieldsOf request hap).map envpEntry := by
    simp [envpFieldsOf]
  rw [all] at ranFour filledFour
  have count : ((envpFieldsOf request hap).map envpEntry).length = 21 := by
    simp [envpFieldsOf, envpFixed, envpUri, envpFromHeaders, envpHeaders, envpAddress]
  have last := filledFour.set (by rw [count, slots]; decide) four.strings none
  rw [List.length_nil] at ranOne
  rw [buildEnvp, ranOne, ok_bind]
  dsimp only
  rw [setEnvpUriFields_eq _ _ _ path query, ranTwo, ok_bind]
  dsimp only
  rw [ranThree, ok_bind]
  dsimp only
  rw [ranFour, ok_bind]
  apply last.trans
  have rest : before.envp.drop 22 = [] := List.drop_eq_nil_of_le (Nat.le_of_eq slots)
  rw [filledFour.strings, count, rest]

private theorem mapM_ok {α β : Type} {next : α → Except Fault β} {value : α → β} {list : List α}
    (each : ∀ a ∈ list, next a = .ok (value a)) : list.mapM next = .ok (list.map value) := by
  induction list with
  | nil => rfl
  | cons a list ih =>
      rw [List.mapM_cons, each a List.mem_cons_self, ok_bind,
        ih fun b member => each b (List.mem_cons_of_mem _ member)]
      rfl

theorem mapM_member {α β : Type} {next : α → Except Fault β} {list : List α} {out : List β}
    (ran : list.mapM next = .ok out) : ∀ a ∈ list, ∃ b, next a = .ok b := by
  induction list generalizing out with
  | nil => exact nofun
  | cons a list ih =>
      rw [List.mapM_cons] at ran
      obtain ⟨b, first, later⟩ := bind_ok.mp ran
      obtain ⟨rest, ranRest, _⟩ := bind_ok.mp later
      intro other member
      rcases List.mem_cons.mp member with rfl | inRest
      · exact ⟨b, first⟩
      · exact ih ranRest other inRest

private theorem envpUriFields_fits {uri : Bytes} (path : (pathInfoOf uri).length < 512)
    (query : (queryOf uri).length < 512) (fits : ∀ field ∈ envpUri uri, EnvpFits field) :
    envpUriFields uri = .ok ((envpUri uri).map envpEntry) := by
  have wroteQuery := setEnvpFieldByStr_fits (fits (_, _) List.mem_cons_self)
  have wrotePath := setEnvpFieldByStr_fits
    (fits (_, _) (List.mem_cons_of_mem _ List.mem_cons_self))
  rw [envpUriFields, envpUri]
  rcases uri_cases uri with ⟨found, rest, front⟩ | ⟨missing, nothing, all⟩
  · rw [if_pos found]
    simp only [rest, front]
    rw [strcpy_fits _ _ _ query, ok_bind, wroteQuery, ok_bind, strcpy_fits _ _ _ path, ok_bind,
      wrotePath]
    rfl
  · rw [nothing] at wroteQuery
    rw [if_neg missing, nothing, all, wroteQuery, ok_bind, strcpy_fits _ _ _ path, ok_bind,
      wrotePath]
    rfl

theorem envpUriFields_room {uri : Bytes} {texts : List Bytes}
    (made : envpUriFields uri = .ok texts) :
    (pathInfoOf uri).length < 512 ∧ (queryOf uri).length < 512 := by
  rw [envpUriFields] at made
  rcases uri_cases uri with ⟨found, rest, front⟩ | ⟨missing, nothing, all⟩
  · rw [if_pos found] at made
    simp only [rest, front] at made
    obtain ⟨_, query, made⟩ := bind_ok.mp made
    obtain ⟨_, _, made⟩ := bind_ok.mp made
    obtain ⟨_, path, _⟩ := bind_ok.mp made
    exact ⟨(strcpy_ok.mp path).1, (strcpy_ok.mp query).1⟩
  · rw [if_neg missing, all] at made
    obtain ⟨_, _, made⟩ := bind_ok.mp made
    obtain ⟨_, path, _⟩ := bind_ok.mp made
    rw [nothing]
    exact ⟨(strcpy_ok.mp path).1, by decide⟩

theorem buildCgiParam_fields (cgiScripts : Bytes) (request : Request) (hap : Address)
    (path : (pathInfoOf request.httpUri).length < 512)
    (query : (queryOf request.httpUri).length < 512)
    (fits : ∀ field ∈ envpFieldsOf request hap, EnvpFits field) :
    buildCgiParam cgiScripts request hap = .ok {
      filename := cgiScripts
      args := [cgiScripts]
      envp := (envpFieldsOf request hap).map envpEntry } := by
  have fixed : (envpFixed request).mapM (fun (name, value) => setEnvpFieldByStr name value) =
      .ok ((envpFixed request).map envpEntry) :=
    mapM_ok fun field member =>
      setEnvpFieldByStr_fits (fits field (by simp [envpFieldsOf, member]))
  have uri := envpUriFields_fits path query
    fun field member => fits field (by simp [envpFieldsOf, member])
  have headers : envpHeaders.mapM (fun (header, name) =>
      setEnvpFieldWithHeader request header name) =
      .ok (envpHeaders.map fun pair => envpEntry (pair.2, getHeaderValue request pair.1)) := by
    refine mapM_ok fun pair member => setEnvpFieldByStr_fits (fits _ ?_)
    simp only [envpFieldsOf, envpFromHeaders, List.mem_append, List.mem_map]
    exact .inl (.inr ⟨pair, member, rfl⟩)
  have remote := setEnvpFieldByStr_fits (fits (str "REMOTE_ADDR", hap.host)
    (by simp [envpFieldsOf, envpAddress]))
  have port := setEnvpFieldByStr_fits (fits (str "SERVER_PORT", str (toString hap.port))
    (by simp [envpFieldsOf, envpAddress]))
  have fixedToo := fixed
  rw [envpFixed] at fixedToo
  rw [buildCgiParam, fixedToo, ok_bind, uri, ok_bind, headers, ok_bind, remote, ok_bind, port,
    ok_bind]
  simp [envpFieldsOf, envpFromHeaders, envpAddress, envpFixed, Function.comp_def]

theorem freeEnvpLoop_frees (front : List (Option Bytes)) (texts : List Bytes)
    (rest : List (Option Nat)) :
    freeEnvpLoop ((List.range' front.length texts.length).map some ++ none :: rest)
      (front ++ texts.map some) = .ok (front ++ List.replicate texts.length none) := by
  induction texts generalizing front with
  | nil => simp [freeEnvpLoop]
  | cons text texts ih =>
      have more := ih (front ++ [none])
      rw [List.length_append, List.length_singleton, List.append_assoc, List.append_assoc,
        List.singleton_append, List.singleton_append] at more
      rw [List.length_cons, List.range'_succ, List.map_cons, List.cons_append, freeEnvpLoop,
        List.map_cons, List.replicate_succ]
      have live : (front ++ some text :: texts.map some)[front.length]? = some (some text) := by
        simp
      have freed : (front ++ some text :: texts.map some).set front.length none =
          front ++ none :: texts.map some := by
        simp
      simp only [live, freed]
      exact more

def splitEntry (text : Bytes) : Bytes × Bytes :=
  (text.takeWhile (· ≠ 0x3d), (text.dropWhile (· ≠ 0x3d)).tail)

def envpValue (strings : List Bytes) (name : Bytes) : Option Bytes :=
  (strings.map splitEntry).lookup name

def firstHeader (request : Request) (name : Bytes) : Bytes :=
  ((request.headers.filter fun h => h.headerName = name).map (·.headerValue)).headD []

/-- The environment of a request: every variable once, the URI in two parts that make it up
again, and the headers. -/
structure Environment (request : Request) (hap : Address) (strings : List Bytes) : Prop where
  count : strings.length = 21
  distinct : (strings.map fun text => (splitEntry text).1).Nodup
  fields : strings.map splitEntry = envpFieldsOf request hap
  uri : ∃ pathInfo queryString, envpValue strings (str "PATH_INFO") = some pathInfo ∧
    envpValue strings (str "QUERY_STRING") = some queryString ∧ 0x3f ∉ pathInfo ∧
    (0x3f ∈ request.httpUri → str "/cgi" ++ pathInfo ++ str "?" ++ queryString = request.httpUri) ∧
    (0x3f ∉ request.httpUri → str "/cgi" ++ pathInfo = request.httpUri ∧ queryString = [])
  headers : ∀ pair ∈ envpHeaders, envpValue strings pair.2 = some (firstHeader request pair.1)

theorem splitEntry_entry (name value : Bytes) (plain : 0x3d ∉ name) :
    splitEntry (envpEntry (name, value)) = (name, value) := by
  have all : ∀ c ∈ name, decide (c ≠ 0x3d) = true := fun c member =>
    decide_eq_true fun same => plain (same ▸ member)
  have whole : envpEntry (name, value) = name ++ 0x3d :: value := by
    rw [envpEntry, List.append_assoc]
    rfl
  have front : (name ++ 0x3d :: value).takeWhile (· ≠ 0x3d) = name := by
    rw [List.takeWhile_append_of_pos all, List.takeWhile_cons_of_neg (by simp), List.append_nil]
  have back : (name ++ 0x3d :: value).dropWhile (· ≠ 0x3d) = 0x3d :: value := by
    rw [List.dropWhile_append_of_pos all, List.dropWhile_cons_of_neg (by simp)]
  rw [splitEntry, whole, front, back, List.tail_cons]

theorem getHeaderValue_first (request : Request) (name : Bytes) :
    getHeaderValue request name = firstHeader request name := by
  rw [getHeaderValue, firstHeader, List.headD_eq_head?_getD, List.head?_map, List.head?_filter]
  cases request.headers.find? fun h => h.headerName = name <;> rfl

private theorem envpFieldsOf_names (request : Request) (hap : Address) :
    (envpFieldsOf request hap).map Prod.fst = [str "GATEWAY_INTERFACE", str "SERVER_SOFTWARE",
      str "SERVER_PROTOCOL", str "REQUEST_METHOD", str "REQUEST_URI", str "SCRIPT_NAME",
      str "QUERY_STRING", str "PATH_INFO", str "CONTENT_LENGTH", str "CONTENT_TYPE",
      str "HTTP_ACCEPT", str "HTTP_REFERER", str "HTTP_ACCEPT_ENCODING",
      str "HTTP_ACCEPT_LANGUAGE", str "HTTP_ACCEPT_CHARSET", str "HTTP_COOKIE",
      str "HTTP_USER_AGENT", str "HTTP_HOST", str "HTTP_CONNECTION", str "REMOTE_ADDR",
      str "SERVER_PORT"] := rfl

private theorem lookup_member {list : List (Bytes × Bytes)} {name value : Bytes}
    (distinct : (list.map Prod.fst).Nodup) (member : (name, value) ∈ list) :
    list.lookup name = some value := by
  induction list with
  | nil => cases member
  | cons pair list ih =>
      obtain ⟨first, own⟩ := pair
      rw [List.map_cons, List.nodup_cons] at distinct
      rcases List.mem_cons.mp member with same | later
      · cases same
        exact List.lookup_cons_self
      · have other : (name == first) = false := by
          rw [beq_eq_false_iff_ne]
          rintro rfl
          exact distinct.1 (List.mem_map.mpr ⟨_, later, rfl⟩)
        rw [List.lookup_cons, other]
        exact ih distinct.2 later

private theorem uri_parts {uri : Bytes} (cgi : str "/cgi/" <+: uri) :
    0x3f ∉ pathInfoOf uri ∧
      (0x3f ∈ uri → str "/cgi" ++ pathInfoOf uri ++ str "?" ++ queryOf uri = uri) ∧
      (0x3f ∉ uri → str "/cgi" ++ pathInfoOf uri = uri ∧ queryOf uri = []) := by
  have rejoined {text : Bytes} (start : str "/cgi/" <+: text) :
      str "/cgi" ++ text.drop 4 = text := by
    obtain ⟨rest, rfl⟩ := start
    rfl
  rcases split_first uri 0x3f with ⟨none, all, nothing⟩ | ⟨front, back, rfl, before, first, rest⟩
  · rw [pathInfoOf, queryOf, all, nothing]
    exact ⟨fun member => none (List.mem_of_mem_drop member), fun some => absurd some none,
      fun _ => ⟨rejoined cgi, rfl⟩⟩
  · have start : str "/cgi/" <+: front := by
      have marked : front ++ [0x3f] <+: front ++ 0x3f :: back := ⟨back, by simp⟩
      rcases List.prefix_or_prefix_of_prefix cgi marked with short | long
      · rcases List.prefix_concat_iff.mp short with same | inside
        · have member : 0x3f ∈ str "/cgi/" := by
            rw [same]
            exact List.mem_append_right _ List.mem_cons_self
          exact absurd member (by decide)
        · exact inside
      · have member : 0x3f ∈ str "/cgi/" :=
          long.subset (List.mem_append_right _ List.mem_cons_self)
        exact absurd member (by decide)
    rw [pathInfoOf, queryOf, first, rest, List.tail_cons, rejoined start]
    refine ⟨fun member => before (List.mem_of_mem_drop member), fun _ => ?_, fun none => ?_⟩
    · rw [List.append_assoc]
      rfl
    · exact absurd (List.mem_append_right _ List.mem_cons_self) none

theorem environment_fields (request : Request) (hap : Address)
    (cgi : str "/cgi/" <+: request.httpUri) :
    Environment request hap ((envpFieldsOf request hap).map envpEntry) := by
  have names := envpFieldsOf_names request hap
  have plain : ∀ name ∈ (envpFieldsOf request hap).map Prod.fst, 0x3d ∉ name := by
    rw [names]
    decide +kernel
  have fields : ((envpFieldsOf request hap).map envpEntry).map splitEntry =
      envpFieldsOf request hap := by
    rw [List.map_map]
    refine (List.map_congr_left fun field member => ?_).trans (List.map_id _)
    exact splitEntry_entry field.1 field.2 (plain _ (List.mem_map_of_mem member))
  have distinct : ((envpFieldsOf request hap).map Prod.fst).Nodup := by
    rw [names]
    decide +kernel
  have read {name value : Bytes} (member : (name, value) ∈ envpFieldsOf request hap) :
      envpValue ((envpFieldsOf request hap).map envpEntry) name = some value := by
    rw [envpValue, fields]
    exact lookup_member distinct member
  obtain ⟨noMark, joined, whole⟩ := uri_parts cgi
  refine ⟨?_, ?_, fields, ⟨_, _, read ?_, read ?_, noMark, joined, whole⟩, ?_⟩
  · have count := congrArg List.length names
    rw [List.length_map] at count ⊢
    exact count
  · have firsts := congrArg (List.map Prod.fst) fields
    rw [List.map_map] at firsts
    change (((envpFieldsOf request hap).map envpEntry).map (Prod.fst ∘ splitEntry)).Nodup
    rw [firsts]
    exact distinct
  · simp [envpFieldsOf, envpUri]
  · simp [envpFieldsOf, envpUri]
  · intro pair member
    rw [← getHeaderValue_first]
    apply read
    simp only [envpFieldsOf, envpFromHeaders, List.mem_append, List.mem_map]
    exact .inl (.inr ⟨pair, member, rfl⟩)

/-- `build_CGI_param` fills the array to its last slot with the environment of the request, and
`free_CGI_param` frees each string of it once. -/
theorem buildEnvp_faithful (request : Request) (hap : Address) (before : EnvpMemory)
    (slots : before.envp.length = cgiEnvpLen) (cgi : str "/cgi/" <+: request.httpUri)
    (path : (pathInfoOf request.httpUri).length < 512)
    (query : (queryOf request.httpUri).length < 512)
    (fits : ∀ field ∈ envpFieldsOf request hap, EnvpFits field) :
    ∃ strings memory, buildEnvp request hap before = .ok memory ∧
      memory.envp = (List.range' before.strings.length 21).map some ++ [none] ∧
      memory.strings = before.strings ++ strings.map some ∧ Environment request hap strings ∧
      (∀ scripts, buildCgiParam scripts request hap = .ok ⟨scripts, [scripts], strings⟩) ∧
      freeCgiParam memory = .ok (before.strings ++ List.replicate 21 none) := by
  have environment := environment_fields request hap cgi
  refine ⟨_, _, buildEnvp_fills request hap before slots path query fits, rfl, rfl, environment,
    fun scripts => buildCgiParam_fields scripts request hap path query fits, ?_⟩
  have walk := freeEnvpLoop_frees before.strings ((envpFieldsOf request hap).map envpEntry) []
  rw [environment.count] at walk
  exact walk

/-- A query with a second question mark, and slots that hold what `malloc` left in them. -/
theorem buildEnvp_faithful_query : ∃ strings memory,
    buildEnvp ⟨str "HTTP/1.1", str "GET", str "/cgi/app?q=1?2", [⟨str "Host", str "a"⟩], 20⟩
        ⟨str "10.0.0.1", 4080⟩ ⟨[], List.replicate 22 (some 7)⟩ = .ok memory ∧
      memory.envp = (List.range' 0 21).map some ++ [none] ∧
      memory.strings = [] ++ strings.map some ∧
      Environment ⟨str "HTTP/1.1", str "GET", str "/cgi/app?q=1?2", [⟨str "Host", str "a"⟩], 20⟩
        ⟨str "10.0.0.1", 4080⟩ strings ∧
      (∀ scripts, buildCgiParam scripts
        ⟨str "HTTP/1.1", str "GET", str "/cgi/app?q=1?2", [⟨str "Host", str "a"⟩], 20⟩
        ⟨str "10.0.0.1", 4080⟩ = .ok ⟨scripts, [scripts], strings⟩) ∧
      freeCgiParam memory = .ok ([] ++ List.replicate 21 none) :=
  buildEnvp_faithful _ _ ⟨[], List.replicate 22 (some 7)⟩ rfl (by decide) (by decide +kernel)
    (by decide +kernel) (by decide +kernel)

end Liso
