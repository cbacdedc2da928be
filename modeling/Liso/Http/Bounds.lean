import Liso.Http.Environment
import Liso.Http.Paths
import Liso.Parser.Capacities

/-! The arrays of http.c that a URI and the headers of a request are copied into. A record of
`parse` has up to 4095 bytes in each field, and no copy asks how many there are. -/

namespace Liso

def bareGet (uri : Bytes) (uriNonempty : uri ≠ []) (uriText : ∀ c ∈ uri, isText c) :
    RequestText :=
  { getText with uri, headers := [], uriNonempty, uriText }

def getOf (uri : Bytes) : Request := ⟨str "HTTP/1.1", str "GET", uri, [], headerNum⟩

theorem getOf_parsed {uri : Bytes} (nonempty : uri ≠ []) (text : ∀ c ∈ uri, isText c)
    (short : uri.length < 4096) : ∃ buffer, parse buffer = .ok (some (getOf uri)) := by
  have fits : (bareGet uri nonempty text).Fits :=
    ⟨show (str "GET").length < 50 by decide, short, show (str "HTTP/1.1").length < 50 by decide,
      nofun⟩
  have size : (bareGet uri nonempty text).render.length = uri.length + 17 := by
    have method : (str "GET").length = 3 := rfl
    have version : (str "HTTP/1.1").length = 8 := rfl
    have ended : crlf.length = 2 := rfl
    simp only [RequestText.render, RequestText.requestLine, bareGet, getText,
      List.length_append, List.length_singleton, List.flatMap_nil, List.length_nil, method,
      version, ended]
    omega
  exact ⟨_, parse_text (bareGet uri nonempty text) [] fits (by omega)⟩

def longUri (n : Nat) : Bytes := 0x2f :: List.replicate n 0x61

theorem longUri_length (n : Nat) : (longUri n).length = n + 1 := by
  rw [longUri, List.length_cons, List.length_replicate]

theorem longUri_chars (n : Nat) : ∀ c ∈ longUri n, c = 0x2f ∨ c = 0x61 := by
  intro c member
  rcases List.mem_cons.mp member with slash | letter
  · exact .inl slash
  · exact .inr (List.eq_of_mem_replicate letter)

theorem longUri_text (n : Nat) : ∀ c ∈ longUri n, isText c := by
  intro c member
  rcases longUri_chars n c member with rfl | rfl
  · decide +kernel
  · decide +kernel

/-- The URI after the second cut of `remove_redundancy_from_uri`. -/
def withoutSlash (rest : Bytes) : Bytes :=
  if rest.getLast? = some 0x2f then rest.dropLast else rest

def pathLength (wwwDir rest : Bytes) : Nat :=
  (if rest.head? = some 0x2f ∧ rest ≠ [0x2f] then wwwDir.length - 1 else wwwDir.length) +
    (if rest.getLast? = some 0x2f then rest.length - 1 else rest.length) +
    (if [0x2f, 0x2f] <:+ rest ∨ rest = [0x2f] ∧ wwwDir.getLast? = some 0x2f then 10 else 0)

/-- Every index is one of its string, and the path and its NUL fit `fullpath`. -/
def PathWithin (wwwDir : Bytes) (request : Request) : Prop :=
  ∃ path changed, makeFullPath wwwDir request = .ok (path, changed) ∧ path.length < 4096

section Path

variable {wwwDir rest : Bytes}

private theorem withoutSlash_nil (nonempty : rest ≠ []) :
    withoutSlash rest = [] ↔ rest = [0x2f] := by
  rw [withoutSlash]
  split
  · next slash =>
      obtain ⟨front, rfl⟩ := List.getLast?_eq_some_iff.mp slash
      simp
  · next other =>
      constructor
      · intro none
        exact absurd none nonempty
      · intro same
        rw [same] at other
        exact absurd rfl other

private theorem withoutSlash_head :
    (withoutSlash rest).head? = some 0x2f ↔ rest.head? = some 0x2f ∧ rest ≠ [0x2f] := by
  rw [withoutSlash]
  split
  · next slash =>
      obtain ⟨front, rfl⟩ := List.getLast?_eq_some_iff.mp slash
      rw [List.dropLast_concat]
      cases front with
      | nil => simp
      | cons c front => simp
  · next other =>
      constructor
      · intro head
        refine ⟨head, fun same => ?_⟩
        rw [same] at other
        exact absurd rfl other
      · exact And.left

private theorem withoutSlash_length : (withoutSlash rest).length =
    if rest.getLast? = some 0x2f then rest.length - 1 else rest.length := by
  rw [withoutSlash]
  split
  · exact List.length_dropLast
  · rfl

private theorem withoutSlash_last :
    (withoutSlash rest).getLast? = some 0x2f ↔ [0x2f, 0x2f] <:+ rest := by
  rw [withoutSlash]
  constructor
  · intro last
    split at last
    · next slash =>
        obtain ⟨front, rfl⟩ := List.getLast?_eq_some_iff.mp slash
        rw [List.dropLast_concat] at last
        obtain ⟨before, rfl⟩ := List.getLast?_eq_some_iff.mp last
        exact ⟨before, by simp⟩
    · next other => exact absurd last other
  · intro twice
    obtain ⟨before, rfl⟩ := twice
    have slash : (before ++ [0x2f, 0x2f]).getLast? = some 0x2f := by simp
    rw [if_pos slash, List.dropLast_append_of_ne_nil (List.cons_ne_nil _ _)]
    simp

private theorem plainPath_length : (plainPath wwwDir (withoutSlash rest)).length =
    (if rest.head? = some 0x2f ∧ rest ≠ [0x2f] then wwwDir.length - 1 else wwwDir.length) +
      (if rest.getLast? = some 0x2f then rest.length - 1 else rest.length) := by
  rw [plainPath, List.length_append, withoutSlash_length]
  simp only [withoutSlash_head]
  split
  · rw [List.length_dropLast]
  · rfl

private theorem plainPath_last (nonempty : rest ≠ []) :
    (plainPath wwwDir (withoutSlash rest)).getLast? = some 0x2f ↔
      [0x2f, 0x2f] <:+ rest ∨ rest = [0x2f] ∧ wwwDir.getLast? = some 0x2f := by
  by_cases lone : rest = [0x2f]
  · subst lone
    have long : ¬ [(0x2f : UInt8), 0x2f] <:+ [0x2f] := by decide
    have empty : withoutSlash [0x2f] = [] := rfl
    rw [empty, plainPath]
    simp [long]
  · have left := mt (withoutSlash_nil nonempty).mp lone
    rw [plainPath, List.getLast?_append_of_ne_nil _ left, withoutSlash_last]
    simp [lone]

theorem pathOf_length (nonempty : rest ≠ []) :
    (pathOf wwwDir (withoutSlash rest)).length = pathLength wwwDir rest := by
  rw [pathOf, pathLength, ← plainPath_length]
  simp only [plainPath_last nonempty]
  split
  · rw [List.length_append]
    rfl
  · rfl

private theorem lastCharacters_iff (nonempty : rest ≠ []) :
    ((withoutSlash rest).head? = some 0x2f → wwwDir ≠ []) ∧
        plainPath wwwDir (withoutSlash rest) ≠ [] ↔
      wwwDir ≠ [] ∨ rest.head? ≠ some 0x2f := by
  constructor
  · intro both
    obtain ⟨dir, joined⟩ := both
    by_contra neither
    rw [not_or, not_not, not_not] at neither
    obtain ⟨rfl, slash⟩ := neither
    by_cases lone : rest = [0x2f]
    · subst lone
      exact joined rfl
    · exact dir (withoutSlash_head.mpr ⟨slash, lone⟩) rfl
  · intro either
    constructor
    · intro slash
      exact either.resolve_right (not_not.mpr (withoutSlash_head.mp slash).1)
    · intro none
      obtain ⟨front, left⟩ := List.append_eq_nil_iff.mp none
      cases (withoutSlash_nil nonempty).mp left
      rw [left, if_neg (by simp)] at front
      rcases either with dir | other
      · exact dir front
      · exact other rfl

private theorem wwwDir_fits (nonempty : rest ≠ [])
    (fits : (pathOf wwwDir (withoutSlash rest)).length < 4096) : wwwDir.length < 4096 := by
  have plain : (plainPath wwwDir (withoutSlash rest)).length ≤
      (pathOf wwwDir (withoutSlash rest)).length := by
    rw [pathOf]
    split
    · rw [List.length_append]
      exact Nat.le_add_right _ _
    · exact Nat.le_refl _
  rw [plainPath_length, ← withoutSlash_length] at plain
  by_cases slash : rest.head? = some 0x2f ∧ rest ≠ [0x2f]
  · have left := List.length_pos_iff.mpr (mt (withoutSlash_nil nonempty).mp slash.2)
    rw [if_pos slash] at plain
    omega
  · rw [if_neg slash] at plain
    omega

theorem pathWithin_room (wwwDir : Bytes) (request : Request) :
    PathWithin wwwDir request ↔ withoutScheme request.httpUri ≠ [] ∧
      (wwwDir ≠ [] ∨ (withoutScheme request.httpUri).head? ≠ some 0x2f) ∧
      pathLength wwwDir (withoutScheme request.httpUri) < 4096 := by
  have cleaned := removeRedundancyFromUri_eq request.httpUri
  rw [← withoutSlash] at cleaned
  by_cases empty : withoutScheme request.httpUri = []
  · rw [if_pos empty] at cleaned
    constructor
    · intro within
      obtain ⟨path, changed, made, -⟩ := within
      obtain ⟨uri, removed, -⟩ := makeFullPath_ok.mp made
      rw [cleaned] at removed
      cases removed
    · intro holds
      exact absurd empty holds.1
  · rw [if_neg empty] at cleaned
    rw [← pathOf_length empty]
    constructor
    · intro within
      obtain ⟨path, changed, made, fits⟩ := within
      obtain ⟨uri, removed, -, rfl, dir, joined, -⟩ := makeFullPath_ok.mp made
      rw [cleaned] at removed
      cases removed
      exact ⟨empty, (lastCharacters_iff empty).mp ⟨dir, joined⟩, fits⟩
    · intro holds
      obtain ⟨-, either, fits⟩ := holds
      obtain ⟨dir, joined⟩ := (lastCharacters_iff empty).mpr either
      exact ⟨_, _, makeFullPath_ok.mpr
        ⟨_, cleaned, rfl, rfl, dir, joined, wwwDir_fits empty fits, fits⟩, fits⟩

end Path

private theorem withoutScheme_nil (uri : Bytes) (nonempty : uri ≠ []) :
    withoutScheme uri = [] ↔ uri = str "http://" := by
  rw [withoutScheme]
  split
  · next scheme =>
      obtain ⟨rest, rfl⟩ := List.isPrefixOf_iff_prefix.mp scheme
      have cut : (str "http://" ++ rest).drop 7 = rest := rfl
      rw [cut]
      exact (List.append_right_eq_self).symm
  · next other =>
      constructor
      · intro none
        exact absurd none nonempty
      · intro same
        rw [same] at other
        exact absurd rfl other

/-- The path of a request that `parse` returns stays in bounds exactly when its URI is not the
scheme alone, WWW_DIR has a character to lose, and there is room for all that is joined. -/
theorem pathWithin_iff {buffer : Bytes} {request : Request}
    (parsed : parse buffer = .ok (some request)) (wwwDir : Bytes) :
    PathWithin wwwDir request ↔ request.httpUri ≠ str "http://" ∧
      (wwwDir ≠ [] ∨ (withoutScheme request.httpUri).head? ≠ some 0x2f) ∧
      pathLength wwwDir (withoutScheme request.httpUri) < 4096 := by
  rw [pathWithin_room, Ne, withoutScheme_nil _ (parse_uri parsed)]

theorem pathWithin_iff_page : PathWithin (str "www/") (getOf (str "/a.html")) :=
  (pathWithin_iff (show parse (str "GET /a.html HTTP/1.1\r\n\r\n") =
    .ok (some (getOf (str "/a.html"))) by decide +kernel) (str "www/")).mpr
      ⟨by decide, .inl (by decide), by decide⟩

/-- The scheme alone, and a URI that is too long behind WWW_DIR. -/
theorem not_pathWithin :
    (parse (str "GET http:// HTTP/1.1\r\n\r\n") = .ok (some (getOf (str "http://"))) ∧
      ¬ PathWithin (str "www/") (getOf (str "http://"))) ∧
    (∃ buffer, parse buffer = .ok (some (getOf (longUri 4094)))) ∧
      ¬ PathWithin (str "www/") (getOf (longUri 4094)) := by
  refine ⟨⟨by decide +kernel, ?_⟩, ?_, ?_⟩
  · intro within
    exact ((pathWithin_room _ _).mp within).1 rfl
  · exact getOf_parsed (List.cons_ne_nil _ _) (longUri_text 4094)
      (by rw [longUri_length]; omega)
  · intro within
    have room := ((pathWithin_room _ _).mp within).2.2
    have plain : withoutScheme (longUri 4094) = longUri 4094 := rfl
    have dir : (str "www/").length = 4 := rfl
    rw [getOf, plain, pathLength, longUri_length, dir] at room
    split at room <;> split at room <;> omega

/-- What a caller passes for a client: `inet_ntop` writes an address into INET6_ADDRSTRLEN
bytes, and `sin_port` has 16 bits. -/
structure Address.OfPeer (hap : Address) : Prop where
  host : hap.host.length < 46
  port : hap.port < 65536

/-- Every copy of `build_CGI_param` fits: the parts of the URI, the 21 strings and the port. -/
structure CgiWithin (cgiScripts : Bytes) (request : Request) (hap : Address) : Prop where
  copies : ∃ param, buildCgiParam cgiScripts request hap = .ok param
  portStr : (str (toString hap.port)).length < 8

structure CgiRoom (request : Request) : Prop where
  uri : request.httpUri.length < 1012
  path : (pathInfoOf request.httpUri).length < 512
  query : (queryOf request.httpUri).length < 512
  headers : ∀ pair ∈ envpHeaders, pair.2.length + (firstHeader request pair.1).length < 1023

section Environment

variable {cgiScripts : Bytes} {request : Request} {hap : Address} {param : CgiParam}

theorem envpFits_iff (name value : Bytes) :
    EnvpFits (name, value) ↔ name.length + value.length < 1023 := by
  have mark : (str "=").length = 1 := rfl
  rw [EnvpFits, envpEntry, List.length_append, List.length_append, mark]
  dsimp only
  omega

private theorem setEnvpFieldByStr_room {name value text : Bytes}
    (made : setEnvpFieldByStr name value = .ok text) : name.length + value.length < 1023 :=
  (envpFits_iff name value).mp (strcpy_ok.mp made).1

theorem CgiRoom.of_param (made : buildCgiParam cgiScripts request hap = .ok param) :
    CgiRoom request := by
  obtain ⟨fixed, fixedMade, made⟩ := bind_ok.mp made
  obtain ⟨uriFields, uriMade, made⟩ := bind_ok.mp made
  obtain ⟨headers, headersMade, made⟩ := bind_ok.mp made
  obtain ⟨path, query⟩ := envpUriFields_room uriMade
  refine ⟨?_, path, query, ?_⟩
  · obtain ⟨_, entry⟩ := mapM_member fixedMade (str "REQUEST_URI", request.httpUri) (by simp)
    have room := setEnvpFieldByStr_room entry
    have name : (str "REQUEST_URI").length = 11 := rfl
    omega
  · intro pair member
    obtain ⟨_, entry⟩ := mapM_member headersMade pair member
    rw [← getHeaderValue_first]
    exact setEnvpFieldByStr_room entry

theorem Address.OfPeer.portStr (address : hap.OfPeer) : (str (toString hap.port)).length < 8 := by
  have digits : (toString hap.port).length ≤ 5 :=
    (Nat.length_repr_le_iff (by decide)).mpr (Nat.lt_trans address.port (by decide))
  rw [str, List.length_map, String.length_toList]
  omega

theorem CgiRoom.fits (room : CgiRoom request) (method : request.httpMethod.length < 50)
    (address : hap.OfPeer) : ∀ field ∈ envpFieldsOf request hap, EnvpFits field := by
  have fixed : ∀ field ∈ envpFixed request, EnvpFits field := by
    have uri := room.uri
    have methodName : (str "REQUEST_METHOD").length = 14 := rfl
    have uriName : (str "REQUEST_URI").length = 11 := rfl
    simp only [envpFixed, List.forall_mem_cons, envpFits_iff]
    exact ⟨by decide, by decide, by decide, by omega, by omega, by decide, List.forall_mem_nil _⟩
  have parts : ∀ field ∈ envpUri request.httpUri, EnvpFits field := by
    have path := room.path
    have query := room.query
    have pathName : (str "PATH_INFO").length = 9 := rfl
    have queryName : (str "QUERY_STRING").length = 12 := rfl
    simp only [envpUri, List.forall_mem_cons, envpFits_iff]
    exact ⟨by omega, by omega, List.forall_mem_nil _⟩
  have headers : ∀ field ∈ envpFromHeaders request, EnvpFits field := by
    intro field member
    obtain ⟨pair, listed, rfl⟩ := List.mem_map.mp member
    rw [envpFits_iff, getHeaderValue_first]
    exact room.headers pair listed
  have client : ∀ field ∈ envpAddress hap, EnvpFits field := by
    have host := address.host
    have port := address.portStr
    have hostName : (str "REMOTE_ADDR").length = 11 := rfl
    have portName : (str "SERVER_PORT").length = 11 := rfl
    simp only [envpAddress, List.forall_mem_cons, envpFits_iff]
    exact ⟨by omega, by omega, List.forall_mem_nil _⟩
  intro field member
  simp only [envpFieldsOf, List.mem_append] at member
  rcases member with ((member | member) | member) | member
  · exact fixed field member
  · exact parts field member
  · exact headers field member
  · exact client field member

end Environment

/-- The copies of `build_CGI_param` stay within their buffers exactly when the URI, its two parts
and the headers that are handed on are short enough. -/
theorem cgiWithin_iff {buffer : Bytes} {request : Request}
    (parsed : parse buffer = .ok (some request)) {hap : Address} (address : hap.OfPeer)
    (cgiScripts : Bytes) : CgiWithin cgiScripts request hap ↔ CgiRoom request := by
  constructor
  · intro within
    obtain ⟨param, made⟩ := within.copies
    exact .of_param made
  · intro room
    exact ⟨⟨_, buildCgiParam_fields cgiScripts request hap room.path room.query
      (room.fits (parse_fits parsed).method address)⟩, address.portStr⟩

private theorem sampleAddress : Address.OfPeer ⟨str "10.0.0.1", 4080⟩ := ⟨by decide, by decide⟩

theorem cgiWithin_iff_query : CgiWithin [] (getOf (str "/cgi/a?q=1")) ⟨str "10.0.0.1", 4080⟩ :=
  (cgiWithin_iff (show parse (str "GET /cgi/a?q=1 HTTP/1.1\r\n\r\n") =
    .ok (some (getOf (str "/cgi/a?q=1"))) by decide +kernel) sampleAddress []).mpr
      ⟨by decide, by decide, by decide, by decide +kernel⟩

private theorem longUri_path (n : Nat) : pathInfoOf (str "/cgi" ++ longUri n) = longUri n := by
  have letters : ∀ c ∈ longUri n, decide (c ≠ 0x3f) = true := by
    intro c member
    rcases longUri_chars n c member with rfl | rfl
    · decide
    · decide
  have noMark : ∀ c ∈ str "/cgi" ++ longUri n, decide (c ≠ 0x3f) = true :=
    List.forall_mem_append.mpr ⟨by decide +kernel, letters⟩
  rw [pathInfoOf, List.takeWhile_eq_self_iff.mpr noMark]
  rfl

/-- A URI whose path has 512 bytes after `/cgi`. -/
theorem not_cgiWithin :
    (∃ buffer, parse buffer = .ok (some (getOf (str "/cgi" ++ longUri 511)))) ∧
      str "/cgi/" <+: str "/cgi" ++ longUri 511 ∧
      ¬ CgiWithin [] (getOf (str "/cgi" ++ longUri 511)) ⟨str "10.0.0.1", 4080⟩ := by
  refine ⟨?_, ⟨List.replicate 511 0x61, rfl⟩, ?_⟩
  · refine getOf_parsed (List.append_ne_nil_of_right_ne_nil _ (List.cons_ne_nil _ _)) ?_ ?_
    · exact List.forall_mem_append.mpr ⟨by decide +kernel, longUri_text 511⟩
    · rw [List.length_append, longUri_length]
      decide
  · intro within
    obtain ⟨param, made⟩ := within.copies
    have room := (CgiRoom.of_param made).path
    rw [getOf, longUri_path, longUri_length] at room
    omega

end Liso
