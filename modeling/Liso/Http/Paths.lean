import Liso.Http.Static

/-! From WWW_DIR and the URI to a path, and from the path found to the file described and
sent. -/

namespace Liso

/-- The path before it is looked at for a directory: a slash in front of the URI takes the
place of the last character of WWW_DIR. -/
def plainPath (wwwDir uri : Bytes) : Bytes :=
  (if uri.head? = some 0x2f then wwwDir.dropLast else wwwDir) ++ uri

def pathOf (wwwDir uri : Bytes) : Bytes :=
  if (plainPath wwwDir uri).getLast? = some 0x2f then plainPath wwwDir uri ++ str "Index.html"
  else plainPath wwwDir uri

theorem requestedPathIsDir_ok {path : Bytes} {isDir : Bool} :
    requestedPathIsDir path = .ok isDir ↔
      path ≠ [] ∧ isDir = decide (path.getLast? = some 0x2f) := by
  rw [requestedPathIsDir]
  cases last : path.getLast? with
  | none => simp [List.getLast?_eq_none_iff.mp last]
  | some c =>
      have some : path ≠ [] := by
        rintro rfl
        cases last
      simp [some, eq_comm]

def withoutScheme (uri : Bytes) : Bytes :=
  if startsWith (str "http://") uri then uri.drop 7 else uri

private theorem lastSlash_removed (uri : Bytes) :
    (match uri.getLast? with
      | none => .error (.bounds .httpUri)
      | some last => return if last = 0x2f then uri.dropLast else uri) =
    (if uri = [] then .error (.bounds .httpUri)
      else .ok (if uri.getLast? = some 0x2f then uri.dropLast else uri) : Except Fault Bytes) := by
  cases last : uri.getLast? with
  | none => rw [if_pos (List.getLast?_eq_none_iff.mp last)]
  | some c =>
      have some : uri ≠ [] := by
        rintro rfl
        cases last
      simp [some]

theorem removeRedundancyFromUri_eq (uri : Bytes) :
    removeRedundancyFromUri uri =
      if withoutScheme uri = [] then .error (.bounds .httpUri)
      else .ok (if (withoutScheme uri).getLast? = some 0x2f then (withoutScheme uri).dropLast
        else withoutScheme uri) := by
  rw [removeRedundancyFromUri, withoutScheme]
  by_cases scheme : startsWith (str "http://") uri = true
  · have long : ¬ (str "http://").length > uri.length := by
      have bound := (List.isPrefixOf_iff_prefix.mp scheme).length_le
      omega
    rw [if_pos scheme, if_pos scheme, chopN, if_neg (by decide), if_neg long, ok_bind]
    exact lastSlash_removed _
  · rw [if_neg scheme, if_neg scheme, ok_bind]
    exact lastSlash_removed _

private theorem joined_ok {request changed : Request} {uri root path : Bytes} :
    (do
      let fullPath ← strcatPath root uri
      let isDir ← requestedPathIsDir fullPath
      let fullPath ← if isDir then strcatPath fullPath (str "Index.html") else .ok fullPath
      return (fullPath, { request with httpUri := uri })) =
        (.ok (path, changed) : Except Fault (Bytes × Request)) ↔
      changed = { request with httpUri := uri } ∧ root ++ uri ≠ [] ∧ path.length < 4096 ∧
        path = if (root ++ uri).getLast? = some 0x2f then root ++ uri ++ str "Index.html"
          else root ++ uri := by
  simp only [strcatPath, bind_ok, strcpy_ok, requestedPathIsDir_ok]
  constructor
  · rintro ⟨_, ⟨fits, rfl⟩, _, ⟨some, rfl⟩, made⟩
    by_cases dir : (root ++ uri).getLast? = Option.some 0x2f
    · rw [if_pos (decide_eq_true dir), bind_ok] at made
      obtain ⟨_, copied, same⟩ := made
      obtain ⟨fits, rfl⟩ := strcpy_ok.mp copied
      cases same
      exact ⟨rfl, some, fits, by rw [if_pos dir]⟩
    · rw [if_neg (by simpa using dir), ok_bind] at made
      cases made
      exact ⟨rfl, some, fits, by rw [if_neg dir]⟩
  · rintro ⟨rfl, some, fits, rfl⟩
    by_cases dir : (root ++ uri).getLast? = Option.some 0x2f
    · rw [if_pos dir] at fits ⊢
      have plain := fits
      rw [List.length_append] at plain
      refine ⟨_, ⟨Nat.lt_of_le_of_lt (Nat.le_add_right _ _) plain, rfl⟩, _, ⟨some, rfl⟩, ?_⟩
      rw [if_pos (decide_eq_true dir), bind_ok]
      exact ⟨_, strcpy_ok.mpr ⟨fits, rfl⟩, rfl⟩
    · rw [if_neg dir] at fits ⊢
      refine ⟨_, ⟨fits, rfl⟩, _, ⟨some, rfl⟩, ?_⟩
      rw [if_neg (by simpa using dir), ok_bind]
      rfl

theorem makeFullPath_ok {wwwDir path : Bytes} {request changed : Request} :
    makeFullPath wwwDir request = .ok (path, changed) ↔
      ∃ uri, removeRedundancyFromUri request.httpUri = .ok uri ∧
        changed = { request with httpUri := uri } ∧ path = pathOf wwwDir uri ∧
        (uri.head? = some 0x2f → wwwDir ≠ []) ∧ plainPath wwwDir uri ≠ [] ∧
        wwwDir.length < 4096 ∧ path.length < 4096 := by
  simp only [makeFullPath, bind_ok, strcpy_ok]
  constructor
  · rintro ⟨_, ⟨dirFits, rfl⟩, uri, cleaned, made⟩
    refine ⟨uri, cleaned, ?_⟩
    by_cases rooted : uri.head? = some 0x2f
    · rw [if_pos rooted] at made
      split at made
      · cases made
      · next nonempty =>
          obtain ⟨rfl, some, fits, same⟩ := joined_ok.mp made
          rw [pathOf, plainPath, if_pos rooted]
          exact ⟨rfl, same, fun _ => nonempty, some, dirFits, fits⟩
    · rw [if_neg rooted] at made
      obtain ⟨rfl, some, fits, same⟩ := joined_ok.mp made
      rw [pathOf, plainPath, if_neg rooted]
      exact ⟨rfl, same, fun slash => absurd slash rooted, some, dirFits, fits⟩
  · rintro ⟨uri, cleaned, rfl, rfl, nonempty, some, dirFits, fits⟩
    refine ⟨_, ⟨dirFits, rfl⟩, uri, cleaned, ?_⟩
    rw [pathOf, plainPath] at fits ⊢
    rw [plainPath] at some
    by_cases rooted : uri.head? = Option.some 0x2f
    · rw [if_pos rooted] at some fits ⊢
      rw [if_pos rooted, if_neg (nonempty rooted)]
      exact joined_ok.mpr ⟨rfl, some, fits, rfl⟩
    · rw [if_neg rooted] at some fits ⊢
      rw [if_neg rooted]
      exact joined_ok.mpr ⟨rfl, some, fits, rfl⟩

/-- The directory and the URI with one slash between them, and the index file of a URI that
names a directory. -/
def joinedPath (wwwDir uri : Bytes) : Bytes :=
  (if wwwDir.getLast? = some 0x2f then wwwDir.dropLast else wwwDir) ++ uri ++
    (if uri.getLast? = some 0x2f then str "Index.html" else [])

def PathJoined (wwwDir : Bytes) (request : Request) : Prop :=
  ∃ changed, makeFullPath wwwDir request = .ok (joinedPath wwwDir request.httpUri, changed)

theorem removeRedundancyFromUri_slash {uri : Bytes} (rooted : uri.head? = some 0x2f) :
    removeRedundancyFromUri uri =
      .ok (if uri.getLast? = some 0x2f then uri.dropLast else uri) := by
  obtain ⟨rest, rfl⟩ : ∃ rest, uri = 0x2f :: rest := by
    cases uri with
    | nil => cases rooted
    | cons c rest =>
        cases rooted
        exact ⟨rest, rfl⟩
  rw [removeRedundancyFromUri_eq, show withoutScheme (0x2f :: rest) = 0x2f :: rest from rfl,
    if_neg (List.cons_ne_nil _ _)]

private theorem removed_slash {uri : Bytes} (dir : uri.getLast? = some 0x2f) :
    uri = uri.dropLast ++ [0x2f] := by
  obtain ⟨front, rfl⟩ := List.getLast?_eq_some_iff.mp dir
  rw [List.dropLast_concat]

private theorem pathJoined_root {wwwDir : Bytes} {request : Request}
    (root : request.httpUri = [0x2f]) : PathJoined wwwDir request ↔
      wwwDir.getLast? = some 0x2f ∧ (joinedPath wwwDir request.httpUri).length < 4096 := by
  have cleaned : removeRedundancyFromUri request.httpUri = .ok [] := by rw [root]; rfl
  have plain : plainPath wwwDir [] = wwwDir := List.append_nil _
  simp only [PathJoined, makeFullPath_ok, cleaned, Except.ok.injEq]
  by_cases ends : wwwDir.getLast? = some 0x2f
  · have joined : joinedPath wwwDir request.httpUri = wwwDir ++ str "Index.html" := by
      rw [joinedPath, if_pos ends, root, ← removed_slash ends]
      rfl
    have same : pathOf wwwDir [] = wwwDir ++ str "Index.html" := by
      rw [pathOf, plain, if_pos ends]
    rw [joined]
    constructor
    · rintro ⟨_, _, rfl, rfl, _, _, _, _, fits⟩
      exact ⟨ends, fits⟩
    · rintro ⟨_, fits⟩
      have dirFits := fits
      rw [List.length_append] at dirFits
      refine ⟨_, [], rfl, rfl, same.symm, nofun, ?_, by omega, fits⟩
      rw [plain]
      rintro rfl
      cases ends
  · refine ⟨?_, fun both => absurd both.1 ends⟩
    rintro ⟨_, _, rfl, rfl, same, _⟩
    rw [pathOf, plain, if_neg ends, joinedPath, if_neg ends, root] at same
    have lengths := congrArg List.length same
    simp at lengths

private theorem pathJoined_dir (wwwDir : Bytes) {request : Request}
    (rooted : request.httpUri.head? = some 0x2f) (other : request.httpUri ≠ [0x2f])
    (dir : request.httpUri.getLast? = some 0x2f) : ¬ PathJoined wwwDir request := by
  rintro ⟨changed, made⟩
  obtain ⟨uri, cleaned, _, same, nonempty, _⟩ := makeFullPath_ok.mp made
  rw [removeRedundancyFromUri_slash rooted, if_pos dir] at cleaned
  cases cleaned
  have short : (pathOf wwwDir request.httpUri.dropLast).length ≤
      wwwDir.length - 1 + (request.httpUri.length - 1) + 10 := by
    have slash : request.httpUri.dropLast.head? = some 0x2f := by
      match whole : request.httpUri with
      | [] => rw [whole] at rooted; cases rooted
      | [c] =>
          rw [whole] at rooted other
          cases rooted
          exact absurd rfl other
      | c :: d :: rest =>
          rw [whole] at rooted
          exact rooted
    have plain : (plainPath wwwDir request.httpUri.dropLast).length =
        wwwDir.length - 1 + (request.httpUri.length - 1) := by
      rw [plainPath, if_pos slash, List.length_append, List.length_dropLast, List.length_dropLast]
    rw [pathOf]
    split
    · rw [List.length_append, plain]
      exact Nat.le_refl _
    · rw [plain]
      exact Nat.le_add_right _ _
  have long : wwwDir.length - 1 + request.httpUri.length + 10 ≤
      (joinedPath wwwDir request.httpUri).length := by
    rw [joinedPath, if_pos dir, List.length_append, List.length_append]
    have index : (str "Index.html").length = 10 := rfl
    split
    · rw [List.length_dropLast]
      omega
    · omega
  have some : request.httpUri.length ≠ 0 := by
    intro none
    rw [List.eq_nil_of_length_eq_zero none] at rooted
    cases rooted
  rw [same] at long
  omega

/-- The path is joined right for a WWW_DIR that ends in a slash and a URI that is one, or does
not end in one, as long as all of it fits. -/
theorem pathJoined_iff (wwwDir : Bytes) (request : Request)
    (rooted : request.httpUri.head? = some 0x2f) :
    PathJoined wwwDir request ↔ wwwDir.getLast? = some 0x2f ∧
      (request.httpUri = [0x2f] ∨ request.httpUri.getLast? ≠ some 0x2f) ∧
      (joinedPath wwwDir request.httpUri).length < 4096 := by
  by_cases root : request.httpUri = [0x2f]
  · rw [pathJoined_root root]
    tauto
  · by_cases dir : request.httpUri.getLast? = some 0x2f
    · have not := pathJoined_dir wwwDir rooted root dir
      tauto
    · have cleaned := removeRedundancyFromUri_slash rooted
      rw [if_neg dir] at cleaned
      have some : request.httpUri ≠ [] := by
        intro none
        rw [none] at rooted
        cases rooted
      have plain : plainPath wwwDir request.httpUri = wwwDir.dropLast ++ request.httpUri := by
        rw [plainPath, if_pos rooted]
      have path : pathOf wwwDir request.httpUri = wwwDir.dropLast ++ request.httpUri := by
        rw [pathOf, plain, List.getLast?_append_of_ne_nil _ some, if_neg dir]
      have joined : joinedPath wwwDir request.httpUri =
          (if wwwDir.getLast? = Option.some 0x2f then wwwDir.dropLast else wwwDir) ++
            request.httpUri := by
        rw [joinedPath, if_neg dir, List.append_nil]
      simp only [PathJoined, makeFullPath_ok, cleaned, Except.ok.injEq]
      constructor
      · rintro ⟨_, _, rfl, rfl, same, nonempty, _, _, fits⟩
        refine ⟨?_, .inr dir, fits⟩
        by_contra noSlash
        rw [joined, if_neg noSlash, path] at same
        have lengths := congrArg List.length (List.append_cancel_right same)
        have positive := List.length_pos_iff.mpr (nonempty rooted)
        rw [List.length_dropLast] at lengths
        omega
      · rintro ⟨ends, _, fits⟩
        rw [joined, if_pos ends, List.length_append, List.length_dropLast] at fits
        have positive := List.length_pos_iff.mpr some
        refine ⟨_, _, rfl, rfl, ?_, ?_, ?_, ?_, ?_⟩
        · rw [joined, if_pos ends, path]
        · rintro _ rfl
          cases ends
        · rw [plain]
          exact fun none => some (List.append_eq_nil_iff.mp none).2
        · omega
        · rw [joined, if_pos ends, List.length_append, List.length_dropLast]
          exact fits

private theorem PathJoined.path {wwwDir : Bytes} {request : Request}
    (joined : PathJoined wwwDir request) :
    (makeFullPath wwwDir request).map Prod.fst = .ok (joinedPath wwwDir request.httpUri) := by
  obtain ⟨changed, made⟩ := joined
  rw [made]
  rfl

/-- A WWW_DIR without trailing slash, and a sub-directory. -/
theorem pathJoined_no_slash :
    ¬ PathJoined (str "www") ⟨[], str "GET", str "/a.html", [], 0⟩ ∧
      ¬ PathJoined (str "www/") ⟨[], str "GET", str "/images/", [], 0⟩ :=
  ⟨fun joined => absurd joined.path (by decide), fun joined => absurd joined.path (by decide)⟩

theorem pathJoined_page : PathJoined (str "www/") ⟨[], str "GET", str "/a.html", [], 0⟩ :=
  (pathJoined_iff _ _ (by decide)).mpr ⟨by decide, .inr (by decide), by decide⟩

def sentFile (next : HttpTask) (changed : Request) : Option File →
    Int × HttpTask × Request × List Event
  | none => (internalServerErrorNum, next, changed, [])
  | some file =>
      (okNum, { next with fp := .live { file with req := next.requests } }, changed,
        [.opened file.fd])

/-- In every file system that has the path: it is the one described and opened. -/
def SendsFound (cfg : Config) (task : HttpTask) (request changed : Request) (lastReq : Bool)
    (path : Bytes) : Prop :=
  ∀ (os : Os) (facts : Described), os.access path = true → describe os path = .ok facts →
    ∃ next, Written task (getHead os facts path lastReq) next ∧
      generateGetHeader cfg os task request lastReq =
        .ok (sentFile next changed (os.fopen path))

def lonePath (path : Bytes) : Os where
  access other := other = path
  stat other := if other = path then some ⟨0, some ⟨[], by decide, nofun⟩⟩ else none
  currTime := ⟨[], by decide, nofun⟩
  fopen other := if other = path then some ⟨0, [], false, 0⟩ else none
  stdinPipe := none
  stdoutPipe := none
  fork := false
  execve := none

theorem toLower_eq_iff (c : UInt8) : toLower c = c ↔ ¬ (0x41 ≤ c ∧ c ≤ 0x5a) := by
  have checked := every_byte (fun c => decide (toLower c = c ↔ ¬ (0x41 ≤ c ∧ c ≤ 0x5a)))
    (by decide +kernel) c
  exact of_decide_eq_true checked

theorem getFilenameExt_whole (filename : Bytes) :
    (getFilenameExt filename).1 ++ (getFilenameExt filename).2 = filename := by
  simp only [getFilenameExt]
  split
  · exact List.append_nil _
  · have suffix : (filename.reverse.takeWhile (· ≠ 0x2e)).reverse <:+ filename := by
      have front := List.reverse_suffix.mpr
        (List.takeWhile_prefix (l := filename.reverse) (· ≠ 0x2e))
      rwa [List.reverse_reverse] at front
    have rest := List.suffix_iff_eq_drop.mp suffix
    exact (congrArg (List.take _ filename ++ ·) rest).trans (List.take_append_drop _ _)

theorem loweredPath_eq_iff (path : Bytes) :
    loweredPath path = path ↔ ∀ c ∈ (getFilenameExt path).2, ¬ (0x41 ≤ c ∧ c ≤ 0x5a) := by
  have whole := getFilenameExt_whole path
  have same : loweredPath path = path ↔
      (getFilenameExt path).2.map toLower = (getFilenameExt path).2.map id := by
    rw [List.map_id]
    constructor
    · intro lowered
      exact List.append_cancel_left (lowered.trans whole.symm)
    · intro lowered
      rw [loweredPath, strTolower, lowered, whole]
  rw [same, List.map_inj_left]
  exact forall₂_congr fun c _ => toLower_eq_iff c

private theorem GetHeader.fopened {cfg : Config} {os : Os} {task : HttpTask} {request : Request}
    {lastReq : Bool} {result : Int × HttpTask × Request × List Event}
    (generated : GetHeader cfg os task request lastReq result) (done : result.1 = okNum) :
    ∃ path changed, makeFullPath cfg.wwwDir request = .ok (path, changed) ∧
      os.fopen (loweredPath path) ≠ none := by
  cases generated with
  | missing => exact absurd done (show notFoundNum ≠ okNum by decide)
  | unopened => exact absurd done (show internalServerErrorNum ≠ okNum by decide)
  | opened path _ _ _ hasFile => exact ⟨_, _, path, by simp [hasFile]⟩

theorem lonePath_described (path : Bytes) :
    describe (lonePath path) path = .ok ⟨0, ⟨[], by decide, nofun⟩, by decide⟩ := by
  have found : (lonePath path).stat path = some ⟨0, some ⟨[], by decide, nofun⟩⟩ := if_pos rfl
  have length : getFileLen (lonePath path) path = .ok 0 := by rw [getFileLen, found]
  have time : getFlmodified (lonePath path) path = .ok ⟨[], by decide, nofun⟩ := by
    rw [getFlmodified, found]
  simp only [describe, length, time]
  rfl

private theorem SendsFound.lowered {cfg : Config} {task : HttpTask} {request changed : Request}
    {lastReq : Bool} {path : Bytes} (room : ∀ text : Bytes, text.length ≤ 700 → HasRoom task text)
    (made : makeFullPath cfg.wwwDir request = .ok (path, changed))
    (sends : SendsFound cfg task request changed lastReq path) : loweredPath path = path := by
  have present : (lonePath path).access path = true := decide_eq_true rfl
  obtain ⟨next, _, sent⟩ := sends (lonePath path) _ present (lonePath_described path)
  have found : (lonePath path).fopen path = some ⟨0, [], false, 0⟩ := if_pos rfl
  rw [found] at sent
  obtain ⟨_, _, pathMade, opened⟩ := (generateGetHeader_cases room sent).fopened rfl
  cases made.symm.trans pathMade
  by_contra other
  exact opened (if_neg other)

theorem emptyRoom {task : HttpTask} (empty : task.responseBuf.content = [])
    (inv : task.responseBuf.Inv) (text : Bytes) (short : text.length ≤ 700) :
    HasRoom task text := by
  refine ⟨inv, ?_⟩
  rw [empty]
  simp only [List.length_nil, bufDataMaxsize]
  omega

/-- The file found is the one described and sent exactly when its path has no upper-case letter
after the last dot. -/
theorem sendsFound_iff (cfg : Config) (task : HttpTask) (request changed : Request)
    (lastReq : Bool) (path : Bytes) (empty : task.responseBuf.content = [])
    (inv : task.responseBuf.Inv)
    (made : makeFullPath cfg.wwwDir request = .ok (path, changed)) :
    SendsFound cfg task request changed lastReq path ↔
      ∀ c ∈ (getFilenameExt path).2, ¬ (0x41 ≤ c ∧ c ≤ 0x5a) := by
  have room := emptyRoom empty inv
  rw [← loweredPath_eq_iff]
  refine ⟨SendsFound.lowered room made, fun lowered os facts present described => ?_⟩
  rcases generateGetHeader_eq os lastReq room made with
    ⟨absent, _⟩ | ⟨fault, _, undescribed, _⟩ | ⟨_, _, same, next, written, unopened, opened⟩
  · rw [present] at absent
    cases absent
  · rw [lowered, described] at undescribed
    cases undescribed
  · rw [lowered] at same unopened opened
    cases described.symm.trans same
    refine ⟨next, written, ?_⟩
    cases file : os.fopen path with
    | none => exact unopened file
    | some file' => exact opened file' file

def staticConfig : Config := ⟨str "/www/", [], fun _ => .ok none, fun _ => 0⟩

/-- A picture whose extension is in upper case. -/
theorem sendsFound_upper_case :
    ¬ SendsFound staticConfig createHttpTask ⟨[], str "GET", str "/logo.PNG", [], 0⟩
      ⟨[], str "GET", str "/logo.PNG", [], 0⟩ false (str "/www/logo.PNG") := by
  have made : makeFullPath staticConfig.wwwDir ⟨[], str "GET", str "/logo.PNG", [], 0⟩ =
      .ok (str "/www/logo.PNG", ⟨[], str "GET", str "/logo.PNG", [], 0⟩) := by decide
  intro sends
  exact absurd (sends.lowered (emptyRoom rfl (Cbuf.reset_inv _)) made) (by decide)

theorem sendsFound_lower_case :
    SendsFound staticConfig createHttpTask ⟨[], str "GET", str "/logo.png", [], 0⟩
      ⟨[], str "GET", str "/logo.png", [], 0⟩ false (str "/www/logo.png") :=
  (sendsFound_iff staticConfig createHttpTask _ _ false _ rfl (Cbuf.reset_inv _)
    (by decide +kernel)).mpr (by decide +kernel)

end Liso
