import Liso.Lib.Path
import Liso.Http.Paths
import Liso.Parser.Parse

/-! Where the path of a static request leads, resolved lexically, and that nothing stops it
outside WWW_DIR. -/

namespace Liso

open Liso.Path

def segmentOf (text : Bytes) : Segment Bytes :=
  if text = [] ∨ text = str "." then .here else if text = str ".." then .up else .name text

def segments (path : Bytes) : List (Segment Bytes) := (path.splitOn 0x2f).map segmentOf

def placeOf (path : Bytes) : Place Bytes :=
  resolve (path.head? = some 0x2f) start (segments path)

/-- `path` leads to WWW_DIR or below it. -/
def Inside (wwwDir path : Bytes) : Prop :=
  (path.head? = some 0x2f ↔ wwwDir.head? = some 0x2f) ∧ Under (placeOf wwwDir) (placeOf path)

instance (wwwDir path : Bytes) : Decidable (Inside wwwDir path) :=
  inferInstanceAs (Decidable (_ ∧ _))

/-- No `..` of the URI goes above where the URI starts. -/
def UriStays (uri : Bytes) : Prop := stays 0 (segments (withoutScheme uri)) = true

instance (uri : Bytes) : Decidable (UriStays uri) := inferInstanceAs (Decidable (_ = true))

theorem segments_append (front back : Bytes) :
    segments (front ++ 0x2f :: back) = segments front ++ segments back := by
  rw [segments, List.splitOn_append_cons_self, List.map_append]
  rfl

@[simp] theorem segments_nil : segments [] = [.here] := rfl

theorem segments_trailing (text : Bytes) : segments (text ++ [0x2f]) = segments text ++ [.here] :=
  segments_append text []

theorem segments_leading (text : Bytes) : segments (0x2f :: text) = .here :: segments text :=
  segments_append [] text

def restOf (uri : Bytes) : Bytes :=
  let plain := if uri.head? = some 0x2f then uri.tail else uri
  if plain = [] ∨ plain.getLast? = some 0x2f then plain ++ str "Index.html" else plain

theorem pathOf_rest {wwwDir : Bytes} (ends : wwwDir.getLast? = some 0x2f) (uri : Bytes) :
    pathOf wwwDir uri = wwwDir ++ restOf uri := by
  obtain ⟨dir, rfl⟩ := List.getLast?_eq_some_iff.mp ends
  have plain : plainPath (dir ++ [0x2f]) uri =
      dir ++ [0x2f] ++ if uri.head? = some 0x2f then uri.tail else uri := by
    rw [plainPath]
    split
    · next slash =>
        obtain ⟨tail, rfl⟩ := List.head?_eq_some_iff.mp slash
        rw [List.dropLast_concat]
        simp
    · rfl
  rw [pathOf, plain, restOf]
  generalize (if uri.head? = some 0x2f then uri.tail else uri) = rest
  by_cases empty : rest = []
  · subst empty
    simp
  · rw [List.getLast?_append_of_ne_nil _ empty]
    simp only [empty, false_or]
    split
    · rw [List.append_assoc]
    · rfl

theorem placeOf_append {wwwDir : Bytes} (ends : wwwDir.getLast? = some 0x2f) (rest : Bytes) :
    ((wwwDir ++ rest).head? = some 0x2f ↔ wwwDir.head? = some 0x2f) ∧
      placeOf (wwwDir ++ rest) =
        resolve (wwwDir.head? = some 0x2f) (placeOf wwwDir) (segments rest) := by
  obtain ⟨dir, rfl⟩ := List.getLast?_eq_some_iff.mp ends
  have head : (dir ++ [0x2f] ++ rest).head? = (dir ++ [0x2f]).head? := by
    cases dir <;> rfl
  refine ⟨by rw [head], ?_⟩
  generalize isRooted : decide ((dir ++ [0x2f]).head? = some 0x2f) = rooted
  calc
    placeOf (dir ++ [0x2f] ++ rest) = resolve rooted start (segments (dir ++ 0x2f :: rest)) := by
      rw [placeOf, head, isRooted, List.append_assoc, List.singleton_append]
    _ = resolve rooted start (segments dir ++ segments rest) := by rw [segments_append]
    _ = resolve rooted (resolve rooted start (segments dir)) (segments rest) :=
      resolve_append ..
    _ = resolve rooted (placeOf (dir ++ [0x2f])) (segments rest) := by
      rw [placeOf, isRooted, segments_trailing, resolve_append]
      rfl

private theorem segments_index : segments (str "Index.html") = [.name (str "Index.html")] := by
  decide

private theorem segments_restOf (uri : Bytes) :
    stays 0 (segments (restOf uri)) = stays 0 (segments uri) ∧
      ∀ n, .name n ∈ segments (restOf uri) →
        .name n ∈ segments uri ∨ n = str "Index.html" := by
  have led : stays 0 (segments (if uri.head? = some 0x2f then uri.tail else uri)) =
        stays 0 (segments uri) ∧
      ∀ n, .name n ∈ segments (if uri.head? = some 0x2f then uri.tail else uri) →
        .name n ∈ segments uri := by
    split
    · next slash =>
        obtain ⟨tail, rfl⟩ := List.head?_eq_some_iff.mp slash
        rw [segments_leading]
        exact ⟨rfl, fun n member => List.mem_cons_of_mem _ member⟩
    · exact ⟨rfl, fun n member => member⟩
  rw [restOf]
  generalize (if uri.head? = some 0x2f then uri.tail else uri) = plain at led
  obtain ⟨same, among⟩ := led
  rw [← same]
  split
  · next dir =>
      rcases dir with rfl | slash
      · rw [List.nil_append, segments_index]
        exact ⟨rfl, fun n member => .inr (by simpa using member)⟩
      · obtain ⟨front, rfl⟩ := List.getLast?_eq_some_iff.mp slash
        rw [segments_trailing] at among ⊢
        rw [List.append_assoc, List.singleton_append, segments_append, segments_index,
          stays_append _ _ _ (by simp), stays_append _ _ _ (by simp)]
        refine ⟨rfl, fun n member => ?_⟩
        rcases List.mem_append.mp member with before | index
        · exact .inl (among n (List.mem_append_left _ before))
        · exact .inr (by simpa using index)
  · exact ⟨rfl, fun n member => .inl (among n member)⟩

private theorem segments_removed (uri : Bytes) :
    stays 0 (segments (if uri.getLast? = some 0x2f then uri.dropLast else uri)) =
        stays 0 (segments uri) ∧
      ∀ n, .name n ∈ segments (if uri.getLast? = some 0x2f then uri.dropLast else uri) →
        .name n ∈ segments uri := by
  split
  · next slash =>
      obtain ⟨front, rfl⟩ := List.getLast?_eq_some_iff.mp slash
      rw [List.dropLast_concat, segments_trailing, stays_append _ _ _ (by simp)]
      exact ⟨rfl, fun n member => List.mem_append_left _ member⟩
  · exact ⟨rfl, fun n member => member⟩

theorem makeFullPath_place {wwwDir path : Bytes} {request changed : Request}
    (ends : wwwDir.getLast? = some 0x2f)
    (made : makeFullPath wwwDir request = .ok (path, changed)) :
    ∃ rest, path = wwwDir ++ rest ∧
      (stays 0 (segments rest) = true ↔ UriStays request.httpUri) ∧
      ∀ n, .name n ∈ segments rest →
        .name n ∈ segments (withoutScheme request.httpUri) ∨ n = str "Index.html" := by
  obtain ⟨uri, cleaned, _, rfl, _⟩ := makeFullPath_ok.mp made
  rw [removeRedundancyFromUri_eq] at cleaned
  split at cleaned
  · cases cleaned
  · cases cleaned
    obtain ⟨same, among⟩ := segments_removed (withoutScheme request.httpUri)
    have rest := segments_restOf (if (withoutScheme request.httpUri).getLast? = some 0x2f then
      (withoutScheme request.httpUri).dropLast else withoutScheme request.httpUri)
    refine ⟨_, pathOf_rest ends _, ?_, fun n member => ?_⟩
    · rw [rest.1, same, UriStays]
    · exact (rest.2 n member).imp_left (among n)

private def shape (c : UInt8) : UInt8 := if c = 0x2e ∨ c = 0x2f then c else 0x78

private theorem shape_toLower (c : UInt8) : shape (toLower c) = shape c := by
  have checked := every_byte (fun c => decide (shape (toLower c) = shape c)) (by decide +kernel) c
  exact of_decide_eq_true checked

private theorem splitOn_shape (text : Bytes) :
    (text.map shape).splitOn 0x2f = (text.splitOn 0x2f).map (List.map shape) := by
  induction text with
  | nil => rfl
  | cons c text ih =>
      rw [List.map_cons, List.splitOn_cons_eq_if_modifyHead, List.splitOn_cons_eq_if_modifyHead, ih]
      by_cases slash : c = 0x2f
      · subst slash
        simp [shape]
      · have other : ¬ shape c = 0x2f := by
          rw [shape]
          split
          · exact slash
          · decide
        simp only [beq_iff_eq, if_neg slash, if_neg other]
        cases text.splitOn 0x2f with
        | nil => rfl
        | cons front rest => rfl

private theorem segmentOf_shape (text : Bytes) :
    (segmentOf (text.map shape)).kind = (segmentOf text).kind := by
  have dot (c : UInt8) : shape c = 0x2e ↔ c = 0x2e := by
    have checked := every_byte (fun c => decide (shape c = 0x2e ↔ c = 0x2e)) (by decide +kernel) c
    exact of_decide_eq_true checked
  have one : str "." = [0x2e] := rfl
  have two : str ".." = [0x2e, 0x2e] := rfl
  rw [segmentOf, segmentOf, one, two]
  match text with
  | [] => rfl
  | [c] => by_cases first : c = 0x2e <;> simp [first, dot, Segment.kind]
  | [c, d] =>
      by_cases first : c = 0x2e
      · by_cases second : d = 0x2e <;> simp [first, second, dot, Segment.kind]
      · simp [first, dot, Segment.kind]
  | c :: d :: e :: rest => simp [Segment.kind]

private theorem stays_shape (text : Bytes) :
    stays 0 (segments (text.map shape)) = stays 0 (segments text) := by
  rw [← stays_kind, ← stays_kind 0 (segments text), segments, segments, splitOn_shape,
    List.map_map, List.map_map, List.map_map]
  congr 1
  exact List.map_congr_left fun part _ => segmentOf_shape part

private theorem loweredPath_shape (path : Bytes) :
    (loweredPath path).map shape = path.map shape := by
  have whole := congrArg (List.map shape) (getFilenameExt_whole path)
  rw [← whole, loweredPath, strTolower, List.map_append, List.map_append, List.map_map]
  congr 1
  exact List.map_congr_left fun c _ => shape_toLower c

private theorem stays_lowered {wwwDir rest lower : Bytes}
    (whole : loweredPath (wwwDir ++ rest) = wwwDir ++ lower) :
    stays 0 (segments lower) = stays 0 (segments rest) := by
  have shapes := loweredPath_shape (wwwDir ++ rest)
  rw [whole, List.map_append, List.map_append] at shapes
  rw [← stays_shape lower, List.append_cancel_left shapes, stays_shape]

/-- A path stays inside WWW_DIR as long as its URI does not go above where it starts, and
otherwise leaves it, unless the URI names the last directory of WWW_DIR again. No check keeps
such a file from being sent. -/
theorem static_inside (cfg : Config) (request changed : Request) (path : Bytes)
    (ends : cfg.wwwDir.getLast? = some 0x2f)
    (made : makeFullPath cfg.wwwDir request = .ok (path, changed)) :
    (UriStays request.httpUri → Inside cfg.wwwDir path ∧
      (cfg.wwwDir <+: loweredPath path → Inside cfg.wwwDir (loweredPath path))) ∧
    (¬ UriStays request.httpUri → ∀ n names, (placeOf cfg.wwwDir).names = n :: names →
      .name n ∉ segments (withoutScheme request.httpUri) → n ≠ str "Index.html" →
      ¬ Inside cfg.wwwDir path) ∧
    ∀ (os : Os) (task : HttpTask) (lastReq : Bool) (facts : Described) (file : File),
      task.responseBuf.content = [] → task.responseBuf.Inv → os.access path = true →
      describe os (loweredPath path) = .ok facts → os.fopen (loweredPath path) = some file →
      ∃ next, generateGetHeader cfg os task request lastReq =
        .ok (sentFile next changed (some file)) := by
  obtain ⟨rest, rfl, staying, among⟩ := makeFullPath_place ends made
  have fromRoot {lower : Bytes} (stay : stays 0 (segments lower) = true) :
      Inside cfg.wwwDir (cfg.wwwDir ++ lower) := by
    obtain ⟨head, place⟩ := placeOf_append ends lower
    have none : stays ([] : List Bytes).length (segments lower) = true := stay
    refine ⟨head, ?_⟩
    rw [place]
    exact under_of_stays _ none
  refine ⟨fun stay => ⟨fromRoot (staying.mpr stay), ?_⟩,
    fun leave n names last other notIndex => ?_, ?_⟩
  · rintro ⟨lower, whole⟩
    rw [← whole]
    apply fromRoot
    rw [stays_lowered whole.symm]
    exact staying.mpr stay
  · rintro ⟨_, inside⟩
    rw [(placeOf_append ends rest).2] at inside
    have leaving : stays ([] : List Bytes).length (segments rest) = false := by
      simpa using mt staying.mp leave
    have elsewhere : .name n ∉ segments rest := by
      intro member
      rcases among n member with named | index
      · exact other named
      · exact notIndex index
    exact not_under_of_leaves _ last elsewhere List.not_mem_nil leaving inside
  · intro os task lastReq facts file empty inv present described found
    rcases generateGetHeader_eq os lastReq (emptyRoom empty inv) made with
      ⟨absent, _⟩ | ⟨_, _, undescribed, _⟩ | ⟨_, _, _, next, _, _, opened⟩
    · rw [present] at absent
      cases absent
    · cases described.symm.trans undescribed
    · exact ⟨next, opened file found⟩

/-- A request that goes up from WWW_DIR and is sent the file it names there. -/
theorem static_outside : ∃ os request path next file,
    parse (str "GET /../etc/passwd HTTP/1.1\r\nHost: a\r\n\r\n") = .ok (some request) ∧
      makeFullPath staticConfig.wwwDir request = .ok (path, request) ∧
      ¬ Inside staticConfig.wwwDir path ∧
      generateGetHeader staticConfig os createHttpTask request false =
        .ok (sentFile next request (some file)) := by
  have parsed : parse (str "GET /../etc/passwd HTTP/1.1\r\nHost: a\r\n\r\n") =
      .ok (some ⟨str "HTTP/1.1", str "GET", str "/../etc/passwd",
        [⟨str "Host", str "a"⟩], 20⟩) := by decide +kernel
  have made : makeFullPath staticConfig.wwwDir ⟨str "HTTP/1.1", str "GET", str "/../etc/passwd",
      [⟨str "Host", str "a"⟩], 20⟩ = .ok (str "/www/../etc/passwd", ⟨str "HTTP/1.1", str "GET",
        str "/../etc/passwd", [⟨str "Host", str "a"⟩], 20⟩) := by decide
  have room := emptyRoom (show createHttpTask.responseBuf.content = [] from rfl) (Cbuf.reset_inv _)
  let os := lonePath (str "/www/../etc/passwd")
  rcases generateGetHeader_eq os false room made with
    ⟨absent, _⟩ | ⟨_, _, undescribed, _⟩ | ⟨_, _, _, next, _, _, opened⟩
  · exact absurd absent (by decide)
  · have lowered : loweredPath (str "/www/../etc/passwd") = str "/www/../etc/passwd" := by decide
    rw [lowered] at undescribed
    cases (lonePath_described _).symm.trans undescribed
  · exact ⟨os, _, _, next, ⟨0, [], false, 0⟩, parsed, made, by decide +kernel,
      opened _ (by decide)⟩

theorem static_inside_back :
    Inside staticConfig.wwwDir (str "/www/a/../b.html") ∧
      (staticConfig.wwwDir <+: loweredPath (str "/www/a/../b.html") →
        Inside staticConfig.wwwDir (loweredPath (str "/www/a/../b.html"))) :=
  (static_inside staticConfig ⟨str "HTTP/1.1", str "GET", str "/a/../b.html", [], 20⟩
    ⟨str "HTTP/1.1", str "GET", str "/a/../b.html", [], 20⟩ _ (by decide) (by decide)).1
    (by decide +kernel)

end Liso
