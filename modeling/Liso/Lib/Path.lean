import Mathlib.Data.List.Basic

/-! Paths resolved lexically, segment by segment. -/

namespace Liso.Path

variable {ν : Type}

inductive Segment (ν : Type)
  | here
  | up
  | name (n : ν)
  deriving DecidableEq

/-- A place: so many levels above where the path starts, and from there down the names, the
last one first. -/
structure Place (ν : Type) where
  ups : Nat
  names : List ν
  deriving DecidableEq

def start : Place ν := ⟨0, []⟩

def step (rooted : Bool) (p : Place ν) : Segment ν → Place ν
  | .here => p
  | .name n => { p with names := n :: p.names }
  | .up =>
      match p.names with
      | _ :: names => { p with names }
      | [] => if rooted then p else { p with ups := p.ups + 1 }

def resolve (rooted : Bool) (p : Place ν) (segments : List (Segment ν)) : Place ν :=
  segments.foldl (step rooted) p

theorem resolve_append (rooted : Bool) (p : Place ν) (front back : List (Segment ν)) :
    resolve rooted p (front ++ back) = resolve rooted (resolve rooted p front) back :=
  List.foldl_append

@[simp] theorem resolve_nil (rooted : Bool) (p : Place ν) : resolve rooted p [] = p := rfl

@[simp] theorem resolve_cons (rooted : Bool) (p : Place ν) (segment : Segment ν)
    (rest : List (Segment ν)) :
    resolve rooted p (segment :: rest) = resolve rooted (step rooted p segment) rest := rfl

def Under (base p : Place ν) : Prop := p.ups = base.ups ∧ base.names <:+ p.names

instance [DecidableEq ν] (base p : Place ν) : Decidable (Under base p) :=
  inferInstanceAs (Decidable (_ ∧ _))

/-- From `depth` levels below a place, no segment goes above that place. -/
def stays : Nat → List (Segment ν) → Bool
  | _, [] => true
  | depth, .here :: rest => stays depth rest
  | depth, .name _ :: rest => stays (depth + 1) rest
  | 0, .up :: _ => false
  | depth + 1, .up :: rest => stays depth rest

def Segment.kind : Segment ν → Segment Unit
  | .here => .here
  | .up => .up
  | .name _ => .name ()

theorem stays_kind (depth : Nat) (segments : List (Segment ν)) :
    stays depth (segments.map Segment.kind) = stays depth segments := by
  induction segments generalizing depth with
  | nil => rfl
  | cons segment rest ih =>
      rw [List.map_cons]
      cases segment with
      | here => exact ih depth
      | name n => exact ih (depth + 1)
      | up =>
          cases depth with
          | zero => rfl
          | succ depth => exact ih depth

theorem stays_append (depth : Nat) (front back : List (Segment ν)) (noUp : .up ∉ back) :
    stays depth (front ++ back) = stays depth front := by
  induction front generalizing depth with
  | nil =>
      rw [List.nil_append]
      induction back generalizing depth with
      | nil => rfl
      | cons segment back ih =>
          have later : .up ∉ back := fun member => noUp (List.mem_cons_of_mem _ member)
          cases segment with
          | here => exact ih later depth
          | name n => exact ih later (depth + 1)
          | up => exact absurd List.mem_cons_self noUp
  | cons segment front ih =>
      rw [List.cons_append]
      cases segment with
      | here => exact ih depth
      | name n => exact ih (depth + 1)
      | up =>
          cases depth with
          | zero => rfl
          | succ depth => exact ih depth

theorem under_of_stays (rooted : Bool) {base : Place ν} {segments : List (Segment ν)}
    {below : List ν} (staying : stays below.length segments = true) :
    Under base (resolve rooted { base with names := below ++ base.names } segments) := by
  induction segments generalizing below with
  | nil => exact ⟨rfl, List.suffix_append _ _⟩
  | cons segment rest ih =>
      rw [resolve_cons]
      cases segment with
      | here => exact ih staying
      | name n =>
          have deeper : stays (n :: below).length rest = true := staying
          exact ih deeper
      | up =>
          cases below with
          | nil => cases staying
          | cons n below => exact ih staying

private theorem left_of_left (rooted : Bool) {n : ν} {size : Nat} {p : Place ν}
    {segments : List (Segment ν)} (other : .name n ∉ segments) {front back : List ν}
    (names : p.names = front ++ back) (clear : n ∉ front) (short : back.length < size) :
    ∃ front back, (resolve rooted p segments).names = front ++ back ∧ n ∉ front ∧
      back.length < size := by
  induction segments generalizing p front back with
  | nil => exact ⟨front, back, names, clear, short⟩
  | cons segment rest ih =>
      have later : .name n ∉ rest := fun member => other (List.mem_cons_of_mem _ member)
      rw [resolve_cons]
      cases segment with
      | here => exact ih later names clear short
      | name m =>
          have unlike : n ≠ m := by
            rintro rfl
            exact other List.mem_cons_self
          have deeper : (step rooted p (.name m)).names = m :: front ++ back := by
            rw [step, names, List.cons_append]
          exact ih later deeper (by simp [unlike, clear]) short
      | up =>
          cases front with
          | cons f front =>
              have higher : (step rooted p .up).names = front ++ back := by
                rw [step, names, List.cons_append]
              exact ih later higher (fun member => clear (List.mem_cons_of_mem _ member)) short
          | nil =>
              cases back with
              | cons b back =>
                  have higher : (step rooted p .up).names = [] ++ back := by
                    rw [step, names, List.nil_append, List.nil_append]
                  rw [List.length_cons] at short
                  exact ih later higher List.not_mem_nil (by omega)
              | nil =>
                  have top : (step rooted p .up).names = [] ++ [] := by
                    have none : p.names = [] := names
                    rw [step, none]
                    cases rooted with
                    | false => rfl
                    | true => exact none
                  exact ih later top List.not_mem_nil short

/-- A path that goes above a place leaves it, unless it names the last entry of the place
again. -/
theorem not_under_of_leaves (rooted : Bool) {base : Place ν} {n : ν} {names below : List ν}
    {segments : List (Segment ν)} (last : base.names = n :: names)
    (other : .name n ∉ segments) (clear : n ∉ below)
    (leaving : stays below.length segments = false) :
    ¬ Under base (resolve rooted { base with names := below ++ base.names } segments) := by
  have gone : ∃ front back,
      (resolve rooted { base with names := below ++ base.names } segments).names =
        front ++ back ∧ n ∉ front ∧ back.length < names.length + 1 := by
    induction segments generalizing below with
    | nil => cases leaving
    | cons segment rest ih =>
        have later : .name n ∉ rest := fun member => other (List.mem_cons_of_mem _ member)
        rw [resolve_cons]
        cases segment with
        | here => exact ih later clear leaving
        | name m =>
            have unlike : n ≠ m := by
              rintro rfl
              exact other List.mem_cons_self
            have deeper : stays (m :: below).length rest = false := leaving
            exact ih later (by simp [unlike, clear]) deeper
        | up =>
            cases below with
            | cons b below =>
                exact ih later (fun member => clear (List.mem_cons_of_mem _ member)) leaving
            | nil =>
                have higher : (step rooted { base with names := [] ++ base.names } .up).names =
                    [] ++ names := by
                  rw [step, List.nil_append, last, List.nil_append]
                exact left_of_left rooted later higher List.not_mem_nil (Nat.lt_succ_self _)
  rintro ⟨_, inside⟩
  obtain ⟨front, back, split, clear, short⟩ := gone
  rw [split, last] at inside
  obtain ⟨more, whole⟩ := inside
  rcases List.append_eq_append_iff.mp whole with ⟨tail, rfl, rest⟩ | ⟨tail, _, rest⟩
  · cases tail with
    | nil =>
        rw [List.nil_append] at rest
        rw [← rest, List.length_cons] at short
        exact Nat.lt_irrefl _ short
    | cons t tail =>
        rw [List.cons_append, List.cons.injEq] at rest
        rw [rest.1] at clear
        exact clear (List.mem_append_right _ List.mem_cons_self)
  · have lengths := congrArg List.length rest
    rw [List.length_append, List.length_cons] at lengths
    omega

end Liso.Path
