import Mathlib.Data.List.Basic
import Mathlib.Data.List.Infix
import Mathlib.Data.Nat.Find

/-! The first occurrence of a pattern in a stream, and machines that find it by
keeping how much of the pattern the bytes read so far end with. -/

namespace Liso.Matcher

variable {α : Type}

def Clear (pat x : List α) : Prop := ∀ front, front <+: x → ¬ pat <:+ front

variable {pat x rest : List α} {a : α}

theorem Clear.nil (nonempty : pat ≠ []) : Clear pat [] := by
  intro front start ends
  rw [List.prefix_nil.mp start, List.suffix_nil] at ends
  exact nonempty ends

theorem Clear.snoc (clear : Clear pat x) (none : ¬ pat <:+ x ++ [a]) : Clear pat (x ++ [a]) := by
  intro front start ends
  rcases List.prefix_concat_iff.mp (by simpa using start) with whole | earlier
  · rw [whole] at ends
    exact none (by simpa using ends)
  · exact clear front earlier ends

private theorem take_snoc (k : Nat) (bound : k < pat.length) :
    pat.take (k + 1) <:+ x ++ [a] ↔ pat.take k <:+ x ∧ pat[k] = a := by
  rw [List.take_succ_eq_append_getElem bound]
  constructor
  · rintro ⟨front, joined⟩
    rw [← List.append_assoc] at joined
    obtain ⟨ends, last⟩ := List.append_inj' joined rfl
    exact ⟨⟨front, ends⟩, by simpa using last⟩
  · rintro ⟨⟨front, rfl⟩, rfl⟩
    exact ⟨front, (List.append_assoc ..).symm⟩

variable [DecidableEq α]

/-- Cut right after the first occurrence of `pat`. -/
def cutAfter (pat : List α) : List α → Option (List α × List α)
  | [] => if pat = [] then some ([], []) else none
  | a :: rest =>
      if pat.isPrefixOf (a :: rest) then some (pat, (a :: rest).drop pat.length)
      else (cutAfter pat rest).map fun (x, y) => (a :: x, y)

/-- The longest prefix of the pattern that `x` ends with. -/
def border (pat x : List α) : Nat := Nat.findGreatest (fun k => pat.take k <:+ x) pat.length

theorem border_le : border pat x ≤ pat.length := Nat.findGreatest_le _

theorem border_suffix : pat.take (border pat x) <:+ x :=
  Nat.findGreatest_spec (P := fun k => pat.take k <:+ x) (Nat.zero_le _) (List.nil_suffix)

theorem le_border (k : Nat) (bound : k ≤ pat.length) (ends : pat.take k <:+ x) :
    k ≤ border pat x := Nat.le_findGreatest bound ends

theorem border_full : border pat x = pat.length ↔ pat <:+ x := by
  constructor
  · intro full
    have ends : pat.take (border pat x) <:+ x := border_suffix
    rwa [full, List.take_length] at ends
  · intro ends
    refine Nat.le_antisymm border_le (le_border _ (Nat.le_refl _) ?_)
    rwa [List.take_length]

theorem border_nil : border pat [] = 0 := by
  have ends : pat.take (border pat []) <:+ [] := border_suffix
  rw [List.suffix_nil, List.take_eq_nil_iff] at ends
  rcases ends with zero | empty
  · exact zero
  · have bound : border pat [] ≤ pat.length := border_le
    rw [empty] at bound ⊢
    exact Nat.le_zero.mp bound

theorem border_snoc : border pat (x ++ [a]) = border pat (pat.take (border pat x) ++ [a]) := by
  have same (k : Nat) (bound : k ≤ pat.length) :
      pat.take k <:+ x ++ [a] ↔ pat.take k <:+ pat.take (border pat x) ++ [a] := by
    cases k with
    | zero => simp
    | succ k =>
        rw [take_snoc k bound, take_snoc k bound]
        refine and_congr_left fun _ => ⟨fun ends => ?_, fun ends => ?_⟩
        · have short := le_border k (Nat.le_of_succ_le bound) ends
          apply List.suffix_of_suffix_length_le ends border_suffix
          simp only [List.length_take]
          omega
        · exact ends.trans border_suffix
  apply Nat.le_antisymm
  · exact le_border _ border_le ((same _ border_le).mp border_suffix)
  · exact le_border _ border_le ((same _ border_le).mpr border_suffix)

theorem cutAfter_some (u v : List α) (cut : cutAfter pat x = some (u, v)) :
    x = u ++ v ∧ pat <:+ u := by
  induction x generalizing u v with
  | nil =>
      rw [cutAfter] at cut
      split at cut
      · next empty =>
          cases cut
          rw [empty]
          exact ⟨rfl, List.nil_suffix⟩
      · cases cut
  | cons a x ih =>
      rw [cutAfter] at cut
      split at cut
      · next start =>
          cases cut
          obtain ⟨tail, whole⟩ := List.isPrefixOf_iff_prefix.mp start
          rw [← whole, List.drop_left]
          exact ⟨rfl, List.suffix_refl _⟩
      · obtain ⟨⟨first, second⟩, found, same⟩ := Option.map_eq_some_iff.mp cut
        cases same
        obtain ⟨whole, ends⟩ := ih first _ found
        rw [whole]
        exact ⟨rfl, ends.trans (List.suffix_cons a first)⟩

theorem cutAfter_append {u v : List α} (cut : cutAfter pat x = some (u, v)) (more : List α) :
    cutAfter pat (x ++ more) = some (u, v ++ more) := by
  induction x generalizing u v with
  | nil =>
      rw [cutAfter] at cut
      split at cut
      · next empty =>
          cases cut
          subst empty
          cases more <;> simp [cutAfter]
      · cases cut
  | cons a x ih =>
      rw [cutAfter] at cut
      rw [List.cons_append, cutAfter]
      split at cut
      · next start =>
          cases cut
          have whole := List.isPrefixOf_iff_prefix.mp start
          have still : pat.isPrefixOf (a :: (x ++ more)) = true :=
            List.isPrefixOf_iff_prefix.mpr (whole.trans (List.prefix_append (a :: x) more))
          rw [if_pos still, ← List.cons_append, List.drop_append_of_le_length whole.length_le]
      · next other =>
          obtain ⟨⟨first, second⟩, found, same⟩ := Option.map_eq_some_iff.mp cut
          cases same
          have later : ¬ pat.isPrefixOf (a :: (x ++ more)) = true := by
            intro start
            obtain ⟨joined, ends⟩ := cutAfter_some first _ found
            have long := ends.length_le
            refine other (List.isPrefixOf_iff_prefix.mpr ?_)
            refine List.prefix_of_prefix_length_le (List.isPrefixOf_iff_prefix.mp start)
              (List.prefix_append (a :: x) more) ?_
            rw [joined, List.length_cons, List.length_append]
            omega
          rw [if_neg later, ih found, Option.map_some]

theorem cutAfter_none (clear : Clear pat x) : cutAfter pat x = none := by
  cases cut : cutAfter pat x with
  | none => rfl
  | some pair =>
      obtain ⟨whole, ends⟩ := cutAfter_some pair.1 pair.2 cut
      exact absurd ends (clear pair.1 ⟨pair.2, whole.symm⟩)

theorem cutAfter_first (clear : Clear pat x) (ends : pat <:+ x ++ [a]) :
    cutAfter pat (x ++ [a] ++ rest) = some (x ++ [a], rest) := by
  induction x with
  | nil =>
      have short : pat = [] ∨ pat = [a] := by
        rcases List.suffix_cons_iff.mp ends with whole | rest
        · exact .inr whole
        · exact .inl (List.suffix_nil.mp rest)
      rcases short with rfl | rfl
      · exact absurd List.nil_suffix (clear [] List.nil_prefix)
      · simp [cutAfter]
  | cons b x ih =>
      have tailClear : Clear pat x := by
        rintro front ⟨tail, rfl⟩ inside
        exact clear (b :: front) ⟨tail, rfl⟩ (inside.trans (List.suffix_cons b front))
      rw [List.cons_append, List.cons_append, cutAfter]
      split
      · next start =>
          obtain ⟨tail, whole⟩ := List.isPrefixOf_iff_prefix.mp start
          have long : x.length + 2 ≤ pat.length := by
            by_contra short
            have front : pat <+: b :: x := by
              have inside : pat <+: b :: x ++ ([a] ++ rest) := ⟨tail, by simpa using whole⟩
              apply List.prefix_of_prefix_length_le inside (List.prefix_append _ _)
              simp only [List.length_cons]
              omega
            exact clear pat front (List.suffix_refl _)
          have same : pat = b :: x ++ [a] := by
            apply List.IsSuffix.eq_of_length ends
            have bound := List.IsSuffix.length_le ends
            simp only [List.length_append, List.length_cons, List.length_nil] at bound ⊢
            omega
          rw [same]
          simp
      · next other =>
          have proper : pat <:+ x ++ [a] := by
            rcases List.suffix_cons_iff.mp ends with whole | inside
            · refine absurd ?_ other
              rw [List.isPrefixOf_iff_prefix, whole]
              exact ⟨rest, by simp⟩
            · exact inside
          rw [ih tailClear proper]
          rfl

theorem cutAfter_earliest {u v front : List α} (cut : cutAfter pat x = some (u, v))
    (start : front <+: u) (ends : pat <:+ front) : front = u := by
  induction x generalizing u v front with
  | nil =>
      obtain ⟨whole, _⟩ := cutAfter_some u v cut
      have none : u = [] := (List.append_eq_nil_iff.mp whole.symm).1
      rw [none] at start ⊢
      exact List.prefix_nil.mp start
  | cons a x ih =>
      rw [cutAfter] at cut
      split at cut
      · cases cut
        exact start.eq_of_length_le ends.length_le
      · next other =>
          obtain ⟨⟨first, second⟩, found, same⟩ := Option.map_eq_some_iff.mp cut
          cases same
          rcases List.prefix_cons_iff.mp start with rfl | ⟨tail, rfl, inside⟩
          · rw [List.suffix_nil.mp ends] at other
            exact absurd rfl other
          · rcases List.suffix_cons_iff.mp ends with whole | later
            · refine absurd (List.isPrefixOf_iff_prefix.mpr ?_) other
              obtain ⟨joined, _⟩ := cutAfter_some first _ found
              rw [whole, joined, List.cons_prefix_cons]
              exact ⟨rfl, inside.trans (List.prefix_append _ _)⟩
            · rw [ih found inside later]

/-- A machine whose state is the border of what it has read. -/
structure Machine (pat : List α) where
  step : Nat → α → Nat
  follows : ∀ s, s < pat.length → ∀ a, step s a = border pat (pat.take s ++ [a])

namespace Machine

theorem step_border (m : Machine pat) (unmatched : ¬ pat <:+ x) :
    m.step (border pat x) a = border pat (x ++ [a]) := by
  have below : border pat x < pat.length := by
    refine Nat.lt_of_le_of_ne border_le fun full => ?_
    exact unmatched (border_full.mp full)
  rw [m.follows _ below, ← border_snoc]

def search (m : Machine pat) : Nat → List α → Option (List α × List α)
  | _, [] => none
  | s, a :: rest =>
      if m.step s a = pat.length then some ([a], rest)
      else (m.search (m.step s a) rest).map fun (u, v) => (a :: u, v)

/-- The search resumed after `x` finds the first occurrence in the whole stream. -/
theorem search_cutAfter (m : Machine pat) (clear : Clear pat x) (rest : List α) :
    cutAfter pat (x ++ rest) = (m.search (border pat x) rest).map fun (u, v) => (x ++ u, v) := by
  induction rest generalizing x with
  | nil => rw [List.append_nil, cutAfter_none clear, search, Option.map_none]
  | cons a rest ih =>
      have unmatched : ¬ pat <:+ x := clear x (List.prefix_refl x)
      rw [search, m.step_border unmatched, List.append_cons]
      by_cases done : pat <:+ x ++ [a]
      · rw [if_pos (border_full.mpr done), cutAfter_first clear done, Option.map_some]
      · rw [if_neg (fun full => done (border_full.mp full)), ih (clear.snoc done)]
        simp [Option.map_map, Function.comp_def]

end Machine

end Liso.Matcher
