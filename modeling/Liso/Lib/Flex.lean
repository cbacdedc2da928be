import Mathlib.Data.List.Basic

/-! Scanners as flex builds them: the longest match wins, among equally long
ones the earlier rule, and a symbol no rule matches is echoed. -/

namespace Liso.Flex

variable {α τ : Type}

/-- A fixed run of symbol classes, then any number of symbols of the class `star`. -/
structure Pattern (α : Type) where
  head : List (α → Bool)
  star : Option (α → Bool)

def matchHead : List (α → Bool) → List α → Option (List α)
  | [], input => some input
  | _ :: _, [] => none
  | p :: ps, a :: input => if p a then matchHead ps input else none

def Pattern.longest (p : Pattern α) (input : List α) : Option Nat :=
  match matchHead p.head input with
  | none => none
  | some rest =>
      match p.star with
      | none => some p.head.length
      | some q => some (p.head.length + (rest.takeWhile q).length)

/-- `action` maps the matched text to a token. -/
structure Rule (α τ : Type) where
  pattern : Pattern α
  action : List α → τ

def better (input : List α) (best : Option (Nat × Rule α τ)) (rule : Rule α τ) :
    Option (Nat × Rule α τ) :=
  match rule.pattern.longest input, best with
  | none, best => best
  | some n, none => some (n, rule)
  | some n, some (m, old) => if m < n then some (n, rule) else some (m, old)

def best (rules : List (Rule α τ)) (input : List α) : Option (Nat × Rule α τ) :=
  rules.foldl (better input) none

theorem best_congr (rules : List (Rule α τ)) (first second : List α)
    (same : ∀ rule ∈ rules, rule.pattern.longest first = rule.pattern.longest second) :
    best rules first = best rules second := by
  refine List.foldl_ext _ _ none fun kept rule member => ?_
  simp only [better, same rule member]

private theorem better_shorter (input : List α) (n : Nat) (rules : List (Rule α τ))
    (kept : Option (Nat × Rule α τ)) (small : ∀ m old, kept = some (m, old) → m < n)
    (shorter : ∀ rule ∈ rules, ∀ m, rule.pattern.longest input = some m → m < n)
    (m : Nat) (old : Rule α τ) (wins : rules.foldl (better input) kept = some (m, old)) :
    m < n := by
  induction rules generalizing kept with
  | nil => exact small m old wins
  | cons rule rules ih =>
      refine ih (better input kept rule) ?_ (fun r member => shorter r (List.mem_cons_of_mem _ member))
        wins
      intro k best chosen
      cases hit : rule.pattern.longest input with
      | none =>
          simp only [better, hit] at chosen
          exact small k best chosen
      | some length =>
          have below := shorter rule List.mem_cons_self length hit
          cases kept with
          | none =>
              simp only [better, hit, Option.some.injEq, Prod.mk.injEq] at chosen
              omega
          | some pair =>
              have old := small pair.1 pair.2 rfl
              simp only [better, hit] at chosen
              split at chosen
              all_goals
                simp only [Option.some.injEq, Prod.mk.injEq] at chosen
                omega

private theorem better_kept (input : List α) (n : Nat) (rule : Rule α τ) (rules : List (Rule α τ))
    (noLonger : ∀ r ∈ rules, ∀ m, r.pattern.longest input = some m → m ≤ n) :
    rules.foldl (better input) (some (n, rule)) = some (n, rule) := by
  induction rules with
  | nil => rfl
  | cons next rules ih =>
      have kept : better input (some (n, rule)) next = some (n, rule) := by
        cases hit : next.pattern.longest input with
        | none => simp only [better, hit]
        | some m =>
            have below := noLonger next List.mem_cons_self m hit
            simp only [better, hit, if_neg (Nat.not_lt.mpr below)]
      rw [List.foldl_cons, kept]
      exact ih fun r member => noLonger r (List.mem_cons_of_mem _ member)

theorem best_wins (before after : List (Rule α τ)) (rule : Rule α τ) (input : List α) (n : Nat)
    (hit : rule.pattern.longest input = some n)
    (shorter : ∀ r ∈ before, ∀ m, r.pattern.longest input = some m → m < n)
    (noLonger : ∀ r ∈ after, ∀ m, r.pattern.longest input = some m → m ≤ n) :
    best (before ++ rule :: after) input = some (n, rule) := by
  have chosen : better input (before.foldl (better input) none) rule = some (n, rule) := by
    cases first : before.foldl (better input) none with
    | none => simp only [better, hit]
    | some pair =>
        have below := better_shorter input n before none (by simp) shorter pair.1 pair.2 first
        simp only [better, hit, if_pos below]
  rw [best, List.foldl_append, List.foldl_cons, chosen]
  exact better_kept input n rule after noLonger

structure Scan (α τ : Type) where
  tokens : List τ
  echoed : List α
  deriving DecidableEq, Repr

def Scan.token (t : τ) (s : Scan α τ) : Scan α τ := { s with tokens := t :: s.tokens }

def Scan.echo (a : α) (s : Scan α τ) : Scan α τ := { s with echoed := a :: s.echoed }

/-- The default rule matches one symbol, so an empty match never wins. -/
def scanLoop (rules : List (Rule α τ)) : Nat → List α → Scan α τ
  | _, [] => ⟨[], []⟩
  | 0, _ :: _ => ⟨[], []⟩
  | fuel + 1, a :: input =>
      match best rules (a :: input) with
      | some (n + 1, rule) =>
          (scanLoop rules fuel (input.drop n)).token (rule.action (a :: input.take n))
      | _ => (scanLoop rules fuel input).echo a

def scan (rules : List (Rule α τ)) (input : List α) : Scan α τ :=
  scanLoop rules input.length input

private theorem scanLoop_stable (rules : List (Rule α τ)) (n first second : Nat)
    (input : List α) (bound : input.length ≤ n) (low : input.length ≤ first)
    (high : input.length ≤ second) : scanLoop rules first input = scanLoop rules second input := by
  induction n generalizing first second input with
  | zero =>
      have empty : input = [] := List.eq_nil_of_length_eq_zero (by omega)
      subst empty
      cases first <;> cases second <;> rfl
  | succ n ih =>
      cases input with
      | nil => cases first <;> cases second <;> rfl
      | cons a input =>
          simp only [List.length_cons] at bound low high
          obtain ⟨first, rfl⟩ : ∃ k, first = k + 1 := ⟨first - 1, by omega⟩
          obtain ⟨second, rfl⟩ : ∃ k, second = k + 1 := ⟨second - 1, by omega⟩
          have rest (k : Nat) : scanLoop rules first (input.drop k) =
              scanLoop rules second (input.drop k) := by
            have shorter : (input.drop k).length ≤ input.length := by simp
            exact ih first second (input.drop k) (by omega) (by omega) (by omega)
          have tail := ih first second input (by omega) (by omega) (by omega)
          simp only [scanLoop, rest, tail]

theorem scanLoop_fuel (rules : List (Rule α τ)) (fuel : Nat) (input : List α)
    (enough : input.length ≤ fuel) : scanLoop rules fuel input = scan rules input :=
  scanLoop_stable rules fuel fuel input.length input enough enough (Nat.le_refl _)

@[simp] theorem scan_nil (rules : List (Rule α τ)) : scan rules [] = ⟨[], []⟩ := rfl

theorem scan_match (rules : List (Rule α τ)) (text rest : List α) (rule : Rule α τ)
    (nonempty : text ≠ [])
    (wins : best rules (text ++ rest) = some (text.length, rule)) :
    scan rules (text ++ rest) = (scan rules rest).token (rule.action text) := by
  cases text with
  | nil => exact absurd rfl nonempty
  | cons a text =>
      have enough : rest.length ≤ text.length + rest.length := by omega
      simp only [List.cons_append, List.length_cons] at wins
      simp only [scan, List.cons_append, List.length_cons, List.length_append, scanLoop, wins,
        List.drop_left, List.take_left]
      rw [scanLoop_fuel rules _ rest enough, scan]

theorem scan_echo (rules : List (Rule α τ)) (a : α) (rest : List α)
    (nothing : ∀ n rule, best rules (a :: rest) ≠ some (n + 1, rule)) :
    scan rules (a :: rest) = (scan rules rest).echo a := by
  rw [scan, List.length_cons, scanLoop]
  split
  · next n rule wins => exact absurd wins (nothing n rule)
  · rfl

end Liso.Flex
