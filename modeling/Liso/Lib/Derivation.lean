import Mathlib.Computability.ContextFreeGrammar
import Liso.Lib.Yacc

/-! Words of a context-free grammar, derived from the left to the right rather than
one rewrite at a time, and the language of a grammar given to yacc. -/

namespace Liso

section Yields

variable {T : Type}

/-- `w` is what the symbols of `u`, one after the other, stand for. -/
inductive Yields (g : ContextFreeGrammar T) : List (Symbol T g.NT) → List T → Prop
  | nil : Yields g [] []
  | terminal (t : T) {u : List (Symbol T g.NT)} {w : List T} (rest : Yields g u w) :
      Yields g (.terminal t :: u) (t :: w)
  | nonterminal (r : ContextFreeRule T g.NT) (mem : r ∈ g.rules) {u : List (Symbol T g.NT)}
      {v w : List T} (output : Yields g r.output v) (rest : Yields g u w) :
      Yields g (.nonterminal r.input :: u) (v ++ w)

variable {g : ContextFreeGrammar T}

theorem Yields.append {u u' : List (Symbol T g.NT)} {w w' : List T} (first : Yields g u w)
    (second : Yields g u' w') : Yields g (u ++ u') (w ++ w') := by
  induction first with
  | nil => exact second
  | terminal t _ ih => exact .terminal t ih
  | nonterminal r mem output _ _ ih =>
      rw [List.append_assoc]
      exact .nonterminal r mem output ih

theorem Yields.split {u u' : List (Symbol T g.NT)} {w : List T} (whole : Yields g (u ++ u') w) :
    ∃ front back, w = front ++ back ∧ Yields g u front ∧ Yields g u' back := by
  induction u generalizing w with
  | nil => exact ⟨[], w, rfl, .nil, whole⟩
  | cons _ u ih =>
      cases whole with
      | terminal t rest =>
          obtain ⟨front, back, rfl, first, second⟩ := ih rest
          exact ⟨t :: front, back, rfl, .terminal t first, second⟩
      | nonterminal r mem output rest =>
          obtain ⟨front, back, rfl, first, second⟩ := ih rest
          exact ⟨_, back, (List.append_assoc ..).symm, .nonterminal r mem output first, second⟩

theorem Yields.word (w : List T) : Yields g (w.map .terminal) w := by
  induction w with
  | nil => exact .nil
  | cons t w ih => exact .terminal t ih

theorem Yields.produces {u v : List (Symbol T g.NT)} {w : List T} (step : g.Produces u v)
    (yields : Yields g v w) : Yields g u w := by
  obtain ⟨r, mem, rewrites⟩ := step
  obtain ⟨before, after, rfl, rfl⟩ := rewrites.exists_parts
  obtain ⟨front, back, rfl, first, second⟩ := yields.split
  obtain ⟨start, inner, rfl, left, output⟩ := first.split
  have tree : Yields g [.nonterminal r.input] inner := by
    simpa using Yields.nonterminal r mem output .nil
  exact (left.append tree).append second

theorem Yields.derives {u : List (Symbol T g.NT)} {w : List T} (yields : Yields g u w) :
    g.Derives u (w.map .terminal) := by
  induction yields with
  | nil => exact .refl _
  | terminal t _ ih => exact ih.append_left [.terminal t]
  | @nonterminal r mem u v w _ _ output rest =>
      have opened : g.Produces (.nonterminal r.input :: u) (r.output ++ u) :=
        ⟨r, mem, .head u⟩
      rw [List.map_append]
      exact (opened.trans_derives (output.append_right u)).trans (rest.append_left _)

theorem yields_iff_derives {u : List (Symbol T g.NT)} {w : List T} :
    Yields g u w ↔ g.Derives u (w.map .terminal) := by
  refine ⟨Yields.derives, fun derives => ?_⟩
  induction derives using Relation.ReflTransGen.head_induction_on with
  | refl => exact .word w
  | head step _ ih => exact ih.produces step

theorem mem_language_yields {w : List T} :
    w ∈ g.language ↔ Yields g [.nonterminal g.initial] w := by
  rw [ContextFreeGrammar.mem_language_iff, yields_iff_derives]

/-! A meaning of the nonterminals. The letters of a word may be of a richer type than the
terminals they are read as. -/

variable {α : Type} {N : Type}

/-- `ls` reads as the symbols of `u`, where `P` says what reads as a nonterminal. -/
def Spells (code : α → T) (P : N → List α → Prop) : List (Symbol T N) → List α → Prop
  | [], ls => ls = []
  | .terminal t :: u, ls => ∃ l rest, ls = l :: rest ∧ code l = t ∧ Spells code P u rest
  | .nonterminal n :: u, ls => ∃ front rest, ls = front ++ rest ∧ P n front ∧ Spells code P u rest

/-- A meaning that every rule keeps to holds of every word of the grammar. -/
theorem Yields.spells {code : α → T} {P : g.NT → List α → Prop}
    (closed : ∀ r ∈ g.rules, ∀ ls, Spells code P r.output ls → P r.input ls)
    {u : List (Symbol T g.NT)} {w : List T} (yields : Yields g u w) (ls : List α)
    (read : ls.map code = w) : Spells code P u ls := by
  induction yields generalizing ls with
  | nil => exact List.map_eq_nil_iff.1 read
  | terminal t _ ih =>
      obtain ⟨l, rest, rfl, letter, later⟩ := List.map_eq_cons_iff.1 read
      exact ⟨l, rest, rfl, letter, ih rest later⟩
  | nonterminal r mem _ _ output rest =>
      obtain ⟨front, back, rfl, first, second⟩ := List.map_eq_append_iff.1 read
      exact ⟨front, back, rfl, closed r mem front (output front first), rest back second⟩

theorem Spells.yields {code : α → T} {P : g.NT → List α → Prop}
    (derived : ∀ n ls, P n ls → Yields g [.nonterminal n] (ls.map code))
    {u : List (Symbol T g.NT)} {ls : List α} (spells : Spells code P u ls) :
    Yields g u (ls.map code) := by
  induction u generalizing ls with
  | nil =>
      cases spells
      exact .nil
  | cons symbol u ih =>
      cases symbol with
      | terminal t =>
          obtain ⟨l, rest, rfl, rfl, later⟩ := spells
          exact .terminal (code l) (ih later)
      | nonterminal n =>
          obtain ⟨front, rest, rfl, first, later⟩ := spells
          rw [List.map_append]
          exact (derived n front first).append (ih later)

theorem Yields.rule {r : ContextFreeRule T g.NT} (mem : r ∈ g.rules) {w : List T}
    (output : Yields g r.output w) : Yields g [.nonterminal r.input] w := by
  simpa using Yields.nonterminal r mem output .nil

end Yields

namespace Yacc

def Sym.symbol : Sym → Symbol Nat Nat
  | .term t => .terminal t
  | .non n => .nonterminal n

def Rule.production (r : Rule) : ContextFreeRule Nat Nat := ⟨r.lhs, r.rhs.map Sym.symbol⟩

/-- The sentences of nonterminal `start`, whatever conflicts the tables resolve. -/
def Grammar.cfg (g : Grammar) (start : Nat) : ContextFreeGrammar Nat where
  NT := Nat
  initial := start
  rules := (g.rules.map Rule.production).toFinset

theorem Grammar.mem_cfg (g : Grammar) (start : Nat) (r : ContextFreeRule Nat Nat) :
    r ∈ (g.cfg start).rules ↔ ∃ rule ∈ g.rules, rule.production = r := by
  change r ∈ (g.rules.map Rule.production).toFinset ↔ _
  rw [List.mem_toFinset, List.mem_map]

end Yacc

end Liso
