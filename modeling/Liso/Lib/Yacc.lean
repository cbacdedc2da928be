import Mathlib.Algebra.Group.Nat.Defs
import Mathlib.Data.List.Basic

/-! LALR(1) parser tables as yacc builds them, and the shift-reduce machine that
runs them. Sets of terminals are bit masks. -/

namespace Liso.Yacc

inductive Sym
  | term (t : Nat)
  | non (n : Nat)
  deriving DecidableEq, Repr

structure Rule where
  lhs : Nat
  rhs : List Sym
  deriving DecidableEq, Repr

/-- Terminal 0 is the end of input and rule 0 is `$accept: start $end`. -/
structure Grammar where
  terminals : Nat
  nonterminals : Nat
  rules : List Rule

def Grammar.rule (g : Grammar) (r : Nat) : Rule := g.rules.getD r ⟨0, []⟩

def Grammar.symbols (g : Grammar) : List Sym :=
  (List.range g.terminals).map .term ++ (List.range g.nonterminals).map .non

def fixpoint {α : Type} [DecidableEq α] (f : α → α) : Nat → α → α
  | 0, a => a
  | fuel + 1, a =>
      let next := f a
      if next = a then a else fixpoint f fuel next

/-! FIRST sets. The bit `g.terminals` marks a nonterminal that derives the empty string. -/

def seqFirst (g : Grammar) (first : List Nat) : List Sym → Nat → Nat
  | [], follow => follow
  | .term t :: _, _ => 2 ^ t
  | .non n :: rest, follow =>
      let here := first.getD n 0
      if here.testBit g.terminals then
        (here - 2 ^ g.terminals) ||| seqFirst g first rest follow
      else here

def firstPass (g : Grammar) (first : List Nat) : List Nat :=
  g.rules.foldl (fun acc r =>
    acc.set r.lhs (acc.getD r.lhs 0 ||| seqFirst g acc r.rhs (2 ^ g.terminals))) first

def firsts (g : Grammar) : List Nat :=
  fixpoint (firstPass g) (g.nonterminals + 1) (List.replicate g.nonterminals 0)

/-! LALR(1) item sets: states with the same core are one state, their lookaheads joined. -/

/-- Rule `rule` with the dot before position `dot`, and the lookaheads of its reduction. -/
structure Item where
  rule : Nat
  dot : Nat
  look : Nat
  deriving DecidableEq, Repr

def Item.next (g : Grammar) (i : Item) : Option Sym := (g.rule i.rule).rhs[i.dot]?

def addItem (new : Item) : List Item → List Item
  | [] => [new]
  | old :: rest =>
      if old.rule = new.rule then
        if old.dot = new.dot then { old with look := old.look ||| new.look } :: rest
        else if new.dot < old.dot then new :: old :: rest
        else old :: addItem new rest
      else if new.rule < old.rule then new :: old :: rest
      else old :: addItem new rest

def predict (g : Grammar) (n look : Nat) : Nat → List Rule → List Item → List Item
  | _, [], items => items
  | r, rule :: rest, items =>
      predict g n look (r + 1) rest (if rule.lhs = n then addItem ⟨r, 0, look⟩ items else items)

def closurePass (g : Grammar) (first : List Nat) (items : List Item) : List Item :=
  items.foldl (fun acc i =>
    match (g.rule i.rule).rhs.drop i.dot with
    | .non n :: rest => predict g n (seqFirst g first rest i.look) 0 g.rules acc
    | _ => acc) items

def closure (g : Grammar) (first : List Nat) (kernel : List Item) : List Item :=
  fixpoint (closurePass g first) (g.nonterminals + 1) kernel

def goto (g : Grammar) (items : List Item) (x : Sym) : List Item :=
  items.foldl (fun acc i =>
    if i.next g = some x then addItem { i with dot := i.dot + 1 } acc else acc) []

def sameCore : List Item → List Item → Bool
  | [], [] => true
  | i :: is, j :: js => i.rule == j.rule && i.dot == j.dot && sameCore is js
  | _, _ => false

def addState (kernel : List Item) : List (List Item) → List (List Item)
  | [] => [kernel]
  | old :: rest =>
      if sameCore old kernel then
        List.zipWith (fun i j => { i with look := i.look ||| j.look }) old kernel :: rest
      else old :: addState kernel rest

def expandFrom (g : Grammar) (first : List Nat) : Nat → Nat → List (List Item) → List (List Item)
  | 0, _, states => states
  | fuel + 1, s, states =>
      match states[s]? with
      | none => states
      | some kernel =>
          let items := closure g first kernel
          expandFrom g first fuel (s + 1) (g.symbols.foldl (fun states x =>
            match goto g items x with
            | [] => states
            | next => addState next states) states)

def states (g : Grammar) (bound : Nat) : List (List Item) :=
  fixpoint (expandFrom g (firsts g) bound 0) bound [[⟨0, 0, 0⟩]]

/-! Tables. A conflict between a shift and a reduction is a shift, one between
two reductions is the earlier rule. -/

inductive Action
  | error
  | shift (state : Nat)
  | reduce (rule : Nat)
  | accept
  deriving DecidableEq, Repr

structure Row where
  actions : List Action
  gotos : List (Option Nat)
  /-- The one reduction of a state that can do nothing else: it needs no lookahead. -/
  default : Option Nat
  deriving DecidableEq, Repr

def findState (states : List (List Item)) (kernel : List Item) : Option Nat :=
  match kernel with
  | [] => none
  | _ => states.findIdx? (sameCore kernel)

def completed (g : Grammar) (items : List Item) : List Item :=
  items.filter fun i => i.next g = none

def action (g : Grammar) (states : List (List Item)) (items : List Item) (t : Nat) : Action :=
  match findState states (goto g items (.term t)) with
  | some s => if t = 0 then .accept else .shift s
  | none =>
      match (completed g items).find? fun i => i.look.testBit t with
      | some i => .reduce i.rule
      | none => .error

def row (g : Grammar) (states : List (List Item)) (kernel : List Item) : Row :=
  let items := closure g (firsts g) kernel
  { actions := (List.range g.terminals).map (action g states items)
    gotos := (List.range g.nonterminals).map fun n => findState states (goto g items (.non n))
    default :=
      if g.symbols.any fun x => x matches .term _ && goto g items x ≠ [] then none
      else
        match completed g items with
        | [i] => if i.rule = 0 then none else some i.rule
        | _ => none }

def tables (g : Grammar) (bound : Nat) : List Row :=
  let states := states g bound
  states.map (row g states)

/-! The machine. A semantic action yields the value of its left-hand side,
returns from the parser, or faults; `υ` is the state the actions work on. -/

variable {ν υ ε : Type}

inductive Effect (ν υ ε : Type)
  | value (v : ν) (u : υ)
  | finish (u : υ)
  | fault (e : ε)

inductive Outcome (ν υ ε : Type)
  | shifted (stack : List (Nat × ν)) (u : υ)
  | finished (u : υ)
  | rejected
  | fault (e : ε)
  | exhausted

structure Parser (ν υ ε : Type) where
  rows : List Row
  rules : List Rule
  act : Nat → List ν → υ → Effect ν υ ε
  /-- Bound on the reductions between two shifts. -/
  depth : Nat

namespace Parser

def row (p : Parser ν υ ε) : List (Nat × ν) → Row
  | [] => p.rows.getD 0 ⟨[], [], none⟩
  | (s, _) :: _ => p.rows.getD s ⟨[], [], none⟩

def reduce (p : Parser ν υ ε) (r : Nat) (stack : List (Nat × ν)) (u : υ) : Outcome ν υ ε :=
  let rule := p.rules.getD r ⟨0, []⟩
  let rest := stack.drop rule.rhs.length
  match p.act r ((stack.take rule.rhs.length).reverse.map Prod.snd) u with
  | .finish u => .finished u
  | .fault e => .fault e
  | .value v u =>
      match (p.row rest).gotos.getD rule.lhs none with
      | some s => .shifted ((s, v) :: rest) u
      | none => .rejected

def args (p : Parser ν υ ε) (r : Nat) (stack : List (Nat × ν)) : List ν :=
  (stack.take (p.rules.getD r ⟨0, []⟩).rhs.length).reverse.map Prod.snd

theorem reduce_fault (p : Parser ν υ ε) (r : Nat) (stack : List (Nat × ν)) (u : υ) (e : ε)
    (acted : p.act r (p.args r stack) u = .fault e) : p.reduce r stack u = .fault e := by
  rw [args] at acted
  simp only [reduce, acted]

theorem reduce_value (p : Parser ν υ ε) (r s : Nat) (stack rest : List (Nat × ν)) (u next : υ)
    (v : ν) (acted : p.act r (p.args r stack) u = .value v next)
    (popped : stack.drop (p.rules.getD r ⟨0, []⟩).rhs.length = rest)
    (goes : (p.row rest).gotos.getD (p.rules.getD r ⟨0, []⟩).lhs none = some s) :
    p.reduce r stack u = .shifted ((s, v) :: rest) next := by
  rw [args] at acted
  simp only [reduce, acted, popped, goes]

/-- The reductions that need no lookahead. -/
def settle (p : Parser ν υ ε) : Nat → List (Nat × ν) → υ → Outcome ν υ ε
  | 0, _, _ => .exhausted
  | fuel + 1, stack, u =>
      match (p.row stack).default with
      | none => .shifted stack u
      | some r =>
          match p.reduce r stack u with
          | .shifted stack u => settle p fuel stack u
          | other => other

theorem settle_default (p : Parser ν υ ε) (fuel r : Nat) (stack : List (Nat × ν)) (u : υ)
    (only : (p.row stack).default = some r) :
    p.settle (fuel + 1) stack u =
      match p.reduce r stack u with
      | .shifted stack u => p.settle fuel stack u
      | other => other := by
  simp only [settle, only]

def consume (p : Parser ν υ ε) (t : Nat) (v : ν) : Nat → List (Nat × ν) → υ → Outcome ν υ ε
  | 0, _, _ => .exhausted
  | fuel + 1, stack, u =>
      match (p.row stack).actions.getD t .error with
      | .error => .rejected
      | .accept => .finished u
      | .shift s => p.settle fuel ((s, v) :: stack) u
      | .reduce r =>
          match p.reduce r stack u with
          | .shifted stack u =>
              match p.settle fuel stack u with
              | .shifted stack u => consume p t v fuel stack u
              | other => other
          | other => other

def run (p : Parser ν υ ε) (eof : ν) : List (Nat × ν) → List (Nat × ν) → υ → Outcome ν υ ε
  | [], stack, u => p.consume 0 eof p.depth stack u
  | (t, v) :: rest, stack, u =>
      match p.consume t v p.depth stack u with
      | .shifted stack u => run p eof rest stack u
      | other => other

/-! Faults: only the actions have them. -/

section Faults

variable {p : Parser ν υ ε} {allowed : ε → Prop}

def ActsWithin (p : Parser ν υ ε) (allowed : ε → Prop) : Prop :=
  ∀ r args u fault, p.act r args u = .fault fault → allowed fault

theorem reduce_within (acts : p.ActsWithin allowed) {r : Nat} {stack : List (Nat × ν)} {u : υ}
    {fault : ε} (reduced : p.reduce r stack u = .fault fault) : allowed fault := by
  unfold reduce at reduced
  dsimp only at reduced
  split at reduced
  · cases reduced
  · next acted =>
      cases reduced
      exact acts _ _ _ _ acted
  · split at reduced <;> cases reduced

theorem settle_within (acts : p.ActsWithin allowed) {fuel : Nat} {stack : List (Nat × ν)} {u : υ}
    {fault : ε} (settled : p.settle fuel stack u = .fault fault) : allowed fault := by
  induction fuel generalizing stack u with
  | zero => cases settled
  | succ fuel ih =>
      rw [settle] at settled
      split at settled
      · cases settled
      · split at settled
        · exact ih settled
        · exact reduce_within acts settled

theorem consume_within (acts : p.ActsWithin allowed) {t fuel : Nat} {v : ν}
    {stack : List (Nat × ν)} {u : υ} {fault : ε}
    (consumed : p.consume t v fuel stack u = .fault fault) : allowed fault := by
  induction fuel generalizing stack u with
  | zero => cases consumed
  | succ fuel ih =>
      rw [consume] at consumed
      split at consumed
      · cases consumed
      · cases consumed
      · exact settle_within acts consumed
      · split at consumed
        · split at consumed
          · exact ih consumed
          · exact settle_within acts consumed
        · exact reduce_within acts consumed

theorem run_within (acts : p.ActsWithin allowed) {eof : ν} {tokens stack : List (Nat × ν)} {u : υ}
    {fault : ε} (ran : p.run eof tokens stack u = .fault fault) : allowed fault := by
  induction tokens generalizing stack u with
  | nil => exact consume_within acts ran
  | cons token rest ih =>
      obtain ⟨t, v⟩ := token
      rw [run] at ran
      split at ran
      · exact ih ran
      · exact consume_within acts ran

end Faults

end Parser

end Liso.Yacc
