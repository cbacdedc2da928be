import Mathlib.Algebra.Order.Group.Multiset

/-! Resources that are acquired and released: what is held after a list of operations,
whatever else is held meanwhile. -/

namespace Liso.Holdings

variable {α : Type} [DecidableEq α]

inductive Op (α : Type)
  | acquire (a : α)
  | release (a : α)

def step (held : Multiset α) : Op α → Multiset α
  | .acquire a => a ::ₘ held
  | .release a => held.erase a

def run (ops : List (Op α)) (held : Multiset α) : Multiset α := ops.foldl step held

theorem run_append (front back : List (Op α)) (held : Multiset α) :
    run (front ++ back) held = run back (run front held) :=
  List.foldl_append

/-- The operations turn `before` into `after` and leave the rest of what is held alone. -/
def Leads (ops : List (Op α)) (before after : Multiset α) : Prop :=
  ∀ rest, run ops (before + rest) = after + rest

namespace Leads

variable {front back ops : List (Op α)} {before middle after : Multiset α}

theorem refl (held : Multiset α) : Leads [] held held := fun _ => rfl

theorem trans (first : Leads front before middle) (second : Leads back middle after) :
    Leads (front ++ back) before after := by
  intro rest
  rw [run_append, first, second]

theorem acquire (a : α) (held : Multiset α) : Leads [.acquire a] held (a ::ₘ held) := by
  intro rest
  exact (Multiset.cons_add a held rest).symm

theorem release (a : α) (held : Multiset α) : Leads [.release a] (a ::ₘ held) held := by
  intro rest
  change ((a ::ₘ held) + rest).erase a = held + rest
  rw [Multiset.cons_add, Multiset.erase_cons_head]

theorem both (a : α) (held : Multiset α) : Leads [.acquire a, .release a] held held :=
  (acquire a held).trans (release a held)

theorem frame (leads : Leads ops before after) (other : Multiset α) :
    Leads ops (before + other) (after + other) := by
  intro rest
  rw [add_assoc, leads, add_assoc]

theorem frame_left (leads : Leads ops before after) (other : Multiset α) :
    Leads ops (other + before) (other + after) := by
  rw [add_comm other, add_comm other]
  exact leads.frame other

theorem run_eq (leads : Leads ops before after) : run ops before = after := by
  have alone := leads 0
  rwa [add_zero, add_zero] at alone

end Leads

end Liso.Holdings
