import Mathlib.Order.WellFounded

/-! Endless runs: what comes about in time when a rank falls again and again. -/

namespace Liso.Endless

variable {σ ρ : Type}

def Recurs (p : Nat → Prop) : Prop := ∀ n, ∃ m, n ≤ m ∧ p m

def Eventually (start : Nat) (p : Nat → Prop) : Prop := ∃ n, start ≤ n ∧ p n

def Always (start : Nat) (p : Nat → Prop) : Prop := ∀ n, start ≤ n → p n

theorem Always.of_step {start : Nat} {p : Nat → Prop} (holds : p start)
    (keeps : ∀ n, start ≤ n → p n → p (n + 1)) : Always start p := by
  intro n after
  induction n, after using Nat.le_induction with
  | base => exact holds
  | succ n after ih => exact keeps n after ih

variable [PartialOrder ρ] [WellFoundedLT ρ]

/-- A rank that never rises up to the goal, and falls whenever the run is `served` and does not
wait, leads to the goal, or to waiting without end. Whether it waits can be told from the rank. -/
theorem eventually_or_waits {start : Nat} {rank : Nat → ρ} {goal served : Nat → Prop}
    {waits : ρ → Prop} (often : Recurs served)
    (keeps : ∀ n, start ≤ n → ¬ goal n → goal (n + 1) ∨ rank (n + 1) ≤ rank n)
    (falls : ∀ n, start ≤ n → ¬ goal n → served n → ¬ waits (rank n) →
      goal (n + 1) ∨ rank (n + 1) < rank n) :
    Eventually start goal ∨ Eventually start fun n => Always n fun m => waits (rank m) := by
  suffices main : ∀ r n, start ≤ n → rank n = r →
      Eventually n goal ∨ Eventually n fun n => Always n fun m => waits (rank m) by
    exact main _ start (Nat.le_refl start) rfl
  intro r
  induction r using WellFoundedLT.induction with
  | ind r ih =>
      intro n after same
      by_cases lower : ∃ m, n ≤ m ∧ (goal m ∨ rank m < r)
      · obtain ⟨m, onward, reached | fallen⟩ := lower
        · exact .inl ⟨m, onward, reached⟩
        · rcases ih _ fallen m (after.trans onward) rfl with
            ⟨k, further, reached⟩ | ⟨k, further, stuck⟩
          · exact .inl ⟨k, onward.trans further, reached⟩
          · exact .inr ⟨k, onward.trans further, stuck⟩
      · -- the rank stays as it is from now on
        have missed (m : Nat) (onward : n ≤ m) : ¬ goal m := fun reached =>
          lower ⟨m, onward, .inl reached⟩
        have stays : Always n fun m => rank m = r := by
          refine .of_step same fun m onward here => ?_
          rcases keeps m (after.trans onward) (missed m onward) with reached | below
          · exact absurd reached (missed (m + 1) (onward.trans (Nat.le_succ m)))
          · rw [here] at below
            rcases below.lt_or_eq with fallen | level
            · exact absurd ⟨m + 1, onward.trans (Nat.le_succ m), .inr fallen⟩ lower
            · exact level
        by_cases stuck : waits r
        · refine .inr ⟨n, Nat.le_refl n, fun m onward => ?_⟩
          change waits (rank m)
          rw [stays m onward]
          exact stuck
        · obtain ⟨m, onward, serve⟩ := often n
          have free : ¬ waits (rank m) := by
            rw [stays m onward]
            exact stuck
          rcases falls m (after.trans onward) (missed m onward) serve free with reached | fallen
          · exact absurd reached (missed (m + 1) (onward.trans (Nat.le_succ m)))
          · rw [stays m onward] at fallen
            exact absurd ⟨m + 1, onward.trans (Nat.le_succ m), .inr fallen⟩ lower

theorem eventually_of_falls {start : Nat} {rank : Nat → ρ} {goal served : Nat → Prop}
    (often : Recurs served)
    (keeps : ∀ n, start ≤ n → ¬ goal n → goal (n + 1) ∨ rank (n + 1) ≤ rank n)
    (falls : ∀ n, start ≤ n → ¬ goal n → served n → goal (n + 1) ∨ rank (n + 1) < rank n) :
    Eventually start goal := by
  have outcome := @eventually_or_waits _ _ _ _ rank goal served (fun _ => False) often keeps
    fun n after missed serve _ => falls n after missed serve
  rcases outcome with comes | ⟨n, _, stuck⟩
  · exact comes
  · exact absurd (stuck n (Nat.le_refl n)) id

end Liso.Endless
