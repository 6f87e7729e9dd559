import Mathlib.Data.Nat.Notation

namespace Calculator.Loop

variable {State Result : Type}

/-- What a loop comes to, if it ends within so many passes. -/
def within (pass : State → State ⊕ Result) : ℕ → State → Option Result
  | 0, _ => none
  | n + 1, s =>
    match pass s with
    | .inl s' => within pass n s'
    | .inr r => some r

/-- Every pass ends with the outcome of its state, or goes on to one with this outcome that costs
less. -/
def Respects (pass : State → State ⊕ Result) (outcome : State → Result) (cost : State → ℕ) : Prop :=
  ∀ s, match pass s with
    | .inl s' => outcome s' = outcome s ∧ cost s' < cost s
    | .inr r => outcome s = r

theorem within_of_respects {pass : State → State ⊕ Result} {outcome : State → Result}
    {cost : State → ℕ} (h : Respects pass outcome cost) {n : ℕ} {s : State} (enough : cost s < n) :
    within pass n s = some (outcome s) := by
  induction n generalizing s with
  | zero => exact absurd enough (Nat.not_lt_zero _)
  | succ n ih =>
    have one := h s
    rw [within]
    cases found : pass s with
    | inl s' =>
      rw [found] at one
      obtain ⟨same, less⟩ := one
      rw [← same]
      exact ih (Nat.lt_of_lt_of_le less (Nat.le_of_lt_succ enough))
    | inr r =>
      rw [found] at one
      exact congrArg some one.symm

end Calculator.Loop
