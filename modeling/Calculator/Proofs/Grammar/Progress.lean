import Calculator.Grammar
import Mathlib.Logic.Relation

namespace Calculator

namespace Rule

mutual

/-- In front of a token of this class a rule is replaced by nothing, step by step. -/
inductive Vanishes (l : Lookahead) : Rule → Prop
  | intro {rule : Rule} {body : List Symbol} (replaced : rule.body? l = some body)
    (all : VanishesAll l body) : Vanishes l rule

inductive VanishesAll (l : Lookahead) : List Symbol → Prop
  | nil : VanishesAll l []
  | cons {rule : Rule} {body : List Symbol} (first : Vanishes l rule)
    (later : VanishesAll l body) : VanishesAll l (.rule rule :: body)

end

/-- In front of a token of this class a rule goes on with another before anything takes the token. -/
def LeadsTo (l : Lookahead) (rule next : Rule) : Prop :=
  ∃ front back, rule.body? l = some (front ++ .rule next :: back) ∧ VanishesAll l front

variable {l : Lookahead} {rule next : Rule} {body : List Symbol}

/-- Expressions and calls begin with a token. -/
theorem exists_terminal (tight : rule = .expression ∨ rule = .call)
    (replaced : rule.body? l = some body) : ∃ t rest, body = .terminal t :: rest := by
  rcases tight with rfl | rfl
  all_goals
    unfold body? at replaced
    repeat' split at replaced
    all_goals first
      | contradiction
      | cases replaced; exact ⟨_, _, rfl⟩

theorem not_vanishes (tight : rule = .expression ∨ rule = .call) : ¬ Vanishes l rule := by
  rintro ⟨replaced, all⟩
  obtain ⟨t, rest, rfl⟩ := exists_terminal tight replaced
  cases all

/-- Expressions and calls are below the rules that may begin with one. -/
def level : Rule → Nat
  | .expression | .call => 0
  | _ => 1

/-- A body that begins with a rule begins with an expression or a call. -/
theorem tight_of_body (replaced : rule.body? l = some (.rule next :: body)) :
    (next = .expression ∨ next = .call) ∧ next.level < rule.level := by
  unfold body? at replaced
  repeat' split at replaced
  all_goals cases replaced
  all_goals simp [level]

theorem level_of_leadsTo (h : LeadsTo l rule next) : next.level < rule.level := by
  obtain ⟨front, back, replaced, vanishing⟩ := h
  cases vanishing with
  | nil => exact (tight_of_body replaced).2
  | cons first later => exact absurd first (not_vanishes (tight_of_body replaced).1)

/-- There is no left recursion, and no cycle of rules around parts that vanish. -/
theorem not_leadsTo_self : ¬ Relation.TransGen (LeadsTo l) rule rule := by
  intro cycle
  have lower : ∀ {a b : Rule}, Relation.TransGen (LeadsTo l) a b → b.level < a.level := by
    intro a b steps
    induction steps with
    | single step => exact level_of_leadsTo step
    | tail _ step ih => exact Nat.lt_trans (level_of_leadsTo step) ih
  exact Nat.lt_irrefl _ (lower cycle)

end Rule

end Calculator
