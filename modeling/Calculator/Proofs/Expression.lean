import Calculator.Item
import Calculator.Proofs.Operator

namespace Calculator

inductive Expression (table : OperatorTable) where
  | literal (n : Number)
  | name (x : String)
  | group (inner : Expression table)
  | before (d : table.Placed .before) (operand : Expression table)
  | after (d : table.Placed .after) (operand : Expression table)
  | between (d : table.Placed .between) (left right : Expression table)
  | call (callee : Expression table) (args : List (Expression table))

namespace Item

/-- Sequences with a comma between any two. -/
def listed : List (List Item) → List Item
  | [] => []
  | items :: later => items ++ later.flatMap (.comma :: ·)

/-- No operator after an operand has a call right behind it. -/
def Apart (items : List Item) : Prop :=
  ∀ (d : Operator) (arity : Nat), d.position = .after →
    ¬ [.operator d, .call arity] <:+: items

end Item

namespace Expression

variable {table : OperatorTable}

mutual

/-- The items of a tree in the order of the source. -/
def source : Expression table → List Item
  | literal n => [.literal n]
  | name x => [.name x]
  | group inner => .openParen :: inner.source ++ [.closeParen]
  | before d operand => .operator d :: operand.source
  | after d operand => operand.source ++ [.operator d]
  | between d left right => left.source ++ .operator d :: right.source
  | call callee args =>
    callee.source ++ .call args.length :: Item.listed (sourceAll args) ++ [.closeParen]

def sourceAll : List (Expression table) → List (List Item)
  | [] => []
  | e :: es => e.source :: sourceAll es

end

mutual

/-- The items of a tree with each operator behind its operands and each call behind its callee and
arguments. -/
def postorder : Expression table → List Item
  | literal n => [.literal n]
  | name x => [.name x]
  | group inner => inner.postorder
  | before d operand => operand.postorder ++ [.operator d]
  | after d operand => operand.postorder ++ [.operator d]
  | between d left right => left.postorder ++ right.postorder ++ [.operator d]
  | call callee args => callee.postorder ++ postorderAll args ++ [.call args.length]

def postorderAll : List (Expression table) → List Item
  | [] => []
  | e :: es => e.postorder ++ postorderAll es

end

/-- The precedence of an operator between operands that no parentheses enclose. -/
def precedence? : Expression table → Option Nat
  | between d _ _ => some d.val.precedence
  | _ => none

/-- What an operator after it or a call may apply to. -/
def Tight : Expression table → Prop
  | before _ _ | between _ _ _ => False
  | _ => True

mutual

/-- Operators between operands group by precedence and to the left; those before or after an
operand bind tighter. -/
def WellGrouped : Expression table → Prop
  | literal _ | name _ => True
  | group inner => inner.WellGrouped
  | before _ operand => operand.precedence? = none ∧ operand.WellGrouped
  | after _ operand => operand.Tight ∧ operand.WellGrouped
  | between d left right =>
    (∀ p ∈ left.precedence?, d.val.precedence ≤ p) ∧
      (∀ p ∈ right.precedence?, d.val.precedence < p) ∧ left.WellGrouped ∧ right.WellGrouped
  | call callee args => callee.Tight ∧ callee.WellGrouped ∧ AllWellGrouped args

def AllWellGrouped : List (Expression table) → Prop
  | [] => True
  | e :: es => e.WellGrouped ∧ AllWellGrouped es

end

theorem precedence?_eq_none_of_tight {e : Expression table} (h : e.Tight) :
    e.precedence? = none := by
  cases e <;> first | rfl | exact h.elim

end Expression

end Calculator
