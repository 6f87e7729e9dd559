import Calculator.Grammar

namespace Calculator

/-- What is due at a place of a line. -/
inductive Turn where
  | line
  | operand
  | trailer
deriving DecidableEq, Repr

namespace Turn

/-- How an operator is read: before an operand where one is due, or else between operands if it may
stand there. At the start of a line it may also continue the last result. -/
def position (table : OperatorTable) (turn : Turn) (symbol : String) : Position :=
  match turn with
  | line => if table.supports symbol .before then .before else .between
  | operand => .before
  | trailer => if table.supports symbol .between then .between else .after

/-- An operand is due behind an opening parenthesis, a comma and an operator that is not read after
its operand. -/
def next (table : OperatorTable) (turn : Turn) (token : Token) : Turn :=
  match token.kind with
  | .number | .name | .closeParen => trailer
  | .openParen | .comma => operand
  | .operator => if turn.position table token.text = .after then trailer else operand

/-- What is due behind these tokens at the start of a line. -/
def behind (table : OperatorTable) (tokens : List Token) : Turn :=
  tokens.foldl (next table) line

@[simp] theorem behind_nil (table : OperatorTable) : behind table [] = line := rfl

theorem behind_append (table : OperatorTable) (xs ys : List Token) :
    behind table (xs ++ ys) = ys.foldl (next table) (behind table xs) :=
  List.foldl_append

@[simp] theorem behind_concat (table : OperatorTable) (front : List Token) (token : Token) :
    behind table (front ++ [token]) = (behind table front).next table token :=
  behind_append table front [token]

end Turn

/-- How many parentheses are open behind these tokens. -/
def Token.unclosed (tokens : List Token) : Nat :=
  tokens.countP (·.kind = .openParen) - tokens.countP (·.kind = .closeParen)

end Calculator
