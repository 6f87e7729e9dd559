namespace Calculator

/-- Where an operator stands, seen from its operands. -/
inductive Position where
  | before
  | between
  | after
deriving DecidableEq, Repr

def Position.text : Position → String
  | .before => "prefix"
  | .between => "infix"
  | .after => "postfix"

inductive Comparison where
  | equal
  | notEqual
  | less
  | greater
  | lessEqual
  | greaterEqual
deriving DecidableEq, Repr

inductive Unary where
  | negate
  | not
  | factorial
deriving DecidableEq, Repr

inductive Binary where
  | add
  | subtract
  | multiply
  | divide
  | floorDivide
  | modulo
  | power
  | compare (comparison : Comparison)
  | and
  | or
deriving DecidableEq, Repr

inductive Operation where
  | unary (operation : Unary)
  | binary (operation : Binary)
  /-- Binds a name to the operand, first combined with the value of the name if so said. -/
  | assign (combining : Option Binary)
  | increment
  | decrement
deriving DecidableEq, Repr

/-- What an assignment combines the old value and the operand with. -/
def Operation.combining : Operation → Option Binary
  | .assign b => b
  | _ => none

structure Operator where
  symbol : String
  position : Position
  operands : Nat
  precedence : Nat
  operation : Operation
deriving DecidableEq, Repr

namespace Operator

/-- Binds tighter than every operator between operands. -/
def before (symbol : String) (operation : Operation) : Operator :=
  ⟨symbol, .before, 1, 50, operation⟩

/-- Binds tightest. -/
def after (symbol : String) (operation : Operation) : Operator :=
  ⟨symbol, .after, 1, 60, operation⟩

def between (symbol : String) (precedence : Nat) (operation : Operation) : Operator :=
  ⟨symbol, .between, 2, precedence, operation⟩

/-- A waiting operator applies before an incoming one that does not bind tighter. Of two operators
before the same operand, the inner one is still to come. -/
def yieldsTo (waiting incoming : Operator) : Bool :=
  !(waiting.position = .before && incoming.position = .before) &&
    incoming.precedence ≤ waiting.precedence

end Operator

/-- Definitions in the order in which they are listed. -/
structure OperatorTable where
  definitions : List Operator
deriving DecidableEq, Repr

namespace OperatorTable

def standard : OperatorTable where
  definitions := [
    .before "-" (.unary .negate),
    .before "!" (.unary .not),
    .before "++" .increment,
    .before "--" .decrement,
    .after "!" (.unary .factorial),
    .after "++" .increment,
    .after "--" .decrement,
    .between "^" 40 (.binary .power),
    .between "*" 30 (.binary .multiply),
    .between "/" 30 (.binary .divide),
    .between "//" 30 (.binary .floorDivide),
    .between "%" 30 (.binary .modulo),
    .between "+" 20 (.binary .add),
    .between "-" 20 (.binary .subtract),
    .between "==" 17 (.binary (.compare .equal)),
    .between "!=" 17 (.binary (.compare .notEqual)),
    .between "<" 17 (.binary (.compare .less)),
    .between ">" 17 (.binary (.compare .greater)),
    .between "<=" 17 (.binary (.compare .lessEqual)),
    .between ">=" 17 (.binary (.compare .greaterEqual)),
    .between "&&" 14 (.binary .and),
    .between "||" 13 (.binary .or),
    .between "=" 10 (.assign none),
    .between "+=" 10 (.assign (some .add)),
    .between "-=" 10 (.assign (some .subtract)),
    .between "*=" 10 (.assign (some .multiply)),
    .between "/=" 10 (.assign (some .divide))]

def candidates (table : OperatorTable) (symbol : String) (position : Position) : List Operator :=
  table.definitions.filter fun d => d.symbol = symbol && d.position = position

def supports (table : OperatorTable) (symbol : String) (position : Position) : Bool :=
  !(table.candidates symbol position).isEmpty

end OperatorTable

end Calculator
