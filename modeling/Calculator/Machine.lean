import Calculator.Environment
import Calculator.Function

namespace Calculator

/-- A name stays a name until something needs its value. -/
inductive Operand where
  | number (n : Number)
  | name (x : String)
deriving DecidableEq

namespace Operand

def value (env : Environment) : Operand → Except RunError Number
  | .number n => .ok n
  | .name x => env.value x

/-- The name that an operator may write. -/
def target (symbol : String) : Operand → Except RunError String
  | .number n => .error (.invalidTarget symbol n.text)
  | .name x => .ok x

end Operand

/-- An operand that replaces those taken, and the variables after that. -/
abbrev Effect := Except RunError (Operand × Environment)

namespace Operator

/-- How many operands an operator takes off the stack. -/
def taken (d : Operator) : Nat :=
  match d.operation with
  | .assign _ => 2
  | .increment | .decrement => 1
  | _ => if d.operands = 1 then 1 else 2

/-- Binds a name to its value combined with another. -/
def update (d : Operator) (env : Environment) (combining : Binary) (x : String) (n : Number) :
    Effect := do
  let old ← env.value x
  let new ← combining.apply d.symbol old n
  return (.name x, env.insert x new)

/-- The effect of an operator on one operand. -/
def applyOne (d : Operator) (env : Environment) (x : Operand) : Effect :=
  match d.operation with
  | .increment => do d.update env .add (← x.target d.symbol) (.integer 1)
  | .decrement => do d.update env .subtract (← x.target d.symbol) (.integer 1)
  | operation => do return (.number (← operation.applyUnary d.symbol (← x.value env)), env)

/-- The effect of an operator on two operands. Both are there before either is looked up. -/
def applyTwo (d : Operator) (env : Environment) (l r : Operand) : Effect :=
  match d.operation with
  | .assign combining => do
    let x ← l.target d.symbol
    let n ← r.value env
    match combining with
    | none => return (.name x, env.insert x n)
    | some b => d.update env b x n
  | operation => do
    let a ← l.value env
    let b ← r.value env
    return (.number (← operation.applyBinary d.symbol a b), env)

def apply (d : Operator) (env : Environment) : List Operand → Effect
  | [x] => d.applyOne env x
  | [l, r] => d.applyTwo env l r
  | _ => .error (.notEnoughOperands d.symbol)

end Operator

/-- The effect of a call: the callee is settled before any argument is looked up. -/
def FunctionTable.call (functions : FunctionTable) (env : Environment) (callee : Operand)
    (args : List Operand) : Effect :=
  match callee with
  | .number n => .error (.notCallable n.text)
  | .name f =>
    match functions.get? f with
    | none => .error (.unknownFunction f)
    | some function => do
      checkArity f args.length function.arity
      let values ← args.mapM (·.value env)
      return (.number (← function.run values), env)

/-- The result of a line: nothing, a number, or a variable with its value. -/
inductive Evaluation where
  | empty
  | value (n : Number)
  | variable (name : String) (n : Number)
deriving DecidableEq

namespace Evaluation

def number? : Evaluation → Option Number
  | .empty => none
  | .value n => some n
  | .variable _ n => some n

def text : Evaluation → String
  | .empty => ""
  | .value n => n.text
  | .variable x n => s!"{x} : {n.text}"

end Evaluation

/-- The most bytes that memory can be asked for at once. -/
def greatestRoom : Nat := Nat.pow 2 63 - 1

/-- A call asks for the memory of all its arguments, `size` bytes for each, before it takes any. -/
def Item.hasRoom (size : Nat) : Item → Bool
  | .call arity => arity * size ≤ greatestRoom
  | _ => true

/-- The stack has its top first. -/
structure Machine where
  stack : List Operand
  environment : Environment

namespace Machine

def start (env : Environment) : Machine := ⟨[], env⟩

def push (m : Machine) (x : Operand) : Machine := ⟨x :: m.stack, m.environment⟩

/-- Takes operands off for an effect. Where there are too few, those that are there are lost. -/
def consume (m : Machine) (consumer : String) (count : Nat)
    (effect : Environment → List Operand → Effect) : Machine × Option RunError :=
  let top := m.stack.take count
  if top.length < count then (⟨[], m.environment⟩, some (.notEnoughOperands consumer))
  else
    let below := m.stack.drop count
    match effect m.environment top.reverse with
    | .ok (x, env) => (⟨x :: below, env⟩, none)
    | .error e => (⟨below, m.environment⟩, some e)

/-- The effect of a call on the callee and its arguments. -/
def called (functions : FunctionTable) (consumer : String) (env : Environment) :
    List Operand → Effect
  | callee :: args => functions.call env callee args
  | [] => .error (.notEnoughOperands consumer)

def step (functions : FunctionTable) (m : Machine) (item : Item) : Machine × Option RunError :=
  match item with
  | .literal n => (m.push (.number n), none)
  | .name x => (m.push (.name x), none)
  | .operator d => m.consume d.symbol d.taken d.apply
  | .call arity => m.consume item.text (arity + 1) (called functions item.text)
  | .openParen | .closeParen | .comma => (m, some (.structuralToken item.text))

/-- A step where every operand has `size` bytes. The program breaks off at a call without room, and then
there is no outcome. `run` and `evaluate` are for items that have room, as those of a line have unless
the line itself is too long. That memory runs out although there is room is left out. -/
def attempt (size : Nat) (functions : FunctionTable) (m : Machine) (item : Item) :
    Option (Machine × Option RunError) :=
  if item.hasRoom size then some (m.step functions item) else none

/-- Steps up to the first failure. -/
def run (functions : FunctionTable) (m : Machine) : List Item → Machine × Option RunError
  | [] => (m, none)
  | item :: items =>
    match m.step functions item with
    | (m, none) => m.run functions items
    | (m, some e) => (m, some e)

/-- The result, if one operand is left at most. -/
def result (m : Machine) : Except RunError Evaluation :=
  match m.stack with
  | [] => .ok .empty
  | [.number n] => .ok (.value n)
  | [.name x] => (m.environment.value x).map (.variable x)
  | stack => .error (.missingOperators stack.length)

end Machine

/-- Runs a sequence in postfix order. What was written before a failure stays. -/
def evaluate (functions : FunctionTable) (env : Environment) (items : List Item) :
    Environment × Except RunError Evaluation :=
  match (Machine.start env).run functions items with
  | (m, none) => (m.environment, m.result)
  | (m, some e) => (m.environment, .error e)

end Calculator
