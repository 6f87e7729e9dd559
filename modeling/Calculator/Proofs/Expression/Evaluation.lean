import Calculator.Machine
import Calculator.Proofs.Expression

namespace Calculator

/-- A computation with variables that may fail. What was written before a failure stays. -/
abbrev Evaluating := ExceptT RunError (StateM Environment)

namespace Evaluating

def run {α : Type} (x : Evaluating α) (env : Environment) : Except RunError α × Environment :=
  x env

section Running

variable {α β : Type} (env : Environment)

@[simp] theorem run_pure (a : α) : run (pure a) env = (.ok a, env) := rfl

@[simp] theorem run_get : run get env = (.ok env, env) := rfl

@[simp] theorem run_lift (x : Except RunError α) : run (liftM x) env = (x, env) := rfl

theorem run_bind (x : Evaluating α) (f : α → Evaluating β) :
    run (x >>= f) env =
      match run x env with
      | (.ok a, env') => run (f a) env'
      | (.error e, env') => (.error e, env') := by
  change (_ : Id (Except RunError β × Environment)) = _
  simp only [run, bind, ExceptT.bind, ExceptT.mk, StateT.bind, ExceptT.bindCont]
  cases x env with
  | mk r env' => cases r <;> rfl

end Running

theorem ext {α : Type} {x y : Evaluating α} (h : ∀ env, run x env = run y env) : x = y :=
  funext h

/-- The value of an operand, from the variables as they stand. -/
def resolve : Operand → Evaluating Number
  | .number n => return n
  | .name x => do (← get).value x

/-- Only a name can be written. -/
def target (symbol : String) : Operand → Evaluating String
  | .number n => throw (.invalidTarget symbol n.text)
  | .name x => return x

/-- Binds a name to its value combined with another and yields the name. -/
def combine (d : Operator) (combining : Binary) (x : String) (n : Number) : Evaluating Operand := do
  let old ← resolve (.name x)
  let new ← combining.apply d.symbol old n
  modify (·.insert x new)
  return .name x

/-- An operator on its operand. -/
def unary (d : Operator) (x : Operand) : Evaluating Operand :=
  match d.operation with
  | .increment => do combine d .add (← target d.symbol x) (.integer 1)
  | .decrement => do combine d .subtract (← target d.symbol x) (.integer 1)
  | operation => do return .number (← operation.applyUnary d.symbol (← resolve x))

/-- An operator on its operands; both are there before the first of them is looked up. -/
def binary (d : Operator) (l r : Operand) : Evaluating Operand :=
  match d.operation with
  | .assign combining => do
    let x ← target d.symbol l
    let n ← resolve r
    match combining with
    | none =>
      modify (·.insert x n)
      return .name x
    | some b => combine d b x n
  | operation => do
    let a ← resolve l
    let b ← resolve r
    return .number (← operation.applyBinary d.symbol a b)

/-- A call settles the callee before it looks up any argument. -/
def call (functions : FunctionTable) (callee : Operand) (args : List Operand) :
    Evaluating Operand :=
  match callee with
  | .number n => throw (.notCallable n.text)
  | .name f =>
    match functions.get? f with
    | none => throw (.unknownFunction f)
    | some function =>
      if args.length = function.arity then do
        let values ← args.mapM resolve
        return .number (← function.run values)
      else throw (.argumentCount f function.arity args.length)

/-- The result of a line. A name that is left is looked up last. -/
def result : Operand → Evaluating Evaluation
  | .number n => return .value n
  | .name x => do return .variable x (← resolve (.name x))

end Evaluating

namespace Expression

variable {table : OperatorTable}

mutual

/-- What a tree comes to: a number, or a name that nothing has looked up yet. -/
def eval (functions : FunctionTable) : Expression table → Evaluating Operand
  | literal n => return .number n
  | name x => return .name x
  | group inner => inner.eval functions
  | before d operand => do Evaluating.unary d (← operand.eval functions)
  | after d operand => do Evaluating.unary d (← operand.eval functions)
  | between d left right => do
    let l ← left.eval functions
    let r ← right.eval functions
    Evaluating.binary d l r
  | call callee args => do
    let f ← callee.eval functions
    let xs ← evalAll functions args
    Evaluating.call functions f xs

def evalAll (functions : FunctionTable) : List (Expression table) → Evaluating (List Operand)
  | [] => return []
  | e :: es => do
    let x ← e.eval functions
    let xs ← evalAll functions es
    return x :: xs

end

/-- Evaluates a whole line. -/
def evaluate (functions : FunctionTable) (e : Expression table) : Evaluating Evaluation := do
  Evaluating.result (← e.eval functions)

end Expression

end Calculator
