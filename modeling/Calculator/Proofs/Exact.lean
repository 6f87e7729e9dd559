import Calculator.Machine
import Mathlib.Algebra.Group.Int.Defs
import Mathlib.Data.Nat.Factorial.Basic

namespace Calculator.Exact

/-- Why the machine stops. Powers with a negative exponent are not whole, nor is what is not about
whole numbers to begin with. -/
inductive Stop where
  | fault (cause : RunError)
  | negativeExponent
  | notWhole

def truth (p : Prop) [Decidable p] : Int := if p then 1 else 0

def compares (a b : Int) : Comparison → Int
  | .equal => truth (a = b)
  | .notEqual => truth (a ≠ b)
  | .less => truth (a < b)
  | .greater => truth (b < a)
  | .lessEqual => truth (a ≤ b)
  | .greaterEqual => truth (b ≤ a)

def unary (n : Int) : Unary → Except Stop Int
  | .negate => .ok (-n)
  | .not => .ok (truth (n = 0))
  | .factorial =>
    if n < 0 then .error (.fault (.invalidFactorial (toString n))) else .ok n.toNat.factorial

/-- Quotients and remainders are those of a division rounded down. -/
def binary (symbol : String) (a b : Int) : Binary → Except Stop Int
  | .add => .ok (a + b)
  | .subtract => .ok (a - b)
  | .multiply => .ok (a * b)
  | .divide => .error .notWhole
  | .floorDivide => if b = 0 then .error (.fault (.divisionByZero symbol)) else .ok (a.fdiv b)
  | .modulo => if b = 0 then .error (.fault (.divisionByZero symbol)) else .ok (a.fmod b)
  | .power => if b < 0 then .error .negativeExponent else .ok (a ^ b.toNat)
  | .compare c => .ok (compares a b c)
  | .and => .ok (truth (a ≠ 0 ∧ b ≠ 0))
  | .or => .ok (truth (a ≠ 0 ∨ b ≠ 0))

/-- The values of variables. -/
abbrev Store := String → Option Int

def Store.set (store : Store) (x : String) (n : Int) : Store :=
  fun y => if y = x then some n else store y

inductive Operand where
  | number (n : Int)
  | name (x : String)

namespace Operand

def value (store : Store) : Operand → Except Stop Int
  | number n => .ok n
  | name x =>
    match store x with
    | some n => .ok n
    | none => .error (.fault (.unknownVariable x))

def target (symbol : String) : Operand → Except Stop String
  | number n => .error (.fault (.invalidTarget symbol (toString n)))
  | name x => .ok x

end Operand

abbrev Effect := Except Stop (Operand × Store)

/-- Binds a name to its value combined with another. -/
def update (symbol : String) (store : Store) (combining : Binary) (x : String) (n : Int) :
    Effect := do
  let old ← (Operand.name x).value store
  let new ← binary symbol old n combining
  return (.name x, store.set x new)

def applyOne (d : Operator) (store : Store) (x : Operand) : Effect :=
  match d.operation with
  | .increment => do update d.symbol store .add (← x.target d.symbol) 1
  | .decrement => do update d.symbol store .subtract (← x.target d.symbol) 1
  | .unary u => do return (.number (← unary (← x.value store) u), store)
  | _ => do
    let _ ← x.value store
    .error (.fault (.notEnoughOperands d.symbol))

def applyTwo (d : Operator) (store : Store) (l r : Operand) : Effect :=
  match d.operation with
  | .assign combining => do
    let x ← l.target d.symbol
    let n ← r.value store
    match combining with
    | none => return (.name x, store.set x n)
    | some b => update d.symbol store b x n
  | .binary b => do
    let a ← l.value store
    let c ← r.value store
    return (.number (← binary d.symbol a c b), store)
  | _ => do
    let _ ← l.value store
    let _ ← r.value store
    .error (.fault (.notEnoughOperands d.symbol))

def apply (d : Operator) (store : Store) : List Operand → Effect
  | [x] => applyOne d store x
  | [l, r] => applyTwo d store l r
  | _ => .error (.fault (.notEnoughOperands d.symbol))

/-- The result of a line: nothing, a number, or a variable with its value. -/
inductive Evaluation where
  | empty
  | value (n : Int)
  | variable (name : String) (n : Int)

/-- The stack has its top first. -/
structure Machine where
  stack : List Operand
  store : Store

namespace Machine

def start (store : Store) : Machine := ⟨[], store⟩

def push (m : Machine) (x : Operand) : Machine := ⟨x :: m.stack, m.store⟩

/-- Takes the operands of an operator off and pushes what it comes to. -/
def operate (m : Machine) (d : Operator) : Machine × Option Stop :=
  let top := m.stack.take d.taken
  if top.length < d.taken then (⟨[], m.store⟩, some (.fault (.notEnoughOperands d.symbol)))
  else
    let below := m.stack.drop d.taken
    match apply d m.store top.reverse with
    | .ok (x, store) => (⟨x :: below, store⟩, none)
    | .error stop => (⟨below, m.store⟩, some stop)

def step (m : Machine) : Item → Machine × Option Stop
  | .literal (.integer n) => (m.push (.number n.toInt), none)
  | .name x => (m.push (.name x), none)
  | .operator d => m.operate d
  | _ => (m, some .notWhole)

/-- Steps up to the first stop. -/
def run (m : Machine) : List Item → Machine × Option Stop
  | [] => (m, none)
  | item :: items =>
    match m.step item with
    | (m, none) => m.run items
    | (m, some stop) => (m, some stop)

/-- The result, if one operand is left at most. -/
def result (m : Machine) : Except Stop Evaluation :=
  match m.stack with
  | [] => .ok .empty
  | [.number n] => .ok (.value n)
  | [.name x] => ((Operand.name x).value m.store).map (.variable x)
  | stack => .error (.fault (.missingOperators stack.length))

end Machine

end Calculator.Exact
