import Calculator.Arithmetic.Comparison
import Calculator.Arithmetic.Power

namespace Calculator

/-- The count that a number equals, if it is not too large to be told from its neighbours. -/
def Number.count? : Number → Option Nat
  | .integer n => if 0 ≤ n.toInt then some n.toInt.toNat else none
  | .real x => exactCount? x

namespace Unary

/-- Multiplies by some counts, the next one and those that are left behind it, if 64 bits hold each
of them and each product on the way. -/
def productFrom? (product : Int64) (next : Nat) : Nat → Option Int64
  | 0 => some product
  | left + 1 => do
    let factor ← whole64? next
    let product ← compute64? (· * ·) product factor
    productFrom? product (next + 1) left

/-- The product of the counts from two to `n`. It is given up at the first one out of range. -/
def factorial? (n : Nat) : Option Int64 := productFrom? 1 2 (n - 1)

def applyFactorial (symbol : String) (x : Number) : Except RunError Number :=
  match x.count? with
  | none => .error (.invalidFactorial x.text)
  | some n => Number.checked symbol (factorial? n)

def apply (symbol : String) : Unary → Number → Except RunError Number
  | .negate, .integer n => Number.exact symbol (-n.toInt)
  | .negate, .real x => .ok (.real (-x))
  | .not, x => .ok (.ofBool (!x.holds))
  | .factorial, x => applyFactorial symbol x

end Unary

namespace Binary

/-- Computes with whole numbers if both are, and with floating-point numbers otherwise. -/
def combine (symbol : String) (whole? : Int64 → Int64 → Option Int64)
    (real : Float → Float → Float) : Number → Number → Except RunError Number
  | .integer a, .integer b => Number.checked symbol (whole? a b)
  | l, r => .ok (.real (real l.toReal r.toReal))

/-- When a division is cut toward zero: whether it leaves something with the other sign than the
divisor. The quotient rounded down is then one less. -/
def cutUp (left b : Int64) : Bool := left != 0 && decide (left < 0) != decide (b < 0)

/-- The quotient rounded down. -/
def floorQuotient? (a b : Int64) : Option Int64 := do
  let quotient ← compute64? Int.tdiv a b
  if cutUp (a % b) b then whole64? (quotient.toInt - 1) else some quotient

/-- What a division of whole numbers rounded down leaves. -/
def floorLeft? (a b : Int64) : Option Int64 :=
  let left := a % b
  if cutUp left b then compute64? (· + ·) left b else some left

/-- The remainder of a division rounded down: it has the sign of the divisor. -/
def floorRemainder (a b : Float) : Float :=
  let left := Binary64.remainder a b
  if left != 0 && decide (left < 0) != decide (b < 0) then left + b else left

/-- Divides, unless by zero. -/
def divided (symbol : String) (r : Number) (quotient : Except RunError Number) :
    Except RunError Number :=
  if r.isZero then .error (.divisionByZero symbol) else quotient

def apply (symbol : String) (operation : Binary) (l r : Number) : Except RunError Number :=
  match operation with
  | .add => combine symbol (compute64? (· + ·)) (· + ·) l r
  | .subtract => combine symbol (compute64? (· - ·)) (· - ·) l r
  | .multiply => combine symbol (compute64? (· * ·)) (· * ·) l r
  | .divide => divided symbol r (.ok (.real (l.toReal / r.toReal)))
  | .floorDivide =>
    divided symbol r (combine symbol floorQuotient? (fun a b => (a / b).floor) l r)
  | .modulo => divided symbol r (combine symbol floorLeft? floorRemainder l r)
  | .power => Power.apply symbol l r
  | .compare c => .ok (c.apply l r)
  | .and => .ok (l.both r)
  | .or => .ok (l.either r)

end Binary

namespace Operation

/-- Applies an operation to one number; most operations need more. -/
def applyUnary (symbol : String) (operation : Operation) (x : Number) : Except RunError Number :=
  match operation with
  | .unary u => u.apply symbol x
  | _ => .error (.notEnoughOperands symbol)

/-- Applies an operation to two numbers. -/
def applyBinary (symbol : String) (operation : Operation) (l r : Number) :
    Except RunError Number :=
  match operation with
  | .binary b => b.apply symbol l r
  | _ => .error (.notEnoughOperands symbol)

/-- Applies an operation as a comparison, if it is one. -/
def applyComparison (symbol : String) (operation : Operation) (l r : Number) :
    Except RunError Number :=
  match operation with
  | .binary (.compare c) => .ok (c.apply l r)
  | _ => .error (.notEnoughOperands symbol)

/-- Applies an operation to truth values: one of the two is enough unless both are asked for. -/
def applyLogic (operation : Operation) (l r : Number) : Number :=
  match operation with
  | .binary .and => l.both r
  | _ => l.either r

end Operation

end Calculator
