import Calculator.Number
import Calculator.Operator

namespace Calculator

/-- Whole numbers are compared exactly, others as floating-point numbers. A value that is not a number
has no order. -/
def Number.order? : Number → Number → Option Ordering
  | .integer a, .integer b => some (compare a.toInt b.toInt)
  | l, r =>
    let a := l.toReal
    let b := r.toReal
    if a < b then some .lt else if a == b then some .eq else if b < a then some .gt else none

/-- Whether a comparison is true of two numbers in this order. -/
def Comparison.admits : Comparison → Option Ordering → Bool
  | .equal, o => o = some .eq
  | .notEqual, o => o ≠ some .eq
  | .less, o => o = some .lt
  | .greater, o => o = some .gt
  | .lessEqual, o => o = some .lt || o = some .eq
  | .greaterEqual, o => o = some .gt || o = some .eq

def Comparison.apply (c : Comparison) (l r : Number) : Number := .ofBool (c.admits (l.order? r))

namespace Number

def both (l r : Number) : Number := .ofBool (l.holds && r.holds)

def either (l r : Number) : Number := .ofBool (l.holds || r.holds)

end Number

end Calculator
