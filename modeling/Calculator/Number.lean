import Calculator.Binary64
import Calculator.Decimal.Layout
import Calculator.Decimal.Reading

namespace Calculator

/-- The 64-bit whole number of this value, if there is one. -/
def whole64? (n : Int) : Option Int64 :=
  if Int64.minValue.toInt ≤ n ∧ n ≤ Int64.maxValue.toInt then some (Int64.ofInt n) else none

/-- What an exact operation comes to, if 64 bits hold it. -/
def compute64? (whole : Int → Int → Int) (a b : Int64) : Option Int64 :=
  whole64? (whole a.toInt b.toInt)

inductive Number where
  | integer (n : Int64)
  | real (x : Float)
deriving DecidableEq

namespace Number

instance : Inhabited Number := ⟨.integer 0⟩

def ofBool (b : Bool) : Number := .integer (if b then 1 else 0)

/-- The nearest floating-point number to a whole number. -/
def nearestReal (n : Int64) : Float := Float.ofInt n.toInt

/-- The whole number that `x` equals, if 64 bits hold it. -/
def exactInteger? (x : Float) : Option Int64 := (Binary64.ofFloat x).whole?.bind whole64?

/-- Counts beyond this are not all told apart by floating-point numbers. -/
def greatestCount : Nat := Nat.pow 2 53 - 1

/-- The count that `x` equals, if it is not beyond `greatestCount`. -/
def exactCount? (x : Float) : Option Nat :=
  (Binary64.ofFloat x).whole?.bind fun n =>
    if 0 ≤ n ∧ n ≤ greatestCount then some n.toNat else none

/-- The count of 32 bits that `n` equals, if there is one. -/
def count32? (n : Int64) : Option Nat :=
  if 0 ≤ n.toInt ∧ n.toInt < Nat.pow 2 32 then some n.toInt.toNat else none

def toReal : Number → Float
  | .integer n => nearestReal n
  | .real x => x

/-- Everything but zero holds; a value that is not a number holds too. -/
def holds : Number → Bool
  | .integer n => n != 0
  | .real x => x != 0

def isZero (n : Number) : Bool := !n.holds

/-- Floating-point numbers show a point or an exponent. Leading digits from `10 ^ -4` to `10 ^ 15`
are set positionally. -/
def layout : Decimal.Layout where
  least := -4
  most := 15
  wholeMark := ".0"
  exponentMark := "e"
  minus := "-"
  infinity := "inf"
  notANumber := "NaN"

def text : Number → String
  | .integer n => toString n.toInt
  | .real x => layout.write (Binary64.ofFloat x)

/-- Puts a digit behind a whole number, if 64 bits hold the product and the sum. -/
def appendDigit? (n : Int64) (c : Char) : Option Int64 := do
  let shifted ← compute64? (· * ·) n 10
  compute64? (· + ·) shifted (Int64.ofNat (Decimal.digit c))

/-- Reads a whole number digit by digit. -/
def ofDigits? (digits : List Char) : Option Int64 := digits.foldlM appendDigit? 0

/-- Digits alone are a whole number where 64 bits hold it; all else is read as a decimal. -/
def ofText? (text : String) : Option Number :=
  let cs := text.toList
  let whole? := if cs ≠ [] ∧ cs.all Char.isDigit then ofDigits? cs else none
  match whole? with
  | some n => some (.integer n)
  | none => (Decimal.read? cs).map .real

end Number

end Calculator
