import Calculator.Error
import Calculator.Number

namespace Calculator

namespace Number

/-- A whole result, unless 64 bits did not hold it. -/
def checked (symbol : String) : Option Int64 → Except RunError Number
  | some n => .ok (.integer n)
  | none => .error (.overflow symbol)

/-- A whole result, if 64 bits hold it. -/
def exact (symbol : String) (n : Int) : Except RunError Number := checked symbol (whole64? n)

end Number

namespace Power

/-- Multiplies by the factor that halving an exponent leaves over. -/
def leftover? (product base : Int64) (e : Nat) : Option Int64 :=
  if e % 2 = 1 then compute64? (· * ·) product base else some product

/-- Multiplies by a power, if 64 bits hold everything on the way. The base is squared as often as
the exponent can be halved: there is no square beyond the one that the last factor needs. -/
def squaring? (product base : Int64) (e : Nat) : Option Int64 :=
  if e = 0 then some product
  else if e = 1 then leftover? product base e
  else do
    let product ← leftover? product base e
    let base ← compute64? (· * ·) base base
    squaring? product base (e / 2)
termination_by e

/-- A power of zero, one or minus one. Others have none in range if the exponent is large. -/
def ofUnit? (b e : Int64) : Option Int64 :=
  if b = 0 ∨ b = 1 then some b
  else if b = -1 then some (if e.toInt % 2 = 0 then 1 else -1)
  else none

/-- A power with an exponent that is not negative. -/
def whole? (b e : Int64) : Option Int64 :=
  match Number.count32? e with
  | some e => squaring? 1 b e
  | none => ofUnit? b e

def whole (symbol : String) (b e : Int64) : Except RunError Number :=
  Number.checked symbol (whole? b e)

/-- A negative base has no power for an exponent with a fraction. -/
def real (pow : Float → Float → Float) (symbol : String) (base exponent : Number) :
    Except RunError Number :=
  let b := base.toReal
  let e := exponent.toReal
  if b < 0 && e.isFinite && (Binary64.ofFloat e).whole?.isNone then
    .error (.domain symbol base.text)
  else .ok (.real (pow b e))

/-- A power, with `pow` for those of floating-point numbers. -/
def applyBy (pow : Float → Float → Float) (symbol : String) (base exponent : Number) :
    Except RunError Number :=
  if base.isZero && exponent.toReal < 0 then .error (.divisionByZero symbol)
  else
    match base, exponent with
    | .integer b, .integer e =>
      if 0 ≤ e.toInt then whole symbol b e else real pow symbol base exponent
    | _, _ => real pow symbol base exponent

def apply : String → Number → Number → Except RunError Number := applyBy Float.pow

end Power

end Calculator
