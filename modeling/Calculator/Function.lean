import Calculator.Arithmetic
import Calculator.Directory

namespace Calculator

structure Function where
  arity : Nat
  run : List Number → Except RunError Number

namespace Function

def ofOne (name : String) (f : Number → Except RunError Number) : Function where
  arity := 1
  run
    | [x] => f x
    | args => .error (.argumentCount name 1 args.length)

def ofTwo (name : String) (f : Number → Number → Except RunError Number) : Function where
  arity := 2
  run
    | [x, y] => f x y
    | args => .error (.argumentCount name 2 args.length)

/-- A function of one floating-point number, without exceptions. -/
def ofReal (name : String) (f : Float → Float) : Function :=
  ofOne name fun x => .ok (.real (f x.toReal))

/-- A function of the numbers from -1 to 1. -/
def ofUnitInterval (name : String) (f : Float → Float) : Function :=
  ofOne name fun x =>
    let r := x.toReal
    if -1 ≤ r && r ≤ 1 then .ok (.real (f r)) else .error (.domain name x.text)

def pi : Float := 3.141592653589793

def toDegrees (x : Float) : Float := x * (180 / pi)

def toRadians (x : Float) : Float := x * (pi / 180)

/-- Rounds up under the name `ceil` and down under any other. A result that 64 bits hold is
whole. -/
def rounding (name : String) : Function :=
  ofOne name fun
    | .integer n => .ok (.integer n)
    | .real x =>
      let rounded := if name = "ceil" then x.ceil else x.floor
      match Number.exactInteger? rounded with
      | some n => .ok (.integer n)
      | none => .ok (.real rounded)

def absolute : Function :=
  ofOne "abs" fun
    | .integer n => Number.exact "abs" n.toInt.natAbs
    | .real x => .ok (.real x.abs)

def sign : Function :=
  ofOne "sign" fun
    | .integer n => Number.exact "sign" n.toInt.sign
    | .real x => .ok (.integer (if 0 < x then 1 else if x < 0 then -1 else 0))

/-- The argument of a logarithm. -/
def positive (name : String) (x : Number) : Except RunError Float :=
  let r := x.toReal
  if 0 < r then .ok r else .error (.domain name x.text)

/-- The logarithm to ten under the name `log10`, to two under `log2`, and natural under any
other. -/
def logarithm (name : String) : Function :=
  ofOne name fun x => do
    let r ← positive name x
    return .real (if name = "log10" then r.log10 else if name = "log2" then r.log2 else r.log)

/-- The logarithm to any base but one. -/
def logarithmTo : Function :=
  ofTwo "logbase" fun x base => do
    let r ← positive "logbase" x
    let b ← positive "logbase" base
    if b.log == 0 then throw (.divisionByZero "logbase")
    return .real (r.log / b.log)

def squareRoot : Function :=
  ofOne "sqrt" fun x =>
    let r := x.toReal
    if r < 0 then .error (.domain "sqrt" x.text) else .ok (.real r.sqrt)

/-- A root that is not of a negative number may be of any degree but zero; a root of a negative
number only of an odd degree. -/
def root : Function :=
  ofTwo "nthroot" fun x degree =>
    let r := x.toReal
    let n := degree.toReal
    if n == 0 then .error (.divisionByZero "nthroot")
    else if 0 ≤ r then .ok (.real (r.pow (1 / n)))
    else
      match Number.exactInteger? n with
      | some k =>
        if k.toInt % 2 = 0 then .error (.domain "nthroot" x.text)
        else .ok (.real (-(-r).pow (1 / n)))
      | none => .error (.domain "nthroot" x.text)

/-- The functions that are there from the start, in the order in which they are listed. -/
def builtin : List (String × Function) := [
  ("sin", ofReal "sin" Float.sin),
  ("cos", ofReal "cos" Float.cos),
  ("tan", ofReal "tan" Float.tan),
  ("asin", ofUnitInterval "asin" Float.asin),
  ("acos", ofUnitInterval "acos" Float.acos),
  ("atan", ofReal "atan" Float.atan),
  ("atan2", ofTwo "atan2" fun y x => .ok (.real (y.toReal.atan2 x.toReal))),
  ("deg", ofReal "deg" toDegrees),
  ("rad", ofReal "rad" toRadians),
  ("floor", rounding "floor"),
  ("ceil", rounding "ceil"),
  ("abs", absolute),
  ("sign", sign),
  ("log10", logarithm "log10"),
  ("log2", logarithm "log2"),
  ("loge", logarithm "loge"),
  ("logbase", logarithmTo),
  ("sqrt", squareRoot),
  ("nthroot", root)]

end Function

abbrev FunctionTable := Directory Function

def FunctionTable.standard : FunctionTable := .ofList Function.builtin

/-- Refuses any other number of arguments than expected. -/
def checkArity (function : String) (found expected : Nat) : Except RunError Unit :=
  if found = expected then .ok () else .error (.argumentCount function expected found)

end Calculator
