import Calculator.Derivation.Items
import Calculator.Directory

namespace Calculator

abbrev Environment := Directory Number

namespace Environment

def constants : List (String × Number) := [
  ("pi", .real 3.141592653589793),
  ("e", .real 2.718281828459045),
  ("tau", .real 6.283185307179586),
  ("inf", .real (1 / 0)),
  ("True", .integer 1),
  ("False", .integer 0),
  (answerName, .integer 0)]

def standard : Environment := .ofList constants

/-- The value of a variable. -/
def value (env : Environment) (name : String) : Except RunError Number :=
  match env.get? name with
  | some n => .ok n
  | none => .error (.unknownVariable name)

end Environment

end Calculator
