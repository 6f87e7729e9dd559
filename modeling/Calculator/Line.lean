import Calculator.Derivation.Building
import Calculator.Item.Postfix
import Calculator.Machine

namespace Calculator

namespace Line

/-- The items of a line in postfix order. -/
def read (line : String) : Except ReadError (List Item) := do
  let tokens ← Token.scan line
  let tree ← Derivation.ofTokens .standard tokens
  let items ← tree.items .standard tokens
  Item.toPostfix items

def evaluate (functions : FunctionTable) (env : Environment) (line : String) :
    Environment × Except LineError Evaluation :=
  match read line with
  | .error e => (env, .error (.read e))
  | .ok items =>
    match Calculator.evaluate functions env items with
    | (env, .ok result) => (env, .ok result)
    | (env, .error e) => (env, .error (.run e))

end Line

end Calculator
