import Calculator.Line

namespace Calculator

/-- The white space of the Unicode standard. -/
def isWhiteSpace (c : Char) : Bool :=
  let n := c.toNat
  (9 ≤ n && n ≤ 13) || n = 0x20 || n = 0x85 || n = 0xa0 || n = 0x1680 ||
    (0x2000 ≤ n && n ≤ 0x200a) || n = 0x2028 || n = 0x2029 || n = 0x202f || n = 0x205f || n = 0x3000

def isBlankLine (line : String) : Bool := line.toList.all isWhiteSpace

structure Session where
  environment : Environment
  functions : FunctionTable
  /-- The last line that was not blank, even if it failed. -/
  lastLine : Option String

namespace Session

def withParts (environment : Environment) (functions : FunctionTable) : Session :=
  ⟨environment, functions, none⟩

def new : Session := withParts .standard .standard

def answer (s : Session) : Option Number := s.environment.get? answerName

/-- Keeps a result as the last one. -/
def record (env : Environment) (result : Evaluation) : Environment :=
  match result.number? with
  | some n => env.insert answerName n
  | none => env

/-- Evaluates a line that is not blank. -/
def evaluate (s : Session) (line : String) : Session × Except LineError Evaluation :=
  match Line.evaluate s.functions s.environment line with
  | (env, .ok result) => ({ s with environment := record env result }, .ok result)
  | (env, .error e) => ({ s with environment := env }, .error e)

/-- A blank line is the last one that was not blank, once more. -/
def submit (s : Session) (line : String) : Session × Except LineError Evaluation :=
  if isBlankLine line then
    match s.lastLine with
    | some last => s.evaluate last
    | none => (s, .ok .empty)
  else { s with lastLine := some line }.evaluate line

end Session

end Calculator
