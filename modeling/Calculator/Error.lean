import Calculator.Operator

namespace Calculator

inductive ErrorKind where
  | lexical
  | syntactic
  | name
  | argument
  | position
  | arithmetic
deriving DecidableEq, Repr

def ErrorKind.text : ErrorKind → String
  | .lexical => "LexError"
  | .syntactic => "SyntaxError"
  | .name => "NameError"
  | .argument => "ArgumentError"
  | .position => "OperatorPositionError"
  | .arithmetic => "ArithmeticFault"

/-- Why a line cannot be read. Places are byte offsets in the line. -/
inductive ReadError where
  | unrecognized (character : Char) (place : Nat)
  | unexpectedEnd
  | misplacedToken (token : String) (place : Nat)
  | noExpression (token : String) (place : Nat)
  | trailing (token : String) (place : Nat)
  | unbalanced
  | noOperator (symbol : String) (position : Position)
  | ambiguousOperator (symbol : String) (position : Position)
  | emptyArgument (function : String) (index : Nat)
deriving DecidableEq, Repr

namespace ReadError

def kind : ReadError → ErrorKind
  | .unrecognized .. => .lexical
  | .unexpectedEnd | .misplacedToken .. | .noExpression .. | .trailing .. | .unbalanced =>
    .syntactic
  | .noOperator .. | .ambiguousOperator .. => .position
  | .emptyArgument .. => .argument

def text : ReadError → String
  | .unrecognized c n => s!"unrecognized character '{c}' at position {n}"
  | .unexpectedEnd => "unexpected end of expression"
  | .misplacedToken t n => s!"'{t}' is not a valid terminal at position {n}"
  | .noExpression t n => s!"'{t}' cannot begin an expression (position {n})"
  | .trailing t n => s!"unexpected trailing symbols starting at '{t}' (position {n})"
  | .unbalanced => "unbalanced parentheses"
  | .noOperator s p => s!"'{s}' cannot be in that position (used as a {p.text} operator)"
  | .ambiguousOperator s p => s!"'{s}' is ambiguous as a {p.text} operator"
  | .emptyArgument f n => s!"argument {n} of {f} is invalid"

end ReadError

/-- Why a line that was read cannot be run. -/
inductive RunError where
  | unknownVariable (name : String)
  | unknownFunction (name : String)
  | notCallable (callee : String)
  | argumentCount (function : String) (expected found : Nat)
  | divisionByZero (operator : String)
  | invalidFactorial (operand : String)
  | overflow (operator : String)
  | domain (function argument : String)
  | notEnoughOperands (operator : String)
  | missingOperators (found : Nat)
  | invalidTarget (operator target : String)
  | structuralToken (token : String)
deriving DecidableEq, Repr

namespace RunError

def kind : RunError → ErrorKind
  | .unknownVariable _ | .unknownFunction _ | .notCallable _ => .name
  | .argumentCount .. => .argument
  | .divisionByZero _ | .invalidFactorial _ | .overflow _ | .domain .. => .arithmetic
  | .notEnoughOperands _ | .missingOperators _ | .invalidTarget .. | .structuralToken _ =>
    .syntactic

def text : RunError → String
  | .unknownVariable x => s!"\"{x}\" does not exist as a variable name"
  | .unknownFunction x => s!"\"{x}\" does not exist as a function"
  | .notCallable x => s!"{x} is not callable"
  | .argumentCount f m n => s!"\"{f}\" takes {m} argument(s), but {n} were given"
  | .divisionByZero s => s!"division by zero in '{s}'"
  | .invalidFactorial x => s!"factorial is only defined for non-negative integers, found {x}"
  | .overflow s => s!"integer overflow while computing '{s}'"
  | .domain f x => s!"math domain error in {f}({x})"
  | .notEnoughOperands s => s!"not enough operands for '{s}'"
  | .missingOperators n => s!"you are missing operator(s): {n} values remain"
  | .invalidTarget s x => s!"cannot apply '{s}' to {x}, a variable name is required"
  | .structuralToken t => s!"unexpected '{t}' in postfix sequence"

end RunError

inductive LineError where
  | read (cause : ReadError)
  | run (cause : RunError)
deriving DecidableEq, Repr

namespace LineError

def kind : LineError → ErrorKind
  | .read cause => cause.kind
  | .run cause => cause.kind

def text : LineError → String
  | .read cause => s!"{cause.kind.text}: {cause.text}"
  | .run cause => s!"{cause.kind.text}: {cause.text}"

end LineError

/-- The only definition of a symbol in a position. -/
def OperatorTable.find (table : OperatorTable) (symbol : String) (position : Position) :
    Except ReadError Operator :=
  match table.candidates symbol position with
  | [] => .error (.noOperator symbol position)
  | [d] => .ok d
  | _ => .error (.ambiguousOperator symbol position)

end Calculator
