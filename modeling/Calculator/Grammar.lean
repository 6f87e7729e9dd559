import Calculator.Token

namespace Calculator

/-- Symbols that stand for one token. -/
inductive Terminal where
  | operator (position : Position)
  | value
  | openParen
  | closeParen
  | comma
deriving DecidableEq, Repr

/-- Symbols that are replaced by others. -/
inductive Rule where
  | line
  | expression
  /-- What may follow an operand. -/
  | trailer
  | call
  | firstArgument
  | nextArgument
  | argumentTail
deriving DecidableEq, Repr

inductive Symbol where
  | rule (rule : Rule)
  | terminal (terminal : Terminal)
deriving DecidableEq, Repr

namespace Terminal

def tag : Terminal → String
  | .operator .before => "Pr"
  | .operator .between => "In"
  | .operator .after => "Po"
  | .value => "V"
  | .openParen => "Op"
  | .closeParen => "Cp"
  | .comma => "Cm"

def accepts (table : OperatorTable) (terminal : Terminal) (token : Token) : Bool :=
  match terminal with
  | .operator position => token.kind = .operator && table.supports token.text position
  | .value => token.kind = .number || token.kind = .name
  | .openParen => token.kind = .openParen
  | .closeParen => token.kind = .closeParen
  | .comma => token.kind = .comma

end Terminal

def Rule.tag : Rule → String
  | .line => "Mn"
  | .expression => "Ex"
  | .trailer => "Re"
  | .call => "Fc"
  | .firstArgument => "Fb"
  | .nextArgument => "Fr"
  | .argumentTail => "Fa"

namespace Symbol

def tag : Symbol → String
  | .rule r => r.tag
  | .terminal t => t.tag

def isTerminal : Symbol → Bool
  | .rule _ => false
  | .terminal _ => true

/-- Where the operators that a symbol stands for are. -/
def position? : Symbol → Option Position
  | .terminal (.operator position) => some position
  | _ => none

def accepts (table : OperatorTable) (symbol : Symbol) (token : Token) : Bool :=
  match symbol with
  | .rule _ => false
  | .terminal t => t.accepts table token

end Symbol

/-- The class of the next token. -/
inductive Lookahead where
  | finish
  | openParen
  | closeParen
  | comma
  | value
  | operator (before between after : Bool)
deriving DecidableEq, Repr

namespace Lookahead

def of (table : OperatorTable) : Option Token → Lookahead
  | none => .finish
  | some token =>
    match token.kind with
    | .number | .name => .value
    | .openParen => .openParen
    | .closeParen => .closeParen
    | .comma => .comma
    | .operator =>
      .operator (table.supports token.text .before) (table.supports token.text .between)
        (table.supports token.text .after)

def startsExpression : Lookahead → Bool
  | .value | .openParen | .operator true _ _ => true
  | _ => false

end Lookahead

namespace Rule

def prefixed : List Symbol := [.terminal (.operator .before), .rule .expression]

def joined : List Symbol := [.terminal (.operator .between), .rule .expression]

/-- What a rule is replaced by. An operator that may stand in two places is taken before an
operand where an operand is due, and between operands rather than after one. -/
def body? : Rule → Lookahead → Option (List Symbol)
  | .line, .operator true _ _ => some prefixed
  | .line, .operator _ true _ => some joined
  | .line, .finish => some []
  | .line, _ => some [.rule .expression]
  | .expression, .openParen =>
    some [.terminal .openParen, .rule .expression, .terminal .closeParen, .rule .trailer]
  | .expression, .operator true _ _ => some prefixed
  | .expression, .value => some [.terminal .value, .rule .trailer]
  | .expression, _ => none
  | .trailer, .openParen => some [.rule .call, .rule .trailer]
  | .trailer, .operator _ true _ => some joined
  | .trailer, .operator _ _ true => some [.terminal (.operator .after), .rule .trailer]
  | .trailer, _ => some []
  | .call, .openParen =>
    some [.terminal .openParen, .rule .firstArgument, .terminal .closeParen]
  | .call, _ => none
  | .firstArgument, l | .nextArgument, l =>
    if l.startsExpression then some [.rule .expression, .rule .argumentTail]
    else if l = .closeParen then some []
    else none
  | .argumentTail, .comma => some [.terminal .comma, .rule .nextArgument]
  | .argumentTail, _ => some []

end Rule

/-- Terminals are not replaced. -/
def Symbol.body? : Symbol → Lookahead → Option (List Symbol)
  | .rule r, l => r.body? l
  | .terminal _, _ => none

end Calculator
