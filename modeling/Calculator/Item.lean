import Calculator.Number
import Calculator.Operator

namespace Calculator

inductive Item where
  | literal (value : Number)
  | name (name : String)
  | operator (definition : Operator)
  /-- Opens the arguments of a call; behind them, applies the call. -/
  | call (arity : Nat)
  | openParen
  | closeParen
  | comma
deriving DecidableEq

namespace Item

def text : Item → String
  | .literal n => n.text
  | .name x => x
  | .operator d => d.symbol
  | .call n => s!"call/{n}"
  | .openParen => "("
  | .closeParen => ")"
  | .comma => ","

/-- A sequence, with a blank between items. -/
def line (items : List Item) : String := " ".intercalate (items.map text)

end Item

end Calculator
