import Calculator.Error
import Calculator.Item

namespace Calculator.Item

/-- What an open parenthesis belongs to. -/
inductive Opening where
  | group
  | call (arity : Nat)
deriving DecidableEq

/-- What is left of an opening when it closes. -/
def Opening.closed : Opening → List Item
  | .group => []
  | .call arity => [.call arity]

/-- Operators that wait, the latest first: those inside the innermost opening, then each opening
with those outside of it. -/
structure Waiting where
  operators : List Operator
  outside : List (Opening × List Operator)
deriving DecidableEq

namespace Waiting

def nothing : Waiting := ⟨[], []⟩

def opened (w : Waiting) (opening : Opening) : Waiting :=
  ⟨[], (opening, w.operators) :: w.outside⟩

/-- What is handed on when an item comes, and what waits after it. -/
def step (w : Waiting) : Item → Except ReadError (List Item × Waiting)
  | .literal n => .ok ([.literal n], w)
  | .name x => .ok ([.name x], w)
  | .operator d =>
    let leaving := w.operators.takeWhile (·.yieldsTo d)
    let staying := w.operators.dropWhile (·.yieldsTo d)
    .ok (leaving.map .operator, ⟨d :: staying, w.outside⟩)
  | .openParen => .ok ([], w.opened .group)
  | .call arity => .ok ([], w.opened (.call arity))
  | .comma =>
    if w.outside.isEmpty then .error .unbalanced
    else .ok (w.operators.map .operator, ⟨[], w.outside⟩)
  | .closeParen =>
    match w.outside with
    | [] => .error .unbalanced
    | (opening, operators) :: outside =>
      .ok (w.operators.map .operator ++ opening.closed, ⟨operators, outside⟩)

/-- What is handed on at the end, where nothing may be open. -/
def finish (w : Waiting) : Except ReadError (List Item) :=
  if w.outside.isEmpty then .ok (w.operators.map .operator) else .error .unbalanced

end Waiting

def reorder (w : Waiting) : List Item → Except ReadError (List Item)
  | [] => w.finish
  | item :: rest => do
    let (out, w) ← w.step item
    let later ← reorder w rest
    return out ++ later

/-- Operators come behind their operands and calls where their arguments close; parentheses and commas
disappear. -/
def toPostfix (items : List Item) : Except ReadError (List Item) := reorder .nothing items

end Calculator.Item
