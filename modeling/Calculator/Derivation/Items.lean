import Calculator.Derivation
import Calculator.Item

namespace Calculator

/-- The variable that holds the last result. -/
def answerName : String := "ans"

namespace Derivation

/-- Counts on along the tails of an argument list. An argument that is left out is refused with
its number. -/
def countFrom (t : Derivation) (counted tail : Nat) : Except Nat Nat :=
  match next : t.child? tail (.rule .nextArgument) with
  | none => .ok counted
  | some argument =>
    if (t.children argument).isEmpty then .error (counted + 1)
    else
      match later : t.child? argument (.rule .argumentTail) with
      | none => .ok (counted + 1)
      | some tail' =>
        have := lt_of_child? next
        have := lt_of_child? later
        t.countFrom (counted + 1) tail'
termination_by t.size - tail

/-- The number of arguments of a call. -/
def countArguments (t : Derivation) (call : Nat) : Except Nat Nat :=
  match t.child? call (.rule .firstArgument) with
  | none => .ok 0
  | some first =>
    if (t.children first).isEmpty then .ok 0
    else
      match t.child? first (.rule .argumentTail) with
      | none => .ok 1
      | some tail => t.countFrom 1 tail

/-- A value token is a literal or a name. -/
def value (token : Token) : Except ReadError Item :=
  match token.kind with
  | .number =>
    match Number.ofText? token.text with
    | some n => .ok (.literal n)
    | none => .error (.misplacedToken token.text token.start)
  | _ => .ok (.name token.text)

/-- An opening parenthesis, or the call that it opens. The token before it is what is called. -/
def opening (t : Derivation) (tokens : Array Token) (node : Node) (token : Nat) :
    Except ReadError Item :=
  match node.parent with
  | none => .ok .openParen
  | some call =>
    if t.symbol? call = some (.rule .call) then
      match t.countArguments call with
      | .ok n => .ok (.call n)
      | .error index =>
        let callee := if token = 0 then "" else (tokens[token - 1]?.map Token.text).getD ""
        .error (.emptyArgument callee index)
    else .ok .openParen

/-- The items of one terminal. An operator between operands that begins the line applies to the
last result. -/
def itemsAt (t : Derivation) (table : OperatorTable) (tokens : Array Token) (id : Nat) :
    Except ReadError (List Item) := do
  let some node := t.nodes[id]? | return []
  let some index := node.token | return []
  let some token := tokens[index]? | return []
  match node.symbol with
  | .rule _ => return []
  | .terminal (.operator position) =>
    let implied :=
      if position = .between ∧ node.parent.bind t.symbol? = some (.rule .line) then
        [Item.name answerName]
      else []
    return implied ++ [.operator (← table.find token.text position)]
  | .terminal .value => return [← value token]
  | .terminal .openParen => return [← t.opening tokens node index]
  | .terminal .closeParen => return [.closeParen]
  | .terminal .comma => return [.comma]

/-- The items of all terminals, from left to right. -/
def items (t : Derivation) (table : OperatorTable) (tokens : List Token) :
    Except ReadError (List Item) :=
  (t.terminals.mapM (t.itemsAt table tokens.toArray)).map List.flatten

end Derivation

end Calculator
