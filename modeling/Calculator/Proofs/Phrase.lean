import Calculator.Item.Postfix
import Calculator.Proofs.Expression

namespace Calculator

mutual

/-- An operand with all that follows it, in the order of the source. -/
inductive Phrase (table : OperatorTable) where
  | literal (n : Number) (rest : Trailer table)
  | name (x : String) (rest : Trailer table)
  | group (inner : Phrase table) (rest : Trailer table)
  | before (d : table.Placed .before) (operand : Phrase table)

/-- What may follow an operand. -/
inductive Trailer (table : OperatorTable) where
  | done
  | call (args : List (Phrase table)) (rest : Trailer table)
  | after (d : table.Placed .after) (rest : Trailer table)
  | between (d : table.Placed .between) (right : Phrase table)

end

variable {table : OperatorTable}

mutual

def Phrase.items : Phrase table → List Item
  | .literal n rest => .literal n :: rest.items
  | .name x rest => .name x :: rest.items
  | .group inner rest => .openParen :: inner.items ++ .closeParen :: rest.items
  | .before d operand => .operator d :: operand.items

def Phrase.itemsAll : List (Phrase table) → List (List Item)
  | [] => []
  | p :: ps => p.items :: Phrase.itemsAll ps

def Trailer.items : Trailer table → List Item
  | .done => []
  | .call args rest =>
    .call args.length :: Item.listed (Phrase.itemsAll args) ++ .closeParen :: rest.items
  | .after d rest => .operator d :: rest.items
  | .between d right => .operator d :: right.items

end

/-- An operator that waits for the operand behind it. -/
inductive Frame (table : OperatorTable) where
  | before (d : table.Placed .before)
  | between (d : table.Placed .between) (left : Expression table)

namespace Frame

def operator : Frame table → Operator
  | before d => d
  | between d _ => d

def fill (e : Expression table) : Frame table → Expression table
  | before d => .before d e
  | between d left => .between d left e

/-- Fills the frames from the innermost, which comes first. -/
def plug (e : Expression table) : List (Frame table) → Expression table
  | [] => e
  | f :: spine => plug (f.fill e) spine

end Frame

namespace Expression

/-- Applies an operator after an operand that was held back. -/
def settled (e : Expression table) : Option (table.Placed .after) → Expression table
  | none => e
  | some d => .after d e

end Expression

mutual

/-- The tree of a phrase behind waiting frames. -/
def Phrase.tree (spine : List (Frame table)) : Phrase table → Expression table
  | .literal n rest => rest.tree spine (.literal n) none
  | .name x rest => rest.tree spine (.name x) none
  | .group inner rest => rest.tree spine (.group (inner.tree [])) none
  | .before d operand => operand.tree (.before d :: spine)

def Phrase.trees : List (Phrase table) → List (Expression table)
  | [] => []
  | p :: ps => p.tree [] :: Phrase.trees ps

/-- The tree of an operand and its trailer. An operator after the operand is held back until what
follows it is known: a call applies first. -/
def Trailer.tree (spine : List (Frame table)) (e : Expression table)
    (held : Option (table.Placed .after)) : Trailer table → Expression table
  | .done => Frame.plug (e.settled held) spine
  | .call args rest => rest.tree spine (.call e (Phrase.trees args)) held
  | .after d rest => rest.tree spine (e.settled held) (some d)
  | .between d right =>
    let left := Frame.plug (e.settled held) (spine.takeWhile (·.operator.yieldsTo d))
    right.tree (.between d left :: spine.dropWhile (·.operator.yieldsTo d))

end

end Calculator
