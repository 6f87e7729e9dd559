import Calculator.Proofs.Derivation.Moving
import Calculator.Proofs.Line.Items

namespace Calculator

open Token

/-- A failure at a place that many bytes further on. What fails when a line is run has no place. -/
def LineError.moved (n : Nat) : LineError → LineError
  | .read cause => .read (cause.moved n)
  | .run cause => .run cause

/-- The name of the last result, where it stands in front of a line. -/
def answerToken : Token := ⟨.name, answerName, 0, 3⟩

namespace Item

theorem Waiting.step_moved (n : Nat) (w : Waiting) (item : Item) :
    (w.step item).mapError (ReadError.moved n) = w.step item := by
  unfold step
  repeat' split
  all_goals rfl

theorem reorder_moved (n : Nat) (w : Waiting) (items : List Item) :
    (reorder w items).mapError (ReadError.moved n) = reorder w items := by
  induction items generalizing w with
  | nil =>
    rw [reorder, Waiting.finish]
    split <;> rfl
  | cons item rest ih =>
    rw [reorder, mapError_bind, w.step_moved]
    simp only [mapError_bind, ih]
    rfl

end Item

namespace Line

section Leading

variable {table : OperatorTable} {token : Token} (operator : token.kind = .operator)
  (between : table.supports token.text .between = true)

include operator between

/-- Behind the last result the operator stands between operands, and one is due. -/
theorem items_answer (rest : List Token) :
    Token.items table (answerToken :: token :: rest) = (do
      (Prospect.operand []).run table rest
      let d ← table.find token.text .between
      let later ← itemsIn table [answerToken, token] rest []
      return .name answerName :: .operator d :: later) := by
  have sort : Lookahead.of table (some token) = .operator (table.supports token.text .before) true
      (table.supports token.text .after) := by
    simp only [Lookahead.of, operator, between]
  have first : Prospect.line.next table answerToken = .ok (.trailer []) := rfl
  have second : (Prospect.trailer []).next table token = .ok (.operand []) := by
    rw [Prospect.next, sort]
    rfl
  have placed : token.itemIn table [answerToken] rest =
      (table.find token.text .between).map .operator := by
    simp [itemIn, operator, Turn.behind, Turn.next, Turn.position, between, answerToken]
  have named : answerToken.itemIn table [] (token :: rest) = .ok (.name answerName) := rfl
  have implied : impliedItems table (answerToken :: token :: rest) = [] := rfl
  rw [Token.items_eq, Prospect.run, first, ok_bind, Prospect.run, second, ok_bind, implied]
  simp only [itemsIn, List.nil_append, List.append_nil, List.singleton_append, named, placed,
    ok_bind]
  cases table.find token.text .between <;> cases itemsIn table [answerToken, token] rest [] <;> rfl

variable (before : table.supports token.text .before = false)

include before

/-- At the start of a line the operator goes on from the last result. -/
theorem items_leading (rest : List Token) :
    Token.items table (token :: rest) = (do
      (Prospect.operand []).run table rest
      let d ← table.find token.text .between
      let later ← itemsIn table [token] rest []
      return .name answerName :: .operator d :: later) := by
  have sort : Lookahead.of table (some token) =
      .operator false true (table.supports token.text .after) := by
    simp only [Lookahead.of, operator, between, before]
  have first : Prospect.line.next table token = .ok (.operand []) := by
    rw [Prospect.next, sort]
    rfl
  have placed : token.itemIn table [] rest = (table.find token.text .between).map .operator := by
    simp [itemIn, operator, Turn.position, before]
  have implied : impliedItems table (token :: rest) = [.name answerName] := by
    simp [impliedItems, operator, between, before]
  rw [Token.items_eq, Prospect.run, first, ok_bind, implied]
  simp only [itemsIn, List.nil_append, List.append_nil, placed]
  cases table.find token.text .between <;> cases itemsIn table [token] rest [] <;> rfl

/-- What comes behind the operator cannot tell whether the last result stands in front of it. -/
theorem outlook_leading (n : Nat) :
    outlook table [token] = outlook table [answerToken, token.moved n] := by
  simp [outlook, Turn.behind, Turn.next, Turn.position, operator, between, before, answerToken]

/-- The last result in front of an operator that goes on from it changes nothing but places. -/
theorem items_moved (n : Nat) (rest : List Token) :
    Token.items table (answerToken :: (token :: rest).map (moved n)) =
      (Token.items table (token :: rest)).mapError (ReadError.moved n) := by
  have later := itemsIn_moved n (outlook_leading operator between before n) rest []
  rw [List.map_nil] at later
  have further : (token.moved n).kind = .operator := operator
  rw [List.map_cons, items_answer further between, items_leading operator between before,
    Prospect.run_moved, moved_text, later]
  simp only [mapError_bind, find_moved]
  rfl

end Leading

/-- The blank keeps the name of the last result from running into the line. -/
theorem scan_answer (line : String) :
    scan ("ans " ++ line) = (movedAll 4 (scan line)).map (answerToken :: ·) := by
  have whole : ("ans " ++ line).toList = "ans".toList ++ ' ' :: line.toList := by
    rw [String.toList_append]
    rfl
  have first : scanFrom 0 "ans".toList = .ok [answerToken] := by decide +kernel
  have later : scanFrom (0 + byteLength "ans".toList) (' ' :: line.toList) =
      movedAll 4 (scanFrom 0 line.toList) := by
    have blank : isBlank ' ' = true := rfl
    rw [scanFrom, if_pos blank, ← scanFrom_add]
    rfl
  rw [scan, whole, scanFrom_append (separated_cons (by decide) _), first, ok_bind, later, scan]
  cases movedAll 4 (scanFrom 0 line.toList) <;> rfl

/-- The last result in front of a line that goes on from it changes nothing about how it is read but
places. -/
theorem read_leading {line : String} {front : List Char} {token : Token}
    (leads : Scanned line.toList front [token]) (operator : token.kind = .operator)
    (between : OperatorTable.standard.supports token.text .between = true)
    (before : OperatorTable.standard.supports token.text .before = false) :
    read ("ans " ++ line) = (read line).mapError (ReadError.moved 4) := by
  obtain ⟨rest, split⟩ := leads.exists_rest
  have scanned : scan line = (scanFrom (offset front) rest).map ([token] ++ ·) :=
    leads.scanFrom_eq split
  rw [read_eq, read_eq, scan_answer, scanned]
  cases scanFrom (offset front) rest with
  | error e => rfl
  | ok later =>
    have same := items_moved operator between before 4 later
    simp only [movedAll, Except.map, ok_bind, List.singleton_append, same, mapError_bind,
      Item.toPostfix, Item.reorder_moved]

/-- A line that begins with an operator which may stand between operands and not before one is the
same line as with the last result in front of it: it has the same result or fails for the same cause
when it is run, leaves the same variables, and is refused with the same error, four bytes further
on. -/
theorem evaluate_leading {line : String} {front : List Char} {token : Token}
    (leads : Scanned line.toList front [token]) (operator : token.kind = .operator)
    (between : OperatorTable.standard.supports token.text .between = true)
    (before : OperatorTable.standard.supports token.text .before = false)
    (functions : FunctionTable) (env : Environment) :
    evaluate functions env ("ans " ++ line) =
      ((evaluate functions env line).1,
        (evaluate functions env line).2.mapError (LineError.moved 4)) := by
  rw [evaluate, evaluate, read_leading leads operator between before]
  cases read line with
  | error e => rfl
  | ok items =>
    simp only [mapError_ok]
    cases Calculator.evaluate functions env items with
    | mk env' result => cases result <;> rfl

/-- With the last result in front, `* )` is refused at its parenthesis four bytes further on, and
`/ 0` divides by zero again. -/
theorem evaluate_leading_refused :
    let times : Token := ⟨.operator, "*", 0, 1⟩
    let quotient : Token := ⟨.operator, "/", 0, 1⟩
    Scanned "* )".toList ['*'] [times] ∧ Scanned "/ 0".toList ['/'] [quotient] ∧
      (evaluate .standard .standard "* )").2 = .error (.read (.noExpression ")" 2)) ∧
      (evaluate .standard .standard "ans * )").2 = .error (.read (.noExpression ")" 6)) ∧
      (evaluate .standard .standard "/ 0").2 = .error (.run (.divisionByZero "/")) ∧
      (evaluate .standard .standard "ans / 0").2 = .error (.run (.divisionByZero "/")) := by
  intro times quotient
  have blank : ∀ c ∈ ([] : List Char), isBlank c = true := by simp
  have sign (d : Char) (rest : List Char) (found : front? (d :: rest) = some (.operator, [d])) :
      Scanned (d :: rest) [d] [⟨.operator, .ofList [d], 0, offset [d]⟩] := by
    have split : d :: rest = [] ++ [] ++ [d] ++ rest := rfl
    exact Scanned.start.token split blank (front?_eq_some_iff.mp found)
  have first : Scanned "* )".toList ['*'] [times] := sign '*' [' ', ')'] (by decide +kernel)
  have second : Scanned "/ 0".toList ['/'] [quotient] := sign '/' [' ', '0'] (by decide +kernel)
  have refused : (evaluate .standard .standard "* )").2 = .error (.read (.noExpression ")" 2)) := by
    decide +kernel
  have failed : (evaluate .standard .standard "/ 0").2 = .error (.run (.divisionByZero "/")) := by
    decide +kernel
  refine ⟨first, second, refused, ?_, failed, ?_⟩
  · have moved := evaluate_leading first rfl (by decide) (by decide) .standard .standard
    rw [refused] at moved
    exact congrArg Prod.snd moved
  · have same := evaluate_leading second rfl (by decide) (by decide) .standard .standard
    rw [failed] at same
    exact congrArg Prod.snd same

end Line

end Calculator
