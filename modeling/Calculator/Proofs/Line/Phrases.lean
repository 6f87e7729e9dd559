import Calculator.Proofs.Line.Items
import Calculator.Proofs.Machine
import Calculator.Proofs.Phrase.Postfix
import Calculator.Proofs.Phrase.Reading

namespace Calculator

namespace Line

/-- The items of a line, before they are put in order. -/
def items (line : String) : Except ReadError (List Item) := do
  Token.items .standard (← Token.scan line)

theorem read_eq_items (line : String) : read line = items line >>= Item.toPostfix := by
  rw [read_eq, items]
  cases Token.scan line <;> rfl

/-- The outcome of a line, from what its tree does. -/
def outcome (ran : Except RunError Evaluation × Environment) :
    Environment × Except LineError Evaluation :=
  (ran.2, ran.1.mapError .run)

variable (p : Phrase .standard) {line : String}

theorem items_of_spells (h : Token.Spells line.toList p.items) : items line = .ok p.items := by
  obtain ⟨tokens, scanned, standing⟩ := h.scanFrom 0
  obtain ⟨built, accepted, resolved⟩ := Derivation.items_of_phrase
    OperatorTable.unambiguous_standard OperatorTable.separated_standard p standing
  simp only [items, Token.items, Token.scan, scanned, accepted, resolved, ok_bind]

variable (h : items line = .ok p.items)

include h

theorem read_phrase : read line = .ok (p.tree []).postorder := by
  rw [read_eq_items, h, ok_bind, toPostfix_phrase]

theorem evaluate_phrase (functions : FunctionTable) (env : Environment) :
    evaluate functions env line =
      outcome (Evaluating.run ((p.tree []).evaluate functions) env) := by
  rw [evaluate, read_phrase p h]
  dsimp only
  rw [evaluate_eq, finish_tree]
  cases Evaluating.run ((p.tree []).evaluate functions) env with
  | mk result env' => cases result <;> rfl

end Line

end Calculator
