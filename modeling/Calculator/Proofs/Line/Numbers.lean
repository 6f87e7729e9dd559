import Calculator.Proofs.Line.Phrases
import Calculator.Proofs.Number

namespace Calculator

open Token

/-- The sign in front of a negative number. -/
def OperatorTable.minus : standard.Placed .before :=
  ⟨.before "-" (.unary .negate), by decide⟩

namespace Line

/-- The digits of a number come to the number. -/
theorem evaluate_digits {text : String} {n : Number} (present : text.toList ≠ [])
    (digits : ∀ c ∈ text.toList, c.isDigit = true) (read : Number.ofText? text = some n)
    (functions : FunctionTable) (env : Environment) :
    evaluate functions env text = (env, .ok (.value n)) := by
  have ends : Ends [] := by simp [Ends]
  have spelled := Spells.literal present digits read ends .done
  rw [List.append_nil] at spelled
  exact evaluate_phrase (.literal n .done) (items_of_spells _ spelled) functions env

/-- With a minus in front they come to its opposite, where there is one. -/
theorem evaluate_minus_digits {text : String} {n m : Number} (present : text.toList ≠ [])
    (digits : ∀ c ∈ text.toList, c.isDigit = true) (read : Number.ofText? text = some n)
    (opposite : Unary.negate.apply "-" n = .ok m) (functions : FunctionTable)
    (env : Environment) : evaluate functions env ("-" ++ text) = (env, .ok (.value m)) := by
  have ends : Ends [] := by simp [Ends]
  have unpaired : Unpaired (text.toList ++ []) :=
    unpaired_word present fun c hc => isNameRest_of_isDigit (digits c hc)
  have literal := Spells.literal present digits read ends .done
  have spelled := literal.operator OperatorTable.minus.2.1 unpaired
  rw [List.append_nil] at spelled
  have whole : OperatorTable.minus.val.symbol.toList ++ text.toList = ("-" ++ text).toList := by
    rw [String.toList_append]
    rfl
  rw [whole] at spelled
  have tree : Phrase.tree [] (.before OperatorTable.minus (.literal n .done)) =
      .before OperatorTable.minus (.literal n) := rfl
  have negated : Operator.applyOne OperatorTable.minus env (.number n) =
      .ok (.number m, env) := by
    simp [Operator.applyOne, OperatorTable.minus, Operator.before, Operand.value,
      Operation.applyUnary, opposite]
  have resolved := items_of_spells (.before OperatorTable.minus (.literal n .done)) spelled
  rw [evaluate_phrase _ resolved, tree,
    Expression.evaluate, Expression.eval, Expression.eval, pure_bind, Evaluating.unary_eq,
    Evaluating.run_bind, Evaluating.run_ofEffect, negated]
  rfl

/-- The magnitude of the least number, typed, is a floating-point number. -/
theorem evaluate_least (functions : FunctionTable) (env : Environment) :
    evaluate functions env (Number.integer Int64.minValue).text =
      (env, .ok (.value (.real (Number.nearestReal Int64.minValue)))) := by
  have text : (Number.integer Int64.minValue).text = "-" ++ "9223372036854775808" := rfl
  have read : Number.ofText? "9223372036854775808" =
      some (.real (Float.ofInt 9223372036854775808)) := by
    decide +kernel
  have opposite : Unary.negate.apply "-" (.real (Float.ofInt 9223372036854775808)) =
      .ok (.real (Number.nearestReal Int64.minValue)) := by
    have negated : -Float.ofInt 9223372036854775808 = Number.nearestReal Int64.minValue := by
      decide +kernel
    rw [Unary.apply, negated]
  have digits : ∀ c ∈ "9223372036854775808".toList, c.isDigit = true :=
    List.all_eq_true.mp (by decide)
  rw [text]
  exact evaluate_minus_digits (by decide) digits read opposite functions env

/-- The text of a whole number, typed, comes to that number, and does so for all but the least of
them. The text of the least one comes to the floating-point number of the same value. -/
theorem evaluate_text (functions : FunctionTable) (env : Environment) (n : Int64) :
    evaluate functions env (Number.integer n).text = (env, .ok (.value
      (if n = Int64.minValue then .real (Number.nearestReal n) else .integer n))) := by
  by_cases least : n = Int64.minValue
  · rw [if_pos least, least]
    exact evaluate_least functions env
  · rw [if_neg least]
    by_cases negative : n.toInt < 0
    · obtain ⟨opposite, text⟩ := Number.text_of_neg negative least
      obtain ⟨present, digits, read⟩ :=
        Number.text_digits (i := -n) (by rw [opposite]; omega)
      have back : Unary.negate.apply "-" (.integer (-n)) = .ok (.integer n) := by
        rw [Unary.apply, opposite, Int.neg_neg, Number.exact_toInt]
      rw [text]
      exact evaluate_minus_digits present digits read back functions env
    · obtain ⟨present, digits, read⟩ := Number.text_digits (Int.not_lt.mp negative)
      exact evaluate_digits present digits read functions env

/-- So not every whole number comes back from its text. -/
theorem not_evaluate_text :
    (evaluate .standard .standard (Number.integer Int64.minValue).text).2 ≠
      .ok (.value (.integer Int64.minValue)) := by
  rw [evaluate_least]
  intro same
  cases same

end Line

end Calculator
