import Calculator.Proofs.Item.Waiting
import Calculator.Proofs.Line.Items
import Calculator.Proofs.Phrase.Postfix

namespace Calculator

open Item

/-- An operator right before a call still waits when the call is applied: what the call hands on,
its marker last, comes before the operator. -/
theorem operator_waits_for_call {tokens : List Token} {built : Derivation} {items : List Item}
    (accepted : Derivation.ofTokens .standard tokens = .ok built)
    (resolved : built.items .standard tokens = .ok items) {front back : List Item} {d : Operator}
    {n : Nat} (around : items = front ++ .operator d :: .call n :: back) :
    ∃ before w args enclosed behind later,
      back = enclosed ++ .closeParen :: behind ∧
      Waiting.nothing.walk (front ++ [.operator d]) = .ok (before, w) ∧
      w.operators.head? = some d ∧
      w.walk (.call n :: enclosed ++ [.closeParen]) = .ok (args ++ [.call n], w) ∧
      reorder w behind = .ok later ∧ .operator d ∈ later ∧
      toPostfix items = .ok (before ++ args ++ .call n :: later) := by
  rcases Derivation.items_cases accepted resolved with ⟨-, none⟩ | ⟨-, p, rfl⟩
  · simp [none] at around
  have ordered := toPostfix_phrase p
  rw [around, toPostfix] at ordered
  obtain ⟨out, w₀, all, walked, ordered₀, parts⟩ := reorder_ok_append ordered
  obtain ⟨leaving, w, all₁, stepped, ordered₁, rfl⟩ := reorder_ok_cons ordered₀
  obtain ⟨none, w', all₂, opened, ordered₂, rfl⟩ := reorder_ok_cons ordered₁
  have waits : w.operators.head? = some d := by
    cases stepped
    rfl
  obtain ⟨rfl, rfl⟩ : [] = none ∧ w.opened (.call n) = w' := by
    simpa [Waiting.step] using opened
  have inner : reorder ⟨[], [] ++ (.call n, w.operators) :: w.outside⟩ back = .ok all₂ := ordered₂
  obtain ⟨enclosed, behind, args, later, rfl, inside, hl, rfl⟩ := exists_closing inner
  refine ⟨out ++ leaving, w, args, enclosed, behind, later, rfl, ?_, waits, ?_, hl, ?_, ?_⟩
  · simpa using Waiting.walk_append walked (Waiting.walk_cons stepped w.walk_nil)
  · simpa [Opening.closed] using Waiting.walk_cons opened inside
  · exact mem_reorder hl (List.mem_append_left _ (List.mem_of_mem_head? waits))
  · rw [around, toPostfix, ordered, parts]
    simp [Opening.closed]

/-- The line `sqrt!(16)`. -/
def rootFactorial : List Token := [
  ⟨.name, "sqrt", 0, 4⟩,
  ⟨.operator, "!", 4, 5⟩,
  ⟨.openParen, "(", 5, 6⟩,
  ⟨.number, "16", 6, 8⟩,
  ⟨.closeParen, ")", 8, 9⟩]

def rootFactorialItems : List Item := [
  .name "sqrt",
  .operator (.after "!" (.unary .factorial)),
  .call 1,
  .literal (.integer 16),
  .closeParen]

theorem items_rootFactorial : ∃ built, Derivation.ofTokens .standard rootFactorial = .ok built ∧
    built.items .standard rootFactorial = .ok rootFactorialItems := by
  obtain ⟨built, accepted⟩ : OperatorTable.standard.Accepts rootFactorial :=
    OperatorTable.accepts_iff.mpr rfl
  refine ⟨built, accepted, ?_⟩
  rw [Derivation.items_eq_itemsIn accepted]
  rfl

/-- In `sqrt!(16)` the exclamation mark waits while `16` is read, and applies to the root. -/
theorem operator_waits_for_call_root :
    let factorial : Operator := .after "!" (.unary .factorial)
    ∃ built, Derivation.ofTokens .standard rootFactorial = .ok built ∧
      built.items .standard rootFactorial = .ok rootFactorialItems ∧
      rootFactorialItems = [.name "sqrt"] ++ .operator factorial :: .call 1 ::
        [.literal (.integer 16), .closeParen] ∧
      ∃ before w args enclosed behind later,
        [.literal (.integer 16), .closeParen] = enclosed ++ .closeParen :: behind ∧
        Waiting.nothing.walk [.name "sqrt", .operator factorial] = .ok (before, w) ∧
        w.operators.head? = some factorial ∧
        w.walk (.call 1 :: enclosed ++ [.closeParen]) = .ok (args ++ [.call 1], w) ∧
        reorder w behind = .ok later ∧ .operator factorial ∈ later ∧
        toPostfix rootFactorialItems = .ok (before ++ args ++ .call 1 :: later) := by
  intro factorial
  obtain ⟨built, accepted, resolved⟩ := items_rootFactorial
  have around : rootFactorialItems = [.name "sqrt"] ++ .operator factorial :: .call 1 ::
      [.literal (.integer 16), .closeParen] := rfl
  exact ⟨built, accepted, resolved, around, operator_waits_for_call accepted resolved around⟩

/-- The exclamation mark of `sqrt!(16)` does not come in front of the call. -/
theorem not_operator_before_call :
    let factorial : Operator := .after "!" (.unary .factorial)
    ∃ built, Derivation.ofTokens .standard rootFactorial = .ok built ∧
      built.items .standard rootFactorial = .ok rootFactorialItems ∧
      ¬ ∃ front back, toPostfix rootFactorialItems = .ok (front ++ .operator factorial :: back) ∧
        .call 1 ∈ back := by
  intro factorial
  obtain ⟨built, accepted, resolved⟩ := items_rootFactorial
  refine ⟨built, accepted, resolved, ?_⟩
  rintro ⟨front, back, ordered, called⟩
  have found : toPostfix rootFactorialItems =
      .ok [.name "sqrt", .literal (.integer 16), .call 1, .operator factorial] := rfl
  have same := Except.ok.inj (found.symm.trans ordered)
  obtain ⟨-, rfl⟩ : front = [.name "sqrt", .literal (.integer 16), .call 1] ∧ back = [] := by
    simpa [List.cons_eq_append_iff] using same
  cases called

end Calculator
