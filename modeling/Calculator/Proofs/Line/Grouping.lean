import Calculator.Proofs.Phrase.Derivation
import Calculator.Proofs.Phrase.Uniqueness

namespace Calculator

/-- The items of a line are those of exactly one well-grouped tree, and reordering finds it. -/
theorem toPostfix_wellGrouped {tokens : List Token} {built : Derivation} {items : List Item}
    (accepted : Derivation.ofTokens .standard tokens = .ok built)
    (resolved : built.items .standard tokens = .ok items) (present : tokens ≠ [])
    (apart : Item.Apart items) :
    ∃ e : Expression .standard, e.WellGrouped ∧ e.source = items ∧
      (∀ e' : Expression .standard, e'.WellGrouped → e'.source = items → e' = e) ∧
      Item.toPostfix items = .ok e.postorder := by
  rcases Derivation.items_cases accepted resolved with ⟨blank, -⟩ | ⟨-, p, rfl⟩
  · exact absurd blank present
  · refine ⟨p.tree [], wellGrouped_phrase [] trivial p, ?_, ?_, toPostfix_phrase p⟩
    · exact source_phrase [] p apart
    · intro e grouped same
      exact eq_tree_of_wellGrouped apart grouped same

/-- The line `a - b!` groups as the difference of `a` and the factorial of `b`. -/
theorem toPostfix_wellGrouped_difference :
    let a : Token := ⟨.name, "a", 0, 1⟩
    let minus : Token := ⟨.operator, "-", 2, 3⟩
    let b : Token := ⟨.name, "b", 4, 5⟩
    let bang : Token := ⟨.operator, "!", 5, 6⟩
    let difference : Operator := .between "-" 20 (.binary .subtract)
    let factorial : Operator := .after "!" (.unary .factorial)
    let items : List Item := [.name "a", .operator difference, .name "b", .operator factorial]
    ∃ built, Derivation.ofTokens .standard [a, minus, b, bang] = .ok built ∧
      built.items .standard [a, minus, b, bang] = .ok items ∧ Item.Apart items ∧
      ∃ e : Expression .standard, e.WellGrouped ∧ e.source = items ∧
        (∀ e' : Expression .standard, e'.WellGrouped → e'.source = items → e' = e) ∧
        Item.toPostfix items = .ok e.postorder := by
  intro a minus b bang difference factorial items
  let right : Tree :=
    .node .expression [.leaf .value b,
      .node .trailer [.leaf (.operator .after) bang, .node .trailer []]]
  let children : List Tree :=
    [.node .expression [.leaf .value a,
      .node .trailer [.leaf (.operator .between) minus, right]]]
  have predicted : (Tree.node .line children).Predicted .standard [] := by
    refine ⟨rfl, ⟨rfl, rfl, ⟨rfl, rfl, ⟨rfl, rfl, ⟨rfl, rfl, ⟨rfl, ?_⟩, ?_⟩, ?_⟩, ?_⟩, ?_⟩, ?_⟩
    all_goals trivial
  have resolved : (Tree.node .line children).items .standard none [] = .ok items := rfl
  have apart : Item.Apart items := by
    intro d arity _ inside
    have member : Item.call arity ∈ [.operator d, .call arity] := by simp
    have called := inside.subset member
    simp [items] at called
  obtain ⟨built, accepted, nodes⟩ := Derivation.ofTokens_of_predicted rfl predicted
  have same := Derivation.items_eq nodes (Tree.allGrammatical_line predicted)
  rw [resolved] at same
  exact ⟨built, accepted, same, apart,
    toPostfix_wellGrouped accepted same (List.cons_ne_nil _ _) apart⟩

end Calculator
