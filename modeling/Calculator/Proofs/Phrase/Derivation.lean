import Calculator.Proofs.Derivation.Items
import Calculator.Proofs.Grammar.Prediction
import Calculator.Proofs.Phrase

namespace Calculator

open Item

variable {table : OperatorTable}

theorem Derivation.value_eq_ok {token : Token} {item : Item} (h : value token = .ok item) :
    (∃ n, item = .literal n) ∨ ∃ x, item = .name x := by
  unfold value at h
  repeat' split at h
  all_goals cases h
  · exact .inl ⟨_, rfl⟩
  · exact .inr ⟨_, rfl⟩

namespace Tree

variable {above : Option Tree} {front : List Token}

theorem itemsAll_cons {c : Tree} {cs : List Tree} {items : List Item}
    (h : itemsAll table above front (c :: cs) = .ok items) :
    ∃ first later, c.items table above front = .ok first ∧
      itemsAll table above (front ++ c.tokens) cs = .ok later ∧ first ++ later = items := by
  rw [itemsAll] at h
  obtain ⟨first, hf, h⟩ := bind_eq_ok.mp h
  obtain ⟨later, hl, h⟩ := bind_eq_ok.mp h
  exact ⟨first, later, hf, hl, Except.ok.inj h⟩

theorem itemsAll_nil {items : List Item} (h : itemsAll table above front [] = .ok items) :
    items = [] :=
  (Except.ok.inj h).symm

theorem itemsAll_pair {c d : Tree} {items : List Item}
    (h : itemsAll table above front [c, d] = .ok items) :
    ∃ first second, c.items table above front = .ok first ∧
      d.items table above (front ++ c.tokens) = .ok second ∧ first ++ second = items := by
  obtain ⟨first, rest, hc, hr, rfl⟩ := itemsAll_cons h
  obtain ⟨second, later, hd, hl, rfl⟩ := itemsAll_cons hr
  obtain rfl := itemsAll_nil hl
  exact ⟨first, second, hc, hd, by simp⟩

/-- An operator is read as its definition. Only at the start of a line the last result comes in
front of it. -/
theorem items_operator {position : Position} {token : Token} {items : List Item}
    (h : (leaf (.operator position) token).items table above front = .ok items) :
    ∃ d : table.Placed position, items =
      (if position = .between ∧ above.map symbol = some (.rule .line) then [.name answerName]
        else []) ++ [.operator d] := by
  simp only [Tree.items, leafItems] at h
  obtain ⟨d, found, h⟩ := bind_eq_ok.mp h
  exact ⟨⟨d, OperatorTable.placed_of_find found⟩, (Except.ok.inj h).symm⟩

theorem items_value {token : Token} {items : List Item}
    (h : (leaf .value token).items table above front = .ok items) :
    (∃ n, items = [.literal n]) ∨ ∃ x, items = [.name x] := by
  simp only [Tree.items, leafItems] at h
  obtain ⟨item, found, h⟩ := bind_eq_ok.mp h
  obtain rfl := Except.ok.inj h
  rcases Derivation.value_eq_ok found with ⟨n, rfl⟩ | ⟨x, rfl⟩
  · exact .inl ⟨n, rfl⟩
  · exact .inr ⟨x, rfl⟩

/-- An opening parenthesis of a call says how many arguments there are. -/
theorem items_call {o c : Token} {args : Tree} {items : List Item}
    (h : (leaf .openParen o).items table
      (some (node .call [leaf .openParen o, args, leaf .closeParen c])) front = .ok items) :
    ∃ n, args.count = .ok n ∧ items = [.call n] := by
  simp only [Tree.items, leafItems, opening] at h
  cases counted : args.count with
  | error index => simp [counted] at h
  | ok n => exact ⟨n, rfl, by simpa [counted] using h.symm⟩

theorem items_group {o : Token} {children : List Tree} {items : List Item}
    (h : (leaf .openParen o).items table (some (node .expression children)) front = .ok items) :
    items = [.openParen] := by
  simpa [Tree.items, leafItems, opening] using h.symm

mutual

/-- The items of an expression are those of a phrase. -/
theorem exists_phrase {front : List Token} {items : List Item} (above : Option Tree)
    (es : List Tree) (grammatical : (node .expression es).Grammatical table)
    (h : (node .expression es).items table above front = .ok items) :
    ∃ p : Phrase table, p.items = items := by
  obtain ⟨shaped, parts⟩ := grammatical
  rcases expression_shape shaped with ⟨o, inner, c, ks, rfl⟩ | ⟨o, operand, rfl⟩ | ⟨v, ks, rfl⟩
  · obtain ⟨opens, rest, ho, hr, rfl⟩ := itemsAll_cons h
    obtain ⟨inside, rest, hi, hr', rfl⟩ := itemsAll_cons hr
    obtain ⟨closes, trailer, hc, hk, rfl⟩ := itemsAll_pair hr'
    obtain rfl := items_group ho
    obtain rfl := Except.ok.inj hc
    obtain ⟨p, rfl⟩ := exists_phrase _ inner parts.2.1 hi
    obtain ⟨k, rfl⟩ := exists_trailer _ ks parts.2.2.2.1 hk
    exact ⟨.group p k, by simp [Phrase.items]⟩
  · obtain ⟨first, rest, ho, hi, rfl⟩ := itemsAll_pair h
    obtain ⟨d, rfl⟩ := items_operator ho
    obtain ⟨p, rfl⟩ := exists_phrase _ operand parts.2.1 hi
    exact ⟨.before d p, by simp [Phrase.items]⟩
  · obtain ⟨first, rest, hv, hk, rfl⟩ := itemsAll_pair h
    obtain ⟨k, rfl⟩ := exists_trailer _ ks parts.2.1 hk
    rcases items_value hv with ⟨n, rfl⟩ | ⟨x, rfl⟩
    · exact ⟨.literal n k, by simp [Phrase.items]⟩
    · exact ⟨.name x k, by simp [Phrase.items]⟩
termination_by sizeAll es
decreasing_by
  all_goals
    subst_vars
    simp only [sizeAll, size]
    omega

theorem exists_trailer {front : List Token} {items : List Item} (above : Option Tree)
    (ks : List Tree) (grammatical : (node .trailer ks).Grammatical table)
    (h : (node .trailer ks).items table above front = .ok items) :
    ∃ k : Trailer table, k.items = items := by
  obtain ⟨shaped, parts⟩ := grammatical
  rcases trailer_shape shaped with ⟨cs, ks, rfl⟩ | ⟨o, right, rfl⟩ | ⟨o, ks, rfl⟩ | rfl
  · obtain ⟨called, rest, hc, hk, rfl⟩ := itemsAll_pair h
    obtain ⟨k, rfl⟩ := exists_trailer _ ks parts.2.1 hk
    obtain ⟨shaped, inside⟩ := parts.1
    obtain ⟨o, args, c, rfl⟩ := call_shape shaped
    obtain ⟨opens, rest, ho, hr, rfl⟩ := itemsAll_cons hc
    obtain ⟨list, closes, ha, hl, rfl⟩ := itemsAll_pair hr
    obtain rfl := Except.ok.inj hl
    obtain ⟨n, counted, rfl⟩ := items_call ho
    obtain ⟨ps, rfl, rfl⟩ := exists_arguments _ args inside.2.1 ha counted
    exact ⟨.call ps k, by simp [Trailer.items]⟩
  · obtain ⟨first, rest, ho, hi, rfl⟩ := itemsAll_pair h
    obtain ⟨d, rfl⟩ := items_operator ho
    obtain ⟨p, rfl⟩ := exists_phrase _ right parts.2.1 hi
    exact ⟨.between d p, by simp [Trailer.items, symbol]⟩
  · obtain ⟨first, rest, ho, hk, rfl⟩ := itemsAll_pair h
    obtain ⟨d, rfl⟩ := items_operator ho
    obtain ⟨k, rfl⟩ := exists_trailer _ ks parts.2.1 hk
    exact ⟨.after d k, by simp [Trailer.items]⟩
  · obtain rfl := Except.ok.inj h
    exact ⟨.done, rfl⟩
termination_by sizeAll ks
decreasing_by
  all_goals
    subst_vars
    simp only [sizeAll, size]
    omega

theorem exists_arguments {front : List Token} {items : List Item} {n : Nat} (above : Option Tree)
    (args : List Tree) (grammatical : (node .firstArgument args).Grammatical table)
    (h : (node .firstArgument args).items table above front = .ok items)
    (counted : (node .firstArgument args).count = .ok n) :
    ∃ ps : List (Phrase table), listed (Phrase.itemsAll ps) = items ∧ ps.length = n := by
  obtain ⟨shaped, parts⟩ := grammatical
  rcases argument_shape (.inl rfl) shaped with ⟨es, ts, rfl⟩ | rfl
  · obtain ⟨first, rest, he, ht, rfl⟩ := itemsAll_pair h
    obtain ⟨p, rfl⟩ := exists_phrase _ es parts.1 he
    obtain ⟨ps, rfl, rfl⟩ := exists_later _ ts parts.2.1 ht counted
    exact ⟨p :: ps, by simp [Phrase.itemsAll, listed], Nat.add_comm _ _⟩
  · obtain rfl := Except.ok.inj h
    exact ⟨[], rfl, Except.ok.inj counted⟩
termination_by sizeAll args
decreasing_by
  all_goals
    subst_vars
    simp only [sizeAll, size]
    omega

theorem exists_later {front : List Token} {items : List Item} {counted n : Nat}
    (above : Option Tree) (ts : List Tree) (grammatical : (node .argumentTail ts).Grammatical table)
    (h : (node .argumentTail ts).items table above front = .ok items)
    (counts : (node .argumentTail ts).countTail counted = .ok n) :
    ∃ ps : List (Phrase table),
      (Phrase.itemsAll ps).flatMap (.comma :: ·) = items ∧ counted + ps.length = n := by
  obtain ⟨shaped, parts⟩ := grammatical
  rcases argumentTail_shape shaped with ⟨c, ns, rfl⟩ | rfl
  · obtain ⟨first, rest, hc, hn, rfl⟩ := itemsAll_pair h
    obtain rfl := Except.ok.inj hc
    obtain ⟨shaped, inside⟩ := parts.2.1
    rcases argument_shape (.inr rfl) shaped with ⟨es, ts, rfl⟩ | rfl
    · obtain ⟨argument, later, he, ht, rfl⟩ := itemsAll_pair hn
      obtain ⟨p, rfl⟩ := exists_phrase _ es inside.1 he
      obtain ⟨ps, rfl, rfl⟩ := exists_later _ ts inside.2.1 ht counts
      exact ⟨p :: ps, by simp [Phrase.itemsAll], by simp only [List.length_cons]; omega⟩
    · cases counts
  · obtain rfl := Except.ok.inj h
    exact ⟨[], rfl, Except.ok.inj counts⟩
termination_by sizeAll ts
decreasing_by
  all_goals
    subst_vars
    simp only [sizeAll, size]
    omega

end

theorem tokens_expression_ne_nil {es : List Tree}
    (grammatical : (node .expression es).Grammatical table) :
    (node .expression es).tokens ≠ [] := by
  rcases expression_shape grammatical.1 with ⟨o, inner, c, ks, rfl⟩ | ⟨o, operand, rfl⟩ |
    ⟨v, ks, rfl⟩
  all_goals simp [tokens, tokensAll]

/-- A line without tokens has no items, and any other has those of a phrase. -/
theorem items_line {children : List Tree} {items : List Item}
    (shaped : children.map symbol ∈ Rule.line.bodies ∨ children.map symbol = Rule.prefixed)
    (grammatical : AllGrammatical table children)
    (h : (node .line children).items table none [] = .ok items) :
    (tokensAll children = [] ∧ items = []) ∨
      tokensAll children ≠ [] ∧ ∃ p : Phrase table, p.items = items := by
  rcases shaped with shaped | shaped
  · rcases line_shape shaped with ⟨es, rfl⟩ | ⟨o, es, rfl⟩ | rfl
    · obtain ⟨first, rest, he, hr, rfl⟩ := itemsAll_cons h
      obtain rfl := itemsAll_nil hr
      obtain ⟨p, rfl⟩ := exists_phrase _ es grammatical.1 he
      have present := tokens_expression_ne_nil grammatical.1
      refine .inr ⟨?_, p, (List.append_nil _).symm⟩
      simpa [tokensAll] using present
    · obtain ⟨first, rest, ho, he, rfl⟩ := itemsAll_pair h
      obtain ⟨d, rfl⟩ := items_operator ho
      obtain ⟨p, rfl⟩ := exists_phrase _ es grammatical.2.1 he
      refine .inr ⟨by simp [tokensAll, tokens], .name answerName (.between d p), ?_⟩
      simp [Phrase.items, Trailer.items, symbol]
    · exact .inl ⟨rfl, (Except.ok.inj h).symm⟩
  · obtain ⟨o, es, rfl⟩ := prefixed_shape shaped
    obtain ⟨first, rest, ho, he, rfl⟩ := itemsAll_pair h
    obtain ⟨d, rfl⟩ := items_operator ho
    obtain ⟨p, rfl⟩ := exists_phrase _ es grammatical.2.1 he
    exact .inr ⟨by simp [tokensAll, tokens], .before d p, by simp [Phrase.items]⟩

end Tree

namespace Derivation

/-- The items of an accepted line are none, where it has no tokens, or those of a phrase. -/
theorem items_cases {table : OperatorTable} {tokens : List Token} {built : Derivation}
    {items : List Item} (accepted : ofTokens table tokens = .ok built)
    (resolved : built.items table tokens = .ok items) :
    (tokens = [] ∧ items = []) ∨ tokens ≠ [] ∧ ∃ p : Phrase table, p.items = items := by
  obtain ⟨tree, line, predicted, rfl, nodes⟩ := exists_predicted accepted
  obtain ⟨children, rfl⟩ := Tree.symbol_eq_rule.mp line
  have grammatical := Tree.allGrammatical_line predicted
  rw [Tree.tokens, items_eq nodes grammatical] at resolved
  exact Tree.items_line (Tree.line_body predicted.1) grammatical resolved

end Derivation

end Calculator
