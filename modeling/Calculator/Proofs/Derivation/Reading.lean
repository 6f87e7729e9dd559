import Calculator.Proofs.Derivation.Arguments
import Calculator.Proofs.Grammar.Prediction

namespace Calculator

open Token

namespace Tree

variable {table : OperatorTable}

section Leaves

variable {above : Option Tree} {front back : List Token} {token : Token}

theorem itemsAll_singleton (c : Tree) :
    itemsAll table above front [c] = c.items table above front := by
  rw [itemsAll, itemsAll]
  cases c.items table above front <;> simp

theorem items_operator_eq {position : Position}
    (accepted : (Terminal.operator position).accepts table token = true)
    (inner : ¬ (position = .between ∧ above.map symbol = some (.rule .line)))
    (placed : (Turn.behind table front).position table token.text = position) :
    (leaf (.operator position) token).items table above front =
      itemsIn table front [token] back := by
  rw [itemsIn_singleton, itemIn, Terminal.kind_of_operator accepted]
  simp only [items, leafItems, placed, if_neg inner]
  cases table.find token.text position <;> rfl

theorem items_value_eq (accepted : Terminal.value.accepts table token = true) :
    (leaf .value token).items table above front = itemsIn table front [token] back := by
  have read : token.itemIn table front back = Derivation.value token := by
    rcases Terminal.kind_of_value accepted with h | h <;> simp [itemIn, h]
  rw [itemsIn_singleton, read]
  simp only [items, leafItems]
  cases Derivation.value token <;> rfl

theorem items_openParen_eq (accepted : Terminal.openParen.accepts table token = true)
    (opened : opening front above = openingIn table front back) :
    (leaf .openParen token).items table above front = itemsIn table front [token] back := by
  rw [itemsIn_singleton, itemIn, Terminal.kind_of_openParen accepted]
  simp only [items, leafItems, opened]
  cases openingIn table front back <;> rfl

theorem items_closeParen_eq (accepted : Terminal.closeParen.accepts table token = true) :
    (leaf .closeParen token).items table above front = itemsIn table front [token] back := by
  rw [itemsIn_singleton, itemIn, Terminal.kind_of_closeParen accepted]
  rfl

theorem items_comma_eq (accepted : Terminal.comma.accepts table token = true) :
    (leaf .comma token).items table above front = itemsIn table front [token] back := by
  rw [itemsIn_singleton, itemIn, Terminal.kind_of_comma accepted]
  rfl

end Leaves

/-- Trees below a node are read as their tokens are, and behind them this is due. -/
def Reads (table : OperatorTable) (above : Option Tree) (front back : List Token)
    (trees : List Tree) (turn : Turn) : Prop :=
  itemsAll table above front trees = itemsIn table front (tokensAll trees) back ∧
    Turn.behind table (front ++ tokensAll trees) = turn

section Reading

variable {above : Option Tree} {front back : List Token} {turn : Turn}

theorem Reads.nil (h : Turn.behind table front = turn) : Reads table above front back [] turn :=
  ⟨rfl, by simpa [tokensAll] using h⟩

theorem Reads.tree {rule : Rule} {children : List Tree}
    (h : Reads table (some (node rule children)) front back children turn) :
    (node rule children).items table above front =
      itemsIn table front (node rule children).tokens back := h.1

theorem Reads.cons {c : Tree} {cs : List Tree}
    (first : c.items table above front = itemsIn table front c.tokens (tokensAll cs ++ back))
    (later : Reads table above (front ++ c.tokens) back cs turn) :
    Reads table above front back (c :: cs) turn := by
  refine ⟨?_, ?_⟩
  · rw [itemsAll, tokensAll, itemsIn_append, first, later.1]
  · rw [tokensAll, ← List.append_assoc]
    exact later.2

theorem behind_closeParen {token : Token} (h : token.kind = .closeParen) :
    Turn.behind table (front ++ [token]) = .trailer := by
  rw [Turn.behind_concat, Turn.next, h]

/-- Behind an operand an operator is read after it only where it cannot stand between operands. -/
theorem not_between {token : Token}
    (accepted : (Terminal.operator .after).accepts table token = true)
    (body : Rule.trailer.body? (.of table (some token)) =
      some [.terminal (.operator .after), .rule .trailer]) :
    table.supports token.text .between = false := by
  rw [Lookahead.of_operator accepted] at body
  cases between : table.supports token.text .between with
  | false => rfl
  | true => simp [between, Rule.body?, Rule.joined] at body

/-- At the start of a line an operator is read before an operand wherever it can be. -/
theorem not_before {token : Token}
    (accepted : (Terminal.operator .between).accepts table token = true)
    (body : Rule.line.body? (.of table (some token)) = some Rule.joined) :
    table.supports token.text .before = false := by
  rw [Lookahead.of_operator accepted] at body
  cases before : table.supports token.text .before with
  | false => rfl
  | true => simp [before, Rule.body?, Rule.joined, Rule.prefixed] at body

end Reading

mutual

/-- Where an operand is due, an expression is read as its tokens are, and an operand has ended
behind it. -/
theorem reads_expression (es : List Tree) (front back : List Token)
    (predicted : (node .expression es).Predicted table back)
    (due : Turn.behind table front ≠ .trailer) :
    Reads table (some (node .expression es)) front back es .trailer := by
  obtain ⟨shaped, grammatical⟩ := grammatical_of_predicted _ (by simp [symbol]) predicted
  obtain ⟨-, parts⟩ := predicted
  rcases expression_shape shaped with ⟨o, inner, c, ks, rfl⟩ | ⟨o, operand, rfl⟩ | ⟨v, ks, rfl⟩
  · have ho := Terminal.kind_of_openParen parts.1
    have hc := Terminal.kind_of_closeParen parts.2.2.1
    have opened := opening_group (o := o) (tokensAll ks ++ back) ks grammatical.2.1 hc due
    have inside := reads_expression inner (front ++ [o])
      (tokensAll [leaf .closeParen c, node .trailer ks] ++ back) parts.2.1 (by simp [Turn.next, ho])
    have trailing := reads_trailer ks (front ++ [o] ++ tokensAll inner ++ [c]) back
      (by simpa [tokensAll] using parts.2.2.2.1) (behind_closeParen hc)
    exact .cons (items_openParen_eq parts.1 (by simpa [tokensAll, tokens] using opened))
      (.cons inside.tree (.cons (items_closeParen_eq parts.2.2.1)
        (.cons trailing.tree (.nil trailing.2))))
  · have before : (Turn.behind table front).position table o.text = .before := by
      have := Terminal.supports_of_accepts parts.1
      cases h : Turn.behind table front <;> simp_all [Turn.position]
    have operator := Terminal.kind_of_operator parts.1
    have operand := reads_expression operand (front ++ [o]) back
      (by simpa [tokensAll] using parts.2.1) (by simp [Turn.next, operator, before])
    exact .cons (items_operator_eq parts.1 (by simp [symbol]) before)
      (.cons operand.tree (.nil operand.2))
  · have ended : Turn.behind table (front ++ [v]) = .trailer := by
      rcases Terminal.kind_of_value parts.1 with hv | hv <;> simp [Turn.next, hv]
    have trailing := reads_trailer ks (front ++ [v]) back (by simpa [tokensAll] using parts.2.1)
      ended
    exact .cons (items_value_eq parts.1) (.cons trailing.tree (.nil trailing.2))
termination_by sizeAll es
decreasing_by
  all_goals
    subst_vars
    simp only [sizeAll, size]
    omega

/-- Where an operand has just ended, what comes behind it is read as its tokens are. -/
theorem reads_trailer (ks : List Tree) (front back : List Token)
    (predicted : (node .trailer ks).Predicted table back)
    (ended : Turn.behind table front = .trailer) :
    Reads table (some (node .trailer ks)) front back ks .trailer := by
  obtain ⟨shaped, grammatical⟩ := grammatical_of_predicted _ (by simp [symbol]) predicted
  obtain ⟨body, parts⟩ := predicted
  rcases trailer_shape shaped with ⟨cs, ks, rfl⟩ | ⟨o, right, rfl⟩ | ⟨o, ks, rfl⟩ | rfl
  · obtain ⟨o, args, c, rfl⟩ := call_shape grammatical.1.1
    obtain ⟨-, inside⟩ := parts.1
    have ho := Terminal.kind_of_openParen inside.1
    have hc := Terminal.kind_of_closeParen inside.2.2.1
    have opened := opening_call (o := o) (tokensAll ks ++ back) grammatical.1.2.2.1 hc ended
    obtain ⟨_, listed⟩ := reads_arguments (.inl rfl) args (front ++ [o])
      (tokensAll [leaf .closeParen c] ++ (tokensAll [node .trailer ks] ++ back)) inside.2.1
      (by simp [Turn.next, ho])
    have called : Reads table
        (some (node .call [leaf .openParen o, node .firstArgument args, leaf .closeParen c])) front
        (tokensAll [node .trailer ks] ++ back)
        [leaf .openParen o, node .firstArgument args, leaf .closeParen c] .trailer :=
      .cons (items_openParen_eq inside.1 (by simpa [tokensAll, tokens] using opened))
        (.cons listed.tree (.cons (items_closeParen_eq inside.2.2.1)
          (.nil (behind_closeParen hc))))
    have trailing := reads_trailer ks _ back (by simpa [tokensAll] using parts.2.1) called.2
    exact .cons called.tree (.cons trailing.tree (.nil trailing.2))
  · have between : (Turn.behind table front).position table o.text = .between := by
      simp [ended, Turn.position, Terminal.supports_of_accepts parts.1]
    have operator := Terminal.kind_of_operator parts.1
    have right := reads_expression right (front ++ [o]) back
      (by simpa [tokensAll] using parts.2.1) (by simp [Turn.next, operator, between])
    exact .cons (items_operator_eq parts.1 (by simp [symbol]) between)
      (.cons right.tree (.nil right.2))
  · have after : (Turn.behind table front).position table o.text = .after := by
      simp [ended, Turn.position, not_between parts.1 body]
    have operator := Terminal.kind_of_operator parts.1
    have trailing := reads_trailer ks (front ++ [o]) back
      (by simpa [tokensAll] using parts.2.1) (by simp [Turn.next, operator, after])
    exact .cons (items_operator_eq parts.1 (by simp [symbol]) after)
      (.cons trailing.tree (.nil trailing.2))
  · exact .nil ended
termination_by sizeAll ks
decreasing_by
  all_goals
    subst_vars
    simp only [sizeAll, size]
    omega

theorem reads_arguments {rule : Rule} (hr : rule = .firstArgument ∨ rule = .nextArgument)
    (args : List Tree) (front back : List Token) (predicted : (node rule args).Predicted table back)
    (due : Turn.behind table front = .operand) :
    ∃ turn, Reads table (some (node rule args)) front back args turn := by
  have inner : (node rule args).symbol ≠ .rule .line := by
    rcases hr with rfl | rfl <;> simp [symbol]
  obtain ⟨shaped, -⟩ := grammatical_of_predicted _ inner predicted
  obtain ⟨-, parts⟩ := predicted
  rcases argument_shape hr shaped with ⟨es, ts, rfl⟩ | rfl
  · have argument := reads_expression es front (tokensAll [node .argumentTail ts] ++ back) parts.1
      (by simp [due])
    obtain ⟨turn, tail⟩ := reads_tail ts (front ++ tokensAll es) back
      (by simpa [tokensAll] using parts.2.1)
    exact ⟨turn, .cons argument.tree (.cons tail.tree (.nil tail.2))⟩
  · exact ⟨_, .nil rfl⟩
termination_by sizeAll args
decreasing_by
  all_goals
    subst_vars
    simp only [sizeAll, size]
    omega

theorem reads_tail (ts : List Tree) (front back : List Token)
    (predicted : (node .argumentTail ts).Predicted table back) :
    ∃ turn, Reads table (some (node .argumentTail ts)) front back ts turn := by
  obtain ⟨shaped, -⟩ := grammatical_of_predicted _ (by simp [symbol]) predicted
  obtain ⟨-, parts⟩ := predicted
  rcases argumentTail_shape shaped with ⟨c, ns, rfl⟩ | rfl
  · have hc := Terminal.kind_of_comma parts.1
    obtain ⟨turn, next⟩ := reads_arguments (.inr rfl) ns (front ++ [c]) back
      (by simpa [tokensAll] using parts.2.1) (by simp [Turn.next, hc])
    exact ⟨turn, .cons (items_comma_eq parts.1) (.cons next.tree (.nil next.2))⟩
  · exact ⟨_, .nil rfl⟩
termination_by sizeAll ts
decreasing_by
  all_goals
    subst_vars
    simp only [sizeAll, size]
    omega

end

theorem impliedItems_expression {es : List Tree}
    (grammatical : (node .expression es).Grammatical table) :
    impliedItems table (tokensAll es) = [] := by
  obtain ⟨shaped, parts⟩ := grammatical
  rcases expression_shape shaped with ⟨o, inner, c, ks, rfl⟩ | ⟨o, operand, rfl⟩ | ⟨v, ks, rfl⟩
  · simp [tokensAll, tokens, impliedItems, Terminal.kind_of_openParen parts.1]
  · simp [tokensAll, tokens, impliedItems, Terminal.supports_of_accepts parts.1]
  · rcases Terminal.kind_of_value parts.1 with h | h <;> simp [tokensAll, tokens, impliedItems, h]

/-- A line is read as its tokens are, with the last result in front. -/
def ReadsLine (table : OperatorTable) (children : List Tree) : Prop :=
  (node .line children).items table none [] =
    (itemsIn table [] (tokensAll children) []).map (impliedItems table (tokensAll children) ++ ·)

theorem Reads.line {children : List Tree} {turn : Turn}
    (read : Reads table (some (node .line children)) [] [] children turn)
    (implied : impliedItems table (tokensAll children) = []) : ReadsLine table children := by
  rw [ReadsLine, items, read.1, implied]
  cases itemsIn table [] (tokensAll children) [] <;> rfl

/-- An operator between operands at the start of a line stands for two items. -/
theorem readsLine_joined {o : Token} {es : List Tree}
    (accepted : (Terminal.operator .between).accepts table o = true)
    (before : table.supports o.text .before = false)
    (predicted : (node .expression es).Predicted table []) :
    ReadsLine table [leaf (.operator .between) o, node .expression es] := by
  have operator := Terminal.kind_of_operator accepted
  have right := reads_expression es [o] [] predicted
    (by simp [Turn.behind, Turn.next, operator, Turn.position, before])
  have operand : (node .expression es).items table
      (some (node .line [leaf (.operator .between) o, node .expression es])) [o] =
      itemsIn table [o] (tokensAll es) [] := right.1
  have whole :
      tokensAll [leaf (.operator .between) o, node .expression es] = o :: tokensAll es := by
    simp [tokensAll, tokens]
  have implied : impliedItems table (o :: tokensAll es) = [.name answerName] := by
    simp [impliedItems, operator, before, Terminal.supports_of_accepts accepted]
  have first : o.itemIn table [] (tokensAll es) =
      (table.find o.text .between).map .operator := by
    simp [itemIn, operator, Turn.position, before]
  rw [ReadsLine, items, itemsAll, itemsAll_singleton, tokens, List.nil_append, operand, whole,
    implied, itemsIn, List.append_nil, first]
  cases found : table.find o.text .between with
  | error e => simp [items, leafItems, found, Except.map]
  | ok d =>
    cases later : itemsIn table [o] (tokensAll es) [] <;>
      simp [items, leafItems, found, later, Except.map, symbol]

theorem readsLine_of_predicted {children : List Tree}
    (predicted : (node .line children).Predicted table []) : ReadsLine table children := by
  have grammatical := allGrammatical_line predicted
  obtain ⟨body, parts⟩ := predicted
  rcases line_body body with shaped | shaped
  · rcases line_shape shaped with ⟨es, rfl⟩ | ⟨o, es, rfl⟩ | rfl
    · have only := reads_expression es [] [] parts.1 (by simp)
      have read : Reads table (some (node .line [node .expression es])) [] []
          [node .expression es] .trailer := .cons only.tree (.nil only.2)
      apply read.line
      simpa [tokensAll, tokens] using impliedItems_expression grammatical.1
    · exact readsLine_joined parts.1 (not_before parts.1 body) parts.2.1
    · exact Reads.line (.nil rfl) rfl
  · obtain ⟨o, es, rfl⟩ := prefixed_shape shaped
    have operator := Terminal.kind_of_operator parts.1
    have before := Terminal.supports_of_accepts parts.1
    have operand := reads_expression es [o] [] parts.2.1
      (by simp [Turn.behind, Turn.next, operator, Turn.position, before])
    have read : Reads table (some (node .line [leaf (.operator .before) o, node .expression es]))
        [] [] [leaf (.operator .before) o, node .expression es] .trailer :=
      .cons (items_operator_eq parts.1 (by simp) (by simp [Turn.position, before]))
        (.cons operand.tree (.nil operand.2))
    apply read.line
    simp [tokensAll, tokens, impliedItems, before]

end Tree

end Calculator
