import Calculator.Proofs.Phrase.Derivation
import Calculator.Proofs.Token.Spelling

namespace Calculator

open Item

namespace Tree

/-- A rule over trees of these tokens that have these items. -/
structure Reading (table : OperatorTable) (rule : Rule) (children : List Tree)
    (tokens : List Token) (items : List Item) : Prop where
  grammatical : (node rule children).Grammatical table
  tokens_eq : tokensAll children = tokens
  items_eq : ∀ front, itemsAll table (some (node rule children)) front children = .ok items

section Productions

variable {table : OperatorTable} {es ks as ts : List Tree} {o c t : Token}
  {first later : List Token} {xs ys : List Item}

theorem Reading.items {rule : Rule} {children : List Tree}
    (h : Reading table rule children first xs) (above : Option Tree) (front : List Token) :
    (node rule children).items table above front = .ok xs := by
  rw [Tree.items, h.items_eq]

theorem accepts_operator {position : Position} (d : table.Placed position)
    (kind : t.kind = .operator) (text : t.text = d.val.symbol) :
    (Terminal.operator position).accepts table t = true := by
  have supported : table.supports t.text position = true :=
    OperatorTable.supports_iff.mpr ⟨d, d.2.1, text.symm, d.2.2⟩
  simp [Terminal.accepts, kind, supported]

/-- Below any rule but the line, an operator token stands for the definition that it spells. -/
theorem items_operator_of_text (unambiguous : table.Unambiguous) {position : Position}
    (d : table.Placed position) (text : t.text = d.val.symbol) {rule : Rule} (inner : rule ≠ .line)
    (children : List Tree) (front : List Token) :
    (leaf (.operator position) t).items table (some (node rule children)) front =
      .ok [.operator d] := by
  have found := OperatorTable.find_of_mem unambiguous d.2.1
  rw [d.2.2, ← text] at found
  simp [Tree.items, leafItems, found, symbol, inner]

theorem Reading.value {item : Item} (accepted : Terminal.value.accepts table t = true)
    (stands : Derivation.value t = .ok item) (trailer : Reading table .trailer ks later ys) :
    Reading table .expression [leaf .value t, node .trailer ks] (t :: later) (item :: ys) where
  grammatical := ⟨by simp [Rule.bodies, symbol], accepted, trailer.grammatical, trivial⟩
  tokens_eq := by simp [tokensAll, tokens, trailer.tokens_eq]
  items_eq front := by
    simp [itemsAll, Tree.items, leafItems, stands, trailer.items_eq]

theorem Reading.group (ho : o.kind = .openParen) (hc : c.kind = .closeParen)
    (inner : Reading table .expression es first xs) (trailer : Reading table .trailer ks later ys) :
    Reading table .expression
      [leaf .openParen o, node .expression es, leaf .closeParen c, node .trailer ks]
      (o :: (first ++ c :: later)) (.openParen :: (xs ++ .closeParen :: ys)) where
  grammatical := ⟨by simp [Rule.bodies, symbol], by simp [Grammatical, Terminal.accepts, ho],
    inner.grammatical, by simp [Grammatical, Terminal.accepts, hc], trailer.grammatical, trivial⟩
  tokens_eq := by simp [tokensAll, tokens, inner.tokens_eq, trailer.tokens_eq]
  items_eq front := by
    simp [itemsAll, Tree.items, leafItems, opening, inner.items_eq, trailer.items_eq]

theorem Reading.before (unambiguous : table.Unambiguous) (d : table.Placed .before)
    (kind : t.kind = .operator) (text : t.text = d.val.symbol)
    (operand : Reading table .expression es later ys) :
    Reading table .expression [leaf (.operator .before) t, node .expression es] (t :: later)
      (.operator d :: ys) where
  grammatical := ⟨by simp [Rule.bodies, Rule.prefixed, symbol], accepts_operator d kind text,
    operand.grammatical, trivial⟩
  tokens_eq := by simp [tokensAll, tokens, operand.tokens_eq]
  items_eq front := by
    simp [itemsAll, items_operator_of_text unambiguous d text, operand.items]

theorem Reading.nothing {rule : Rule} (h : [] ∈ rule.bodies) : Reading table rule [] [] [] :=
  ⟨⟨h, trivial⟩, rfl, fun _ => rfl⟩

theorem Reading.after (unambiguous : table.Unambiguous) (d : table.Placed .after)
    (kind : t.kind = .operator) (text : t.text = d.val.symbol)
    (trailer : Reading table .trailer ks later ys) :
    Reading table .trailer [leaf (.operator .after) t, node .trailer ks] (t :: later)
      (.operator d :: ys) where
  grammatical := ⟨by simp [Rule.bodies, symbol], accepts_operator d kind text,
    trailer.grammatical, trivial⟩
  tokens_eq := by simp [tokensAll, tokens, trailer.tokens_eq]
  items_eq front := by
    simp [itemsAll, items_operator_of_text unambiguous d text, trailer.items]

theorem Reading.between (unambiguous : table.Unambiguous) (d : table.Placed .between)
    (kind : t.kind = .operator) (text : t.text = d.val.symbol)
    (right : Reading table .expression es later ys) :
    Reading table .trailer [leaf (.operator .between) t, node .expression es] (t :: later)
      (.operator d :: ys) where
  grammatical := ⟨by simp [Rule.bodies, Rule.joined, symbol], accepts_operator d kind text,
    right.grammatical, trivial⟩
  tokens_eq := by simp [tokensAll, tokens, right.tokens_eq]
  items_eq front := by
    simp [itemsAll, items_operator_of_text unambiguous d text, right.items]

theorem Reading.call {n : Nat} (ho : o.kind = .openParen) (hc : c.kind = .closeParen)
    (args : Reading table .firstArgument as first xs)
    (counted : (node .firstArgument as).count = .ok n)
    (trailer : Reading table .trailer ks later ys) :
    Reading table .trailer
      [node .call [leaf .openParen o, node .firstArgument as, leaf .closeParen c], node .trailer ks]
      (o :: (first ++ c :: later)) (.call n :: (xs ++ .closeParen :: ys)) where
  grammatical := ⟨by simp [Rule.bodies, symbol],
    ⟨by simp [Rule.bodies, symbol], by simp [Grammatical, Terminal.accepts, ho], args.grammatical,
      by simp [Grammatical, Terminal.accepts, hc], trivial⟩, trailer.grammatical, trivial⟩
  tokens_eq := by simp [tokensAll, tokens, args.tokens_eq, trailer.tokens_eq]
  items_eq front := by
    simp [itemsAll, Tree.items, leafItems, opening, counted, args.items_eq, trailer.items_eq]

theorem Reading.arguments (argument : Reading table .expression es first xs)
    (tail : Reading table .argumentTail ts later ys) :
    Reading table .firstArgument [node .expression es, node .argumentTail ts] (first ++ later)
      (xs ++ ys) where
  grammatical := ⟨by simp [Rule.bodies, symbol], argument.grammatical, tail.grammatical, trivial⟩
  tokens_eq := by simp [tokensAll, tokens, argument.tokens_eq, tail.tokens_eq]
  items_eq front := by
    simp [itemsAll, Tree.items, argument.items_eq, tail.items_eq]

theorem Reading.tail (hc : c.kind = .comma) (argument : Reading table .expression es first xs)
    (tail : Reading table .argumentTail ts later ys) :
    Reading table .argumentTail
      [leaf .comma c, node .nextArgument [node .expression es, node .argumentTail ts]]
      (c :: (first ++ later)) (.comma :: (xs ++ ys)) where
  grammatical := ⟨by simp [Rule.bodies, symbol], by simp [Grammatical, Terminal.accepts, hc],
    ⟨by simp [Rule.bodies, symbol], argument.grammatical, tail.grammatical, trivial⟩, trivial⟩
  tokens_eq := by simp [tokensAll, tokens, argument.tokens_eq, tail.tokens_eq]
  items_eq front := by
    simp [itemsAll, Tree.items, leafItems, argument.items_eq, tail.items_eq]

end Productions

section Phrases

variable {table : OperatorTable}

mutual

/-- Tokens that stand for the items of a phrase are those of an expression with these items. -/
theorem exists_reading_phrase (unambiguous : table.Unambiguous) {tokens : List Token} :
    (p : Phrase table) → Spelled p.items tokens → ∃ es, Reading table .expression es tokens p.items
  | .literal n k, h => by
    obtain ⟨t, later, ⟨kind, text⟩, hk, rfl⟩ := List.forall₂_cons_left_iff.mp h
    obtain ⟨ks, trailer⟩ := exists_reading_trailer unambiguous k hk
    exact ⟨_, .value (by simp [Terminal.accepts, kind]) (by simp [Derivation.value, kind, text])
      trailer⟩
  | .name x k, h => by
    obtain ⟨t, later, ⟨kind, text⟩, hk, rfl⟩ := List.forall₂_cons_left_iff.mp h
    obtain ⟨ks, trailer⟩ := exists_reading_trailer unambiguous k hk
    exact ⟨_, .value (by simp [Terminal.accepts, kind]) (by simp [Derivation.value, kind, text])
      trailer⟩
  | .group inner k, h => by
    obtain ⟨o, tokens, ho, enclosed, rfl⟩ := List.forall₂_cons_left_iff.mp h
    obtain ⟨first, rest, hi, closed, rfl⟩ := spelled_append enclosed
    obtain ⟨c, later, hc, hk, rfl⟩ := List.forall₂_cons_left_iff.mp closed
    obtain ⟨es, inside⟩ := exists_reading_phrase unambiguous inner hi
    obtain ⟨ks, trailer⟩ := exists_reading_trailer unambiguous k hk
    exact ⟨_, .group ho hc inside trailer⟩
  | .before d operand, h => by
    obtain ⟨t, later, ⟨kind, text⟩, hi, rfl⟩ := List.forall₂_cons_left_iff.mp h
    obtain ⟨es, inside⟩ := exists_reading_phrase unambiguous operand hi
    exact ⟨_, .before unambiguous d kind text inside⟩

theorem exists_reading_trailer (unambiguous : table.Unambiguous) {tokens : List Token} :
    (k : Trailer table) → Spelled k.items tokens → ∃ ks, Reading table .trailer ks tokens k.items
  | .done, h => by
    obtain rfl := List.forall₂_nil_left_iff.mp h
    exact ⟨_, .nothing (by simp [Rule.bodies])⟩
  | .call args k, h => by
    obtain ⟨o, tokens, ho, enclosed, rfl⟩ := List.forall₂_cons_left_iff.mp h
    obtain ⟨first, rest, ha, closed, rfl⟩ := spelled_append enclosed
    obtain ⟨c, later, hc, hk, rfl⟩ := List.forall₂_cons_left_iff.mp closed
    obtain ⟨as, inside, counted⟩ := exists_reading_arguments unambiguous args ha
    obtain ⟨ks, trailer⟩ := exists_reading_trailer unambiguous k hk
    exact ⟨_, .call ho hc inside counted trailer⟩
  | .after d k, h => by
    obtain ⟨t, later, ⟨kind, text⟩, hk, rfl⟩ := List.forall₂_cons_left_iff.mp h
    obtain ⟨ks, trailer⟩ := exists_reading_trailer unambiguous k hk
    exact ⟨_, .after unambiguous d kind text trailer⟩
  | .between d right, h => by
    obtain ⟨t, later, ⟨kind, text⟩, hi, rfl⟩ := List.forall₂_cons_left_iff.mp h
    obtain ⟨es, inside⟩ := exists_reading_phrase unambiguous right hi
    exact ⟨_, .between unambiguous d kind text inside⟩

theorem exists_reading_arguments (unambiguous : table.Unambiguous) {tokens : List Token} :
    (ps : List (Phrase table)) → Spelled (listed (Phrase.itemsAll ps)) tokens →
      ∃ as, Reading table .firstArgument as tokens (listed (Phrase.itemsAll ps)) ∧
        (node .firstArgument as).count = .ok ps.length
  | [], h => by
    obtain rfl := List.forall₂_nil_left_iff.mp h
    exact ⟨_, .nothing (by simp [Rule.bodies]), rfl⟩
  | p :: ps, h => by
    obtain ⟨first, later, hp, hl, rfl⟩ := spelled_append h
    obtain ⟨es, argument⟩ := exists_reading_phrase unambiguous p hp
    obtain ⟨ts, tail, counted⟩ := exists_reading_later unambiguous ps hl
    refine ⟨_, .arguments argument tail, ?_⟩
    rw [count, counted 1, List.length_cons, Nat.add_comm]

theorem exists_reading_later (unambiguous : table.Unambiguous) {tokens : List Token} :
    (ps : List (Phrase table)) → Spelled ((Phrase.itemsAll ps).flatMap (.comma :: ·)) tokens →
      ∃ ts, Reading table .argumentTail ts tokens ((Phrase.itemsAll ps).flatMap (.comma :: ·)) ∧
        ∀ m, (node .argumentTail ts).countTail m = .ok (m + ps.length)
  | [], h => by
    obtain rfl := List.forall₂_nil_left_iff.mp h
    exact ⟨_, .nothing (by simp [Rule.bodies]), fun _ => rfl⟩
  | p :: ps, h => by
    obtain ⟨c, rest, hc, behind, rfl⟩ := List.forall₂_cons_left_iff.mp h
    obtain ⟨first, later, hp, hl, rfl⟩ := spelled_append behind
    obtain ⟨es, argument⟩ := exists_reading_phrase unambiguous p hp
    obtain ⟨ts, tail, counted⟩ := exists_reading_later unambiguous ps hl
    refine ⟨_, .tail hc argument tail, fun m => ?_⟩
    rw [countTail, counted (m + 1), List.length_cons, Nat.add_right_comm, Nat.add_assoc]

end

/-- A line of an expression alone reads as the expression does. -/
theorem Reading.line (separated : table.Separated) {es : List Tree} {tokens : List Token}
    {items : List Item} (h : Reading table .expression es tokens items) :
    ∃ children, (node .line children).Predicted table [] ∧ tokensAll children = tokens ∧
      (node .line children).items table none [] = .ok items := by
  have predicted : (node .expression es).Predicted table [] :=
    predicted_of_grammatical separated [] _ (by simp [symbol]) h.grammatical fun _ hr => by
      cases hr
      exact .inl rfl
  have whole : tokensAll [node .expression es] = tokens := by
    simp [tokensAll, Tree.tokens, h.tokens_eq]
  have alone : (node .line [node .expression es]).items table none [] = .ok items := by
    simp [Tree.items, itemsAll, h.items_eq]
  obtain ⟨shaped, parts⟩ := h.grammatical
  rcases expression_shape shaped with ⟨o, inner, c, ks, rfl⟩ | ⟨o, operand, rfl⟩ | ⟨v, ks, rfl⟩
  · refine ⟨[node .expression _], ⟨?_, predicted, trivial⟩, whole, alone⟩
    simp [tokensAll, Tree.tokens, Lookahead.of_openParen parts.1, Rule.body?, symbol]
  · -- The operator belongs to the line itself, where it means the same.
    refine ⟨[leaf (.operator .before) o, node .expression operand], ⟨?_, predicted.2⟩,
      h.tokens_eq, ?_⟩
    · simp [tokensAll, Tree.tokens, Lookahead.of_operator parts.1,
        Terminal.supports_of_accepts parts.1, Rule.body?, symbol, Rule.prefixed]
    · rw [Tree.items, ← h.items_eq []]
      simp [itemsAll, Tree.items, leafItems]
  · refine ⟨[node .expression _], ⟨?_, predicted, trivial⟩, whole, alone⟩
    simp [tokensAll, Tree.tokens, Lookahead.of_value parts.1, Rule.body?, symbol]

end Phrases

end Tree

/-- Tokens that stand for the items of a phrase are accepted, and have these items. -/
theorem Derivation.items_of_phrase {table : OperatorTable} (unambiguous : table.Unambiguous)
    (separated : table.Separated) (p : Phrase table) {tokens : List Token}
    (h : Spelled p.items tokens) :
    ∃ built, ofTokens table tokens = .ok built ∧ built.items table tokens = .ok p.items := by
  obtain ⟨es, reading⟩ := Tree.exists_reading_phrase unambiguous p h
  obtain ⟨children, predicted, rfl, resolved⟩ := reading.line separated
  obtain ⟨built, accepted, nodes⟩ := ofTokens_of_predicted rfl predicted
  have same := items_eq nodes (Tree.allGrammatical_line predicted)
  exact ⟨built, accepted, same.trans resolved⟩

end Calculator
