import Calculator.Proofs.Derivation.Moving
import Calculator.Proofs.Line.Items
import Calculator.Proofs.Phrase.Reading

namespace Calculator

open Token Calculator.Tree

variable {table : OperatorTable}

namespace Token

section Due

variable {front front' : List Token} (due : Turn.behind table front ≠ .trailer)
  (due' : Turn.behind table front' ≠ .trailer)

include due

theorem itemIn_group {o c : Token} {inner : List Token} (opens : o.kind = .openParen)
    (undivided : Undivided inner) (closes : c.kind = .closeParen) (back : List Token) :
    o.itemIn table front (inner ++ c :: back) = .ok .openParen := by
  have enclosed := undivided.balanced.inside_enclosed closes back
  simp [itemIn, opens, openingIn, enclosed, undivided.not_endsInComma, due]

theorem position_due {token : Token}
    (accepted : (Terminal.operator .before).accepts table token = true) :
    (Turn.behind table front).position table token.text = .before := by
  have before := Terminal.supports_of_accepts accepted
  cases turn : Turn.behind table front with
  | line => simp [Turn.position, before]
  | operand => rfl
  | trailer => exact absurd turn due

include due'

/-- Where an operand is due, an expression does not depend on what is in front of it. -/
theorem itemsIn_due {es : List Tree} (grammatical : (node .expression es).Grammatical table)
    (n : Nat) : itemsIn table front' ((tokensAll es).map (moved n)) [] =
      (itemsIn table front (tokensAll es) []).mapError (ReadError.moved n) := by
  -- Behind its first token there is nothing but that token for the expression to depend on.
  have rest (first : Token) (later : List Token)
      (item : first.itemIn table front' later = first.itemIn table front later)
      (turn : (Turn.behind table front).next table first =
        (Turn.behind table front').next table first) :
      itemsIn table front' ((first :: later).map (moved n)) [] =
        (itemsIn table front (first :: later) []).mapError (ReadError.moved n) := by
    have moves : (first.moved n).itemIn table front' (later.map (moved n)) =
        (first.itemIn table front' later).mapError (ReadError.moved n) :=
      itemIn_moved n rfl first later
    have same : (Turn.behind table front').next table (first.moved n) =
        (Turn.behind table front').next table first := rfl
    have outlooks : outlook table (front ++ [first]) =
        outlook table (front' ++ [first.moved n]) := by
      simp [outlook, turn, same]
    have behind := itemsIn_moved n outlooks later []
    rw [List.map_nil] at behind
    simp only [List.map_cons, itemsIn, List.append_nil, moves, item, behind, mapError_bind]
    rfl
  obtain ⟨shaped, parts⟩ := grammatical
  rcases expression_shape shaped with ⟨o, inner, c, ks, rfl⟩ | ⟨o, operand, rfl⟩ | ⟨v, ks, rfl⟩
  · have opens := Terminal.kind_of_openParen parts.1
    have closes := Terminal.kind_of_closeParen parts.2.2.1
    have undivided := undivided_expression inner parts.2.1
    have enclosed : tokensAll [node .expression inner, leaf .closeParen c, node .trailer ks] =
        tokensAll inner ++ c :: tokensAll ks := by
      simp [tokensAll, tokens]
    refine rest o (tokensAll [node .expression inner, leaf .closeParen c, node .trailer ks]) ?_
      (by simp [Turn.next, opens])
    rw [enclosed, itemIn_group due' opens undivided closes, itemIn_group due opens undivided closes]
  · have operator := Terminal.kind_of_operator parts.1
    have placed := position_due due parts.1
    have placed' := position_due due' parts.1
    exact rest o _ (by simp [itemIn, operator, placed, placed'])
      (by simp [Turn.next, operator, placed, placed'])
  · rcases Terminal.kind_of_value parts.1 with kind | kind
    · exact rest v _ (by simp [itemIn, kind]) (by simp [Turn.next, kind])
    · exact rest v _ (by simp [itemIn, kind]) (by simp [Turn.next, kind])

end Due

/-- What may come behind an expression does not tell what its tokens stand for. -/
theorem itemsIn_behind (separated : table.Separated) {es : List Tree}
    (grammatical : (node .expression es).Grammatical table) {front back : List Token}
    (due : Turn.behind table front ≠ .trailer)
    (ends : Rule.expression.Ends (.of table back.head?)) :
    itemsIn table front (tokensAll es) back = itemsIn table front (tokensAll es) [] := by
  have read (back : List Token) (ends : Rule.expression.Ends (.of table back.head?)) :
      itemsAll table (some (node .expression es)) front es =
        itemsIn table front (tokensAll es) back := by
    have predicted := predicted_of_grammatical separated back _ (by simp [symbol]) grammatical
      fun _ hr => by
        cases hr
        exact ends
    exact (reads_expression es front back predicted due).1
  rw [← read back ends, ← read [] (.inl rfl)]

end Token

/-- The tokens of one expression. -/
theorem OperatorTable.derivesFrom_expression {tokens : List Token} :
    table.DerivesFrom .expression tokens ↔
      ∃ es, (node .expression es).Grammatical table ∧ tokensAll es = tokens := by
  rw [derivesFrom_iff]
  constructor
  · rintro ⟨tree, own, grammatical, rfl⟩
    obtain ⟨es, rfl⟩ := symbol_eq_rule.mp own
    exact ⟨es, grammatical, rfl⟩
  · rintro ⟨es, grammatical, rfl⟩
    exact ⟨_, rfl, grammatical, rfl⟩

namespace OperatorTable.DerivesFrom

variable {tokens : List Token}

theorem moved {rule : Rule} (h : table.DerivesFrom rule tokens) (n : Nat) :
    table.DerivesFrom rule (tokens.map (Token.moved n)) := by
  obtain ⟨word, derives, reads⟩ := h
  refine ⟨word, derives, List.forall₂_map_right_iff.mpr (reads.imp ?_)⟩
  intro terminal token accepted
  cases terminal <;> exact accepted

theorem value {v : Token} (accepted : Terminal.value.accepts table v = true) :
    table.DerivesFrom .expression [v] := by
  refine derivesFrom_expression.mpr ⟨[leaf .value v, node .trailer []], ?_, rfl⟩
  exact ⟨by simp [Rule.bodies, symbol], accepted, ⟨by simp [Rule.bodies], trivial⟩, trivial⟩

theorem group (h : table.DerivesFrom .expression tokens) {o c : Token}
    (opens : o.kind = .openParen) (closes : c.kind = .closeParen) :
    table.DerivesFrom .expression (o :: (tokens ++ [c])) := by
  obtain ⟨es, grammatical, rfl⟩ := derivesFrom_expression.mp h
  have opening : Terminal.openParen.accepts table o = true := by simp [Terminal.accepts, opens]
  have closing : Terminal.closeParen.accepts table c = true := by simp [Terminal.accepts, closes]
  refine derivesFrom_expression.mpr ⟨[leaf .openParen o, node .expression es, leaf .closeParen c,
    node .trailer []], ⟨by simp [Rule.bodies, symbol], ?_⟩, by simp [tokensAll, Tree.tokens]⟩
  exact ⟨opening, grammatical, closing, ⟨by simp [Rule.bodies], trivial⟩, trivial⟩

theorem joined (h : table.DerivesFrom .expression tokens) {v o : Token} (names : v.kind = .name)
    (accepted : (Terminal.operator .between).accepts table o = true) :
    table.DerivesFrom .expression (v :: o :: tokens) := by
  obtain ⟨es, grammatical, rfl⟩ := derivesFrom_expression.mp h
  refine derivesFrom_expression.mpr ⟨[leaf .value v, node .trailer [leaf (.operator .between) o,
    node .expression es]], ⟨by simp [Rule.bodies, symbol], ?_⟩, by simp [tokensAll, Tree.tokens]⟩
  have value : Terminal.value.accepts table v = true := by simp [Terminal.accepts, names]
  exact ⟨value, ⟨by simp [Rule.bodies, Rule.joined, symbol], accepted, grammatical, trivial⟩,
    trivial⟩

theorem line (h : table.DerivesFrom .expression tokens) : table.Derives tokens := by
  obtain ⟨es, grammatical, rfl⟩ := derivesFrom_expression.mp h
  refine derives_iff.mpr ⟨node .line [node .expression es], rfl, ?_,
    by simp [Tree.tokens, tokensAll]⟩
  exact ⟨by simp [Rule.bodies, symbol], grammatical, trivial⟩

end OperatorTable.DerivesFrom

namespace Token

variable (separated : table.Separated) {tokens : List Token}
  (h : table.DerivesFrom .expression tokens)

include separated h

theorem items_expression : Token.items table tokens = itemsIn table [] tokens [] := by
  obtain ⟨built, accepted⟩ := Derivation.ofTokens_of_derives separated h.line
  obtain ⟨es, grammatical, rfl⟩ := OperatorTable.derivesFrom_expression.mp h
  rw [Token.items, accepted, ok_bind, Derivation.items_eq_itemsIn accepted,
    impliedItems_expression grammatical]
  cases itemsIn table [] (tokensAll es) [] <;> rfl

/-- Where an operand is due, an expression that stands further on has the items that it has by
itself, and fails at its places there. -/
theorem itemsIn_further (n : Nat) {front : List Token} (due : Turn.behind table front ≠ .trailer) :
    itemsIn table front (tokens.map (moved n)) [] =
      (Token.items table tokens).mapError (ReadError.moved n) := by
  rw [items_expression separated h]
  obtain ⟨es, grammatical, rfl⟩ := OperatorTable.derivesFrom_expression.mp h
  exact itemsIn_due (by simp) due grammatical n

/-- Parentheses around an expression add themselves to its items. -/
theorem items_group (n : Nat) {o c : Token} (opens : o.kind = .openParen)
    (closes : c.kind = .closeParen) :
    Token.items table (o :: (tokens.map (moved n) ++ [c])) =
      ((Token.items table tokens).mapError (ReadError.moved n)).map
        fun items => .openParen :: (items ++ [.closeParen]) := by
  have due : Turn.behind table [o] ≠ .trailer := by simp [Turn.behind, Turn.next, opens]
  have further := itemsIn_further separated h n due
  have whole := (h.moved n).group opens closes
  obtain ⟨es, grammatical, same⟩ := OperatorTable.derivesFrom_expression.mp (h.moved n)
  rw [← same] at further whole ⊢
  have ends : Rule.expression.Ends (.of table [c].head?) :=
    .inr (.inl (by simp [Lookahead.of, closes]))
  have opened : o.itemIn table [] (tokensAll es ++ [c]) = .ok .openParen :=
    itemIn_group (by simp) opens (undivided_expression es grammatical) closes []
  have closed (front : List Token) : c.itemIn table front [] = .ok .closeParen := by
    simp [itemIn, closes]
  rw [items_expression separated whole, itemsIn, List.append_nil, opened, ok_bind, List.nil_append,
    itemsIn_append, List.append_nil, itemsIn_behind separated grammatical due ends, further,
    itemsIn_singleton, closed]
  cases Token.items table tokens <;> rfl

/-- A name and an operator between operands in front of an expression add themselves to its
items. -/
theorem items_joined (unambiguous : table.Unambiguous) (n : Nat) {v o : Token}
    (names : v.kind = .name) (operator : o.kind = .operator) (d : table.Placed .between)
    (text : o.text = d.val.symbol) :
    Token.items table (v :: o :: tokens.map (moved n)) =
      ((Token.items table tokens).mapError (ReadError.moved n)).map
        fun items => .name v.text :: .operator d :: items := by
  have accepted := accepts_operator d operator text
  have between := Terminal.supports_of_accepts accepted
  have found := OperatorTable.find_of_mem unambiguous d.2.1
  rw [d.2.2, ← text] at found
  have whole := (h.moved n).joined names accepted
  have due : Turn.behind table [v, o] ≠ .trailer := by
    simp [Turn.behind, Turn.next, Turn.position, names, operator, between]
  have named (back : List Token) : v.itemIn table [] back = .ok (.name v.text) := by
    simp [itemIn, names, Derivation.value]
  have placed (back : List Token) : o.itemIn table [v] back = .ok (.operator d) := by
    simp [itemIn, operator, Turn.behind, Turn.next, Turn.position, names, between, found, Except.map]
  rw [items_expression separated whole, itemsIn, named, ok_bind, itemsIn, List.nil_append, placed,
    ok_bind, List.singleton_append, itemsIn_further separated h n due]
  cases Token.items table tokens <;> rfl

end Token

end Calculator
