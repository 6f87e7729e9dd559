import Calculator.Proofs.Derivation.Building
import Calculator.Proofs.Grammar.Language
import Calculator.Proofs.Operator

namespace Calculator

/-- What may come behind everything that a rule derives. -/
def Rule.Ends : Rule → Lookahead → Prop
  | .line, l => l = .finish
  | .expression, l | .trailer, l => l = .finish ∨ l = .closeParen ∨ l = .comma
  | .call, _ => True
  | .firstArgument, l | .nextArgument, l | .argumentTail, l => l = .closeParen

namespace Lookahead

variable {table : OperatorTable} {token : Token}

theorem of_openParen (h : Terminal.openParen.accepts table token = true) :
    of table (some token) = .openParen := by
  simp only [Terminal.accepts, decide_eq_true_eq] at h
  simp [of, h]

theorem of_closeParen (h : Terminal.closeParen.accepts table token = true) :
    of table (some token) = .closeParen := by
  simp only [Terminal.accepts, decide_eq_true_eq] at h
  simp [of, h]

theorem of_comma (h : Terminal.comma.accepts table token = true) :
    of table (some token) = .comma := by
  simp only [Terminal.accepts, decide_eq_true_eq] at h
  simp [of, h]

theorem of_value (h : Terminal.value.accepts table token = true) :
    of table (some token) = .value := by
  simp only [Terminal.accepts, Bool.or_eq_true, decide_eq_true_eq] at h
  rcases h with h | h <;> simp [of, h]

theorem of_operator {position : Position}
    (h : (Terminal.operator position).accepts table token = true) :
    of table (some token) = .operator (table.supports token.text .before)
      (table.supports token.text .between) (table.supports token.text .after) := by
  simp only [Terminal.accepts, Bool.and_eq_true, decide_eq_true_eq] at h
  simp [of, h.1]

end Lookahead

theorem Terminal.supports_of_accepts {table : OperatorTable} {token : Token} {position : Position}
    (h : (Terminal.operator position).accepts table token = true) :
    table.supports token.text position = true := by
  simp only [Terminal.accepts, Bool.and_eq_true] at h
  exact h.2

namespace Tree

/-- The class of the first token of trees with others behind them. -/
def lookahead (table : OperatorTable) (trees : List Tree) (behind : List Token) : Lookahead :=
  .of table (tokensAll trees ++ behind).head?

@[simp] theorem lookahead_nil (table : OperatorTable) (behind : List Token) :
    lookahead table [] behind = .of table behind.head? := rfl

@[simp] theorem lookahead_leaf (table : OperatorTable) (behind : List Token) (terminal : Terminal)
    (token : Token) (trees : List Tree) :
    lookahead table (leaf terminal token :: trees) behind = .of table (some token) := rfl

@[simp] theorem lookahead_node (table : OperatorTable) (behind : List Token) (rule : Rule)
    (children trees : List Tree) :
    lookahead table (node rule children :: trees) behind =
      lookahead table (children ++ trees) behind := by
  simp [lookahead, tokensAll, tokens, tokensAll_append]

/-- What comes behind each of the trees may come behind its symbol. -/
def Followed (table : OperatorTable) (behind : List Token) : List Tree → Prop
  | [] => True
  | c :: cs =>
    (∀ rule, c.symbol = .rule rule → rule.Ends (lookahead table cs behind)) ∧
      Followed table behind cs

theorem startsExpression_of_grammatical {table : OperatorTable} {children : List Tree}
    (h : (node .expression children).Grammatical table) (trees : List Tree) (behind : List Token) :
    (lookahead table (children ++ trees) behind).startsExpression = true := by
  obtain ⟨hb, hg⟩ := h
  rcases expression_shape hb with ⟨o, es, c, ks, rfl⟩ | ⟨o, es, rfl⟩ | ⟨v, ks, rfl⟩
  · simp [Lookahead.of_openParen hg.1, Lookahead.startsExpression]
  · simp [Lookahead.of_operator hg.1, Terminal.supports_of_accepts hg.1,
      Lookahead.startsExpression]
  · simp [Lookahead.of_value hg.1, Lookahead.startsExpression]

/-- What begins an argument tail, or comes behind an empty one. -/
theorem lookahead_argumentTail {table : OperatorTable} {children : List Tree} {behind : List Token}
    (h : (node .argumentTail children).Grammatical table)
    (ends : Lookahead.of table behind.head? = .closeParen) :
    lookahead table children behind = .comma ∨ lookahead table children behind = .closeParen := by
  obtain ⟨hb, hg⟩ := h
  rcases argumentTail_shape hb with ⟨c, ns, rfl⟩ | rfl
  · exact .inl (Lookahead.of_comma hg.1)
  · exact .inr ends

/-- The table chooses the replacement that a grammatical tree has. -/
theorem body?_of_grammatical {table : OperatorTable} (separated : table.Separated) {rule : Rule}
    (inner : rule ≠ .line) {children : List Tree} {behind : List Token}
    (h : (node rule children).Grammatical table) (ends : rule.Ends (.of table behind.head?)) :
    rule.body? (lookahead table children behind) = some (children.map symbol) := by
  obtain ⟨hb, hg⟩ := h
  have argument (hr : rule = .firstArgument ∨ rule = .nextArgument) :
      rule.body? (lookahead table children behind) = some (children.map symbol) := by
    rcases argument_shape hr hb with ⟨es, ts, rfl⟩ | rfl
    · have starts := startsExpression_of_grammatical hg.1 [node .argumentTail ts] behind
      rcases hr with rfl | rfl <;> simp [starts, Rule.body?, symbol]
    · rcases hr with rfl | rfl <;> simp_all [Rule.Ends, Rule.body?, Lookahead.startsExpression]
  cases rule with
  | line => contradiction
  | expression =>
    rcases expression_shape hb with ⟨o, es, c, ks, rfl⟩ | ⟨o, es, rfl⟩ | ⟨v, ks, rfl⟩
    · simp [Lookahead.of_openParen hg.1, Rule.body?, symbol]
    · simp [Lookahead.of_operator hg.1, Terminal.supports_of_accepts hg.1, Rule.body?, symbol,
        Rule.prefixed]
    · simp [Lookahead.of_value hg.1, Rule.body?, symbol]
  | trailer =>
    rcases trailer_shape hb with ⟨cs, ks, rfl⟩ | ⟨o, es, rfl⟩ | ⟨o, ks, rfl⟩ | rfl
    · obtain ⟨o, bs, c, rfl⟩ := call_shape hg.1.1
      simp [Lookahead.of_openParen hg.1.2.1, Rule.body?, symbol]
    · simp [Lookahead.of_operator hg.1, Terminal.supports_of_accepts hg.1, Rule.body?, symbol,
        Rule.joined]
    · have after := Terminal.supports_of_accepts hg.1
      have between : table.supports o.text .between = false := by
        cases hs : table.supports o.text .between with
        | false => rfl
        | true => simp [separated o.text hs] at after
      simp [Lookahead.of_operator hg.1, after, between, Rule.body?, symbol]
    · rcases ends with ends | ends | ends <;> simp [ends, Rule.body?]
  | call =>
    obtain ⟨o, bs, c, rfl⟩ := call_shape hb
    simp [Lookahead.of_openParen hg.1, Rule.body?, symbol]
  | firstArgument => exact argument (.inl rfl)
  | nextArgument => exact argument (.inr rfl)
  | argumentTail =>
    rcases argumentTail_shape hb with ⟨c, ns, rfl⟩ | rfl
    · simp [Lookahead.of_comma hg.1, Rule.body?, symbol]
    · simp only [Rule.Ends] at ends
      simp [ends, Rule.body?]

theorem followed_of_grammatical {table : OperatorTable} {rule : Rule} {children : List Tree}
    {behind : List Token} (h : (node rule children).Grammatical table)
    (ends : rule.Ends (.of table behind.head?)) : Followed table behind children := by
  obtain ⟨hb, hg⟩ := h
  have argument (hr : rule = .firstArgument ∨ rule = .nextArgument) :
      Followed table behind children := by
    have closed : Lookahead.of table behind.head? = .closeParen := by
      rcases hr with rfl | rfl <;> exact ends
    rcases argument_shape hr hb with ⟨es, ts, rfl⟩ | rfl
    · have tail := lookahead_argumentTail hg.2.1 closed
      simp [Followed, symbol, Rule.Ends, closed]
      tauto
    · trivial
  cases rule with
  | line =>
    rcases line_shape hb with ⟨es, rfl⟩ | ⟨o, es, rfl⟩ | rfl <;>
      simp_all [Followed, symbol, Rule.Ends]
  | expression =>
    rcases expression_shape hb with ⟨o, es, c, ks, rfl⟩ | ⟨o, es, rfl⟩ | ⟨v, ks, rfl⟩
    · simp [Followed, symbol, Rule.Ends, Lookahead.of_closeParen hg.2.2.1] at ends ⊢
      exact ends
    · simpa [Followed, symbol, Rule.Ends] using ends
    · simpa [Followed, symbol, Rule.Ends] using ends
  | trailer =>
    rcases trailer_shape hb with ⟨cs, ks, rfl⟩ | ⟨o, es, rfl⟩ | ⟨o, ks, rfl⟩ | rfl <;>
      simp_all [Followed, symbol, Rule.Ends]
  | call =>
    obtain ⟨o, bs, c, rfl⟩ := call_shape hb
    simp [Followed, symbol, Rule.Ends, Lookahead.of_closeParen hg.2.2.1]
  | firstArgument => exact argument (.inl rfl)
  | nextArgument => exact argument (.inr rfl)
  | argumentTail =>
    rcases argumentTail_shape hb with ⟨c, ns, rfl⟩ | rfl <;>
      simp_all [Followed, symbol, Rule.Ends]

theorem no_line {rule : Rule} {children : List Tree} (h : children.map symbol ∈ rule.bodies) :
    ∀ c ∈ children, c.symbol ≠ .rule .line := by
  have absent : ∀ body ∈ rule.bodies, .rule .line ∉ body := by
    cases rule <;> decide
  intro c hc hs
  exact absent _ h (hs ▸ List.mem_map_of_mem hc)

theorem mem_bodies {rule : Rule} {l : Lookahead} {body : List Symbol} (inner : rule ≠ .line)
    (h : rule.body? l = some body) : body ∈ rule.bodies := by
  unfold Rule.body? at h
  repeat' split at h
  all_goals first
    | contradiction
    | cases h; simp [Rule.bodies]

theorem line_body {l : Lookahead} {body : List Symbol} (h : Rule.line.body? l = some body) :
    body ∈ Rule.line.bodies ∨ body = Rule.prefixed := by
  unfold Rule.body? at h
  repeat' split at h
  all_goals first
    | contradiction
    | cases h; simp [Rule.bodies]

mutual

theorem predicted_of_grammatical {table : OperatorTable} (separated : table.Separated)
    (behind : List Token) : (tree : Tree) → tree.symbol ≠ .rule .line → tree.Grammatical table →
      (∀ rule, tree.symbol = .rule rule → rule.Ends (.of table behind.head?)) →
      tree.Predicted table behind
  | leaf _ _, _, h, _ => h
  | node rule children, inner, h, ends => by
    have ends := ends rule rfl
    have inner : rule ≠ .line := fun hr => inner (congrArg Symbol.rule hr)
    exact ⟨body?_of_grammatical separated inner h ends,
      allPredicted_of_grammatical separated behind children (no_line h.1) h.2
        (followed_of_grammatical h ends)⟩

theorem allPredicted_of_grammatical {table : OperatorTable} (separated : table.Separated)
    (behind : List Token) : (trees : List Tree) → (∀ c ∈ trees, c.symbol ≠ .rule .line) →
      AllGrammatical table trees → Followed table behind trees → AllPredicted table behind trees
  | [], _, _, _ => trivial
  | c :: cs, inner, h, followed =>
    ⟨predicted_of_grammatical separated _ c (inner c List.mem_cons_self) h.1 followed.1,
      allPredicted_of_grammatical separated behind cs
        (fun d hd => inner d (List.mem_cons_of_mem c hd)) h.2 followed.2⟩

end

mutual

theorem grammatical_of_predicted {table : OperatorTable} {behind : List Token} :
    (tree : Tree) → tree.symbol ≠ .rule .line → tree.Predicted table behind →
      tree.Grammatical table
  | leaf _ _, _, h => h
  | node rule children, inner, h => by
    have hb := mem_bodies (fun hr => inner (congrArg Symbol.rule hr)) h.1
    exact ⟨hb, allGrammatical_of_predicted children (no_line hb) h.2⟩

theorem allGrammatical_of_predicted {table : OperatorTable} {behind : List Token} :
    (trees : List Tree) → (∀ c ∈ trees, c.symbol ≠ .rule .line) →
      AllPredicted table behind trees → AllGrammatical table trees
  | [], _, _ => trivial
  | c :: cs, inner, h =>
    ⟨grammatical_of_predicted c (inner c List.mem_cons_self) h.1,
      allGrammatical_of_predicted cs (fun d hd => inner d (List.mem_cons_of_mem c hd)) h.2⟩

end

theorem allGrammatical_line {table : OperatorTable} {children : List Tree}
    (h : (node .line children).Predicted table []) : AllGrammatical table children := by
  obtain ⟨hb, hp⟩ := h
  rcases line_body hb with hb | hb
  · exact allGrammatical_of_predicted children (no_line hb) hp
  · have inner : children.map symbol ∈ Rule.expression.bodies := by simp [hb, Rule.bodies]
    exact allGrammatical_of_predicted children (no_line inner) hp

/-- A predicted line has the tokens of a grammatical one, where an operator before the first
operand belongs to the expression and not to the line. -/
theorem exists_grammatical_line {table : OperatorTable} {children : List Tree}
    (h : (node .line children).Predicted table []) :
    ∃ tree : Tree, tree.symbol = .rule .line ∧ tree.Grammatical table ∧
      tree.tokens = tokensAll children := by
  have hg := allGrammatical_line h
  rcases line_body h.1 with hb | hb
  · exact ⟨node .line children, rfl, ⟨hb, hg⟩, rfl⟩
  · have inner : children.map symbol ∈ Rule.expression.bodies := by simp [hb, Rule.bodies]
    refine ⟨node .line [node .expression children], rfl, ⟨?_, ⟨inner, hg⟩, trivial⟩, ?_⟩
    · simp [Rule.bodies, symbol]
    · simp [tokens, tokensAll]

/-- A grammatical line has the tokens of a predicted one: an operator that may stand before an
operand is read so at the beginning. -/
theorem exists_predicted_line {table : OperatorTable} (separated : table.Separated)
    {children : List Tree} (h : (node .line children).Grammatical table) :
    ∃ tree : Tree, tree.symbol = .rule .line ∧ tree.Predicted table [] ∧
      tree.tokens = tokensAll children := by
  have expression {es : List Tree} (hg : (node .expression es).Grammatical table) :
      (node .expression es).Predicted table [] :=
    predicted_of_grammatical separated [] _ (by simp [symbol]) hg fun _ hr => by
      cases hr
      exact .inl rfl
  obtain ⟨hb, hg⟩ := h
  rcases line_shape hb with ⟨es, rfl⟩ | ⟨o, es, rfl⟩ | rfl
  · have hp := expression hg.1
    obtain ⟨hb', hg'⟩ := hg.1
    rcases expression_shape hb' with ⟨o, es, c, ks, rfl⟩ | ⟨o, es, rfl⟩ | ⟨v, ks, rfl⟩
    · refine ⟨node .line [_], rfl, ⟨?_, hp, trivial⟩, rfl⟩
      simp [tokensAll, tokens, Lookahead.of_openParen hg'.1, Rule.body?, symbol]
    · refine ⟨node .line [leaf (.operator .before) o, node .expression es], rfl, ⟨?_, hp.2⟩, ?_⟩
      · simp [tokensAll, tokens, Lookahead.of_operator hg'.1, Terminal.supports_of_accepts hg'.1,
          Rule.body?, symbol, Rule.prefixed]
      · simp [tokensAll, tokens]
    · refine ⟨node .line [_], rfl, ⟨?_, hp, trivial⟩, rfl⟩
      simp [tokensAll, tokens, Lookahead.of_value hg'.1, Rule.body?, symbol]
  · have hp := expression hg.2.1
    have ho := Terminal.supports_of_accepts hg.1
    cases before : table.supports o.text .before with
    | true =>
      have accepted : (Terminal.operator .before).accepts table o = true := by
        simp_all [AllGrammatical, Grammatical, Terminal.accepts]
      refine ⟨node .line [leaf (.operator .before) o, node .expression es], rfl,
        ⟨?_, accepted, hp, trivial⟩, rfl⟩
      simp [tokensAll, tokens, Lookahead.of_operator hg.1, before, Rule.body?, symbol,
        Rule.prefixed]
    | false =>
      refine ⟨node .line [leaf (.operator .between) o, node .expression es], rfl,
        ⟨?_, hg.1, hp, trivial⟩, rfl⟩
      simp [tokensAll, tokens, Lookahead.of_operator hg.1, before, ho, Rule.body?, symbol,
        Rule.joined]
  · exact ⟨node .line [], rfl, ⟨rfl, trivial⟩, rfl⟩

end Tree

/-- Where the positions of operators are separated, all that the grammar derives is accepted. -/
theorem Derivation.ofTokens_of_derives {table : OperatorTable} (separated : table.Separated)
    {tokens : List Token} (h : table.Derives tokens) : ∃ built, ofTokens table tokens = .ok built := by
  obtain ⟨tree, line, hg, rfl⟩ := OperatorTable.derives_iff.mp h
  obtain ⟨children, rfl⟩ := Tree.symbol_eq_rule.mp line
  obtain ⟨predicted, line', hp, ht⟩ := Tree.exists_predicted_line separated hg
  obtain ⟨built, hb, -⟩ := ofTokens_of_predicted line' hp
  rw [ht] at hb
  exact ⟨built, hb⟩

/-- Reading accepts only what the grammar derives, and all of it where the positions of operators
are separated, as they are in the standard table. -/
theorem ofTokens_accepts_grammar (table : OperatorTable) (tokens : List Token) :
    ((∃ built, Derivation.ofTokens table tokens = .ok built) → table.Derives tokens) ∧
      (table.Separated → table.Derives tokens →
        ∃ built, Derivation.ofTokens table tokens = .ok built) ∧
      OperatorTable.standard.Separated := by
  refine ⟨?_, fun separated => Derivation.ofTokens_of_derives separated,
    OperatorTable.separated_standard⟩
  rintro ⟨built, h⟩
  obtain ⟨tree, line, hp, rfl, -⟩ := Derivation.exists_predicted h
  obtain ⟨children, rfl⟩ := Tree.symbol_eq_rule.mp line
  exact OperatorTable.derives_iff.mpr (Tree.exists_grammatical_line hp)

/-- The tokens of `f(1,)`, an argument list that ends in a comma, are accepted. -/
theorem ofTokens_accepts_open_list :
    let f : Token := ⟨.name, "f", 0, 1⟩
    let o : Token := ⟨.openParen, "(", 1, 2⟩
    let one : Token := ⟨.number, "1", 2, 3⟩
    let comma : Token := ⟨.comma, ",", 3, 4⟩
    let c : Token := ⟨.closeParen, ")", 4, 5⟩
    OperatorTable.standard.Derives [f, o, one, comma, c] ∧
      ∃ built, Derivation.ofTokens .standard [f, o, one, comma, c] = .ok built := by
  intro f o one comma c
  let args : Tree :=
    .node .firstArgument [.node .expression [.leaf .value one, .node .trailer []],
      .node .argumentTail [.leaf .comma comma, .node .nextArgument []]]
  let called : Tree := .node .call [.leaf .openParen o, args, .leaf .closeParen c]
  let line : Tree :=
    .node .line [.node .expression [.leaf .value f, .node .trailer [called, .node .trailer []]]]
  have grammatical : line.Grammatical .standard := by
    simp [line, called, args, f, o, one, comma, c, Tree.Grammatical, Tree.AllGrammatical,
      Rule.bodies, Tree.symbol, Terminal.accepts]
  have derives : OperatorTable.standard.Derives [f, o, one, comma, c] :=
    OperatorTable.derives_iff.mpr ⟨line, rfl, grammatical, rfl⟩
  obtain ⟨sound, complete, separated⟩ := ofTokens_accepts_grammar .standard [f, o, one, comma, c]
  exact ⟨sound (complete separated derives), complete separated derives⟩

end Calculator
