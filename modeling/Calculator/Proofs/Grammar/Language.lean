import Mathlib.Computability.ContextFreeGrammar
import Calculator.Proofs.Derivation.Tree

namespace Calculator

/-- Every list of symbols that may replace a rule. -/
def Rule.bodies : Rule → List (List Symbol)
  | .line => [[.rule .expression], joined, []]
  | .expression =>
    [[.terminal .openParen, .rule .expression, .terminal .closeParen, .rule .trailer], prefixed,
      [.terminal .value, .rule .trailer]]
  | .trailer =>
    [[.rule .call, .rule .trailer], joined, [.terminal (.operator .after), .rule .trailer], []]
  | .call => [[.terminal .openParen, .rule .firstArgument, .terminal .closeParen]]
  | .firstArgument | .nextArgument => [[.rule .expression, .rule .argumentTail], []]
  | .argumentTail => [[.terminal .comma, .rule .nextArgument], []]

def Rule.all : List Rule :=
  [.line, .expression, .trailer, .call, .firstArgument, .nextArgument, .argumentTail]

theorem Rule.mem_all (rule : Rule) : rule ∈ all := by
  cases rule <;> decide

/-- Reads a symbol in another alphabet. -/
def Symbol.elim {α : Type} (terminal : Terminal → α) (rule : Rule → α) : Symbol → α
  | .terminal t => terminal t
  | .rule r => rule r

/-- A replacement as a rule of a context-free grammar. -/
def Rule.production (rule : Rule) (body : List Symbol) : ContextFreeRule Terminal Rule where
  input := rule
  output := body.map (Symbol.elim .terminal .nonterminal)

def grammar : ContextFreeGrammar Terminal where
  NT := Rule
  initial := .line
  rules := (Rule.all.flatMap fun rule => rule.bodies.map rule.production).toFinset

namespace OperatorTable

/-- The terminals of a word accept the tokens, one by one. -/
abbrev Reads (table : OperatorTable) : List Terminal → List Token → Prop :=
  List.Forall₂ fun terminal token => terminal.accepts table token = true

/-- The tokens can be read as a word that the rule derives. -/
def DerivesFrom (table : OperatorTable) (rule : Rule) (tokens : List Token) : Prop :=
  ∃ word, grammar.Derives [.nonterminal rule] (word.map .terminal) ∧ table.Reads word tokens

/-- The tokens can be read as a word of the grammar. -/
def Derives (table : OperatorTable) (tokens : List Token) : Prop :=
  ∃ word ∈ grammar.language, table.Reads word tokens

end OperatorTable

theorem mem_rules {production : ContextFreeRule Terminal Rule} :
    production ∈ grammar.rules ↔ ∃ rule : Rule, ∃ body ∈ rule.bodies,
      rule.production body = production := by
  change production ∈ List.toFinset _ ↔ _
  simp [Rule.mem_all]

theorem production_injective (rule : Rule) : Function.Injective rule.production := by
  intro xs ys h
  refine List.map_injective_iff.mpr ?_ (congrArg ContextFreeRule.output h)
  intro a b hab
  cases a <;> cases b <;> simp_all [Symbol.elim]

namespace Tree

mutual

/-- Every rule was replaced by one of its bodies and every token is accepted. -/
def Grammatical (table : OperatorTable) : Tree → Prop
  | leaf terminal token => terminal.accepts table token = true
  | node rule children => children.map symbol ∈ rule.bodies ∧ AllGrammatical table children

def AllGrammatical (table : OperatorTable) : List Tree → Prop
  | [] => True
  | c :: cs => c.Grammatical table ∧ AllGrammatical table cs

end

theorem allGrammatical_append {table : OperatorTable} (xs ys : List Tree) :
    AllGrammatical table (xs ++ ys) ↔ AllGrammatical table xs ∧ AllGrammatical table ys := by
  induction xs with
  | nil => simp [AllGrammatical]
  | cons c cs ih => simp [AllGrammatical, ih, and_assoc]

section Shapes

variable {children : List Tree}

theorem line_shape (h : children.map symbol ∈ Rule.line.bodies) :
    (∃ es, children = [node .expression es]) ∨
      (∃ o es, children = [leaf (.operator .between) o, node .expression es]) ∨
      children = [] := by
  simpa [Rule.bodies, Rule.joined, List.map_eq_cons_iff] using h

theorem prefixed_shape (h : children.map symbol = Rule.prefixed) :
    ∃ o es, children = [leaf (.operator .before) o, node .expression es] := by
  simpa [Rule.prefixed, List.map_eq_cons_iff] using h

theorem expression_shape (h : children.map symbol ∈ Rule.expression.bodies) :
    (∃ o es c ks, children =
      [leaf .openParen o, node .expression es, leaf .closeParen c, node .trailer ks]) ∨
      (∃ o es, children = [leaf (.operator .before) o, node .expression es]) ∨
      ∃ v ks, children = [leaf .value v, node .trailer ks] := by
  simpa [Rule.bodies, Rule.prefixed, List.map_eq_cons_iff] using h

theorem trailer_shape (h : children.map symbol ∈ Rule.trailer.bodies) :
    (∃ cs ks, children = [node .call cs, node .trailer ks]) ∨
      (∃ o es, children = [leaf (.operator .between) o, node .expression es]) ∨
      (∃ o ks, children = [leaf (.operator .after) o, node .trailer ks]) ∨
      children = [] := by
  simpa [Rule.bodies, Rule.joined, List.map_eq_cons_iff] using h

theorem call_shape (h : children.map symbol ∈ Rule.call.bodies) :
    ∃ o bs c, children = [leaf .openParen o, node .firstArgument bs, leaf .closeParen c] := by
  simpa [Rule.bodies, List.map_eq_cons_iff] using h

theorem argument_shape {rule : Rule} (hr : rule = .firstArgument ∨ rule = .nextArgument)
    (h : children.map symbol ∈ rule.bodies) :
    (∃ es ts, children = [node .expression es, node .argumentTail ts]) ∨ children = [] := by
  rcases hr with rfl | rfl <;> simpa [Rule.bodies, List.map_eq_cons_iff] using h

theorem argumentTail_shape (h : children.map symbol ∈ Rule.argumentTail.bodies) :
    (∃ c ns, children = [leaf .comma c, node .nextArgument ns]) ∨ children = [] := by
  simpa [Rule.bodies, List.map_eq_cons_iff] using h

end Shapes

mutual

/-- The symbol of a grammatical tree derives a word that reads its tokens. -/
theorem derives_tree {table : OperatorTable} : (tree : Tree) → tree.Grammatical table →
    ∃ word, grammar.Derives [tree.symbol.elim .terminal .nonterminal] (word.map .terminal) ∧
      table.Reads word tree.tokens
  | leaf terminal token, h => ⟨[terminal], .refl _, .cons h .nil⟩
  | node rule children, h => by
    obtain ⟨word, derives, reads⟩ := derives_trees children h.2
    have step : grammar.Produces [.nonterminal rule]
        (rule.production (children.map symbol)).output :=
      ⟨_, mem_rules.mpr ⟨rule, _, h.1, rfl⟩, ContextFreeRule.Rewrites.input_output⟩
    exact ⟨word, step.trans_derives derives, reads⟩

theorem derives_trees {table : OperatorTable} : (trees : List Tree) →
    AllGrammatical table trees →
    ∃ word, grammar.Derives ((trees.map symbol).map (Symbol.elim .terminal .nonterminal))
        (word.map .terminal) ∧
      table.Reads word (tokensAll trees)
  | [], _ => ⟨[], .refl _, .nil⟩
  | c :: cs, h => by
    obtain ⟨first, hf, af⟩ := derives_tree c h.1
    obtain ⟨rest, hr, ar⟩ := derives_trees cs h.2
    refine ⟨first ++ rest, ?_, List.rel_append af ar⟩
    rw [List.map_append]
    exact (hf.append_right _).trans (hr.append_left _)

end

/-- Symbols that derive a word are those of grammatical trees with the tokens of the word. -/
theorem exists_grammatical {table : OperatorTable} {tokens : List Token} {word : List Terminal}
    {letters : List _} (h : grammar.Derives letters (word.map .terminal))
    (reads : table.Reads word tokens) :
    ∃ trees, (trees.map symbol).map (Symbol.elim .terminal .nonterminal) = letters ∧
      AllGrammatical table trees ∧ tokensAll trees = tokens := by
  induction h using Relation.ReflTransGen.head_induction_on with
  | refl =>
    induction reads with
    | nil => exact ⟨[], rfl, trivial, rfl⟩
    | @cons terminal token _ _ ha _ ih =>
      obtain ⟨trees, hs, hg, rfl⟩ := ih
      refine ⟨leaf terminal token :: trees, ?_, ⟨ha, hg⟩, rfl⟩
      rw [List.map_cons, List.map_cons, hs]
      rfl
  | head step _ ih =>
    obtain ⟨trees, hs, hg, rfl⟩ := ih
    obtain ⟨_, member, rewrites⟩ := step
    obtain ⟨rule, body, hb, rfl⟩ := mem_rules.mp member
    obtain ⟨p, q, rfl, rfl⟩ := rewrites.exists_parts
    rw [List.map_map] at hs
    obtain ⟨front, back, rfl, hfront, hback⟩ := List.map_eq_append_iff.mp hs
    obtain ⟨left, children, rfl, hleft, hchildren⟩ := List.map_eq_append_iff.mp hfront
    rw [← List.map_map] at hchildren
    have spelled : children.map symbol = body :=
      production_injective rule (congrArg (ContextFreeRule.mk rule) hchildren)
    rw [allGrammatical_append, allGrammatical_append] at hg
    refine ⟨left ++ [node rule children] ++ back, ?_, ?_, ?_⟩
    · simp only [← hleft, ← hback, List.map_map, List.map_append]
      rfl
    · rw [allGrammatical_append, allGrammatical_append]
      exact ⟨⟨hg.1.1, ⟨spelled ▸ hb, hg.1.2⟩, trivial⟩, hg.2⟩
    · simp [tokensAll_append, tokensAll, tokens]

end Tree

/-- What a rule derives are the tokens of its grammatical trees. -/
theorem OperatorTable.derivesFrom_iff {table : OperatorTable} {rule : Rule} {tokens : List Token} :
    table.DerivesFrom rule tokens ↔
      ∃ tree : Tree, tree.symbol = .rule rule ∧ tree.Grammatical table ∧
        tree.tokens = tokens := by
  constructor
  · rintro ⟨word, derives, reads⟩
    obtain ⟨trees, hs, hg, rfl⟩ := Tree.exists_grammatical derives reads
    have spelled : trees.map Tree.symbol = [.rule rule] :=
      production_injective rule (congrArg (ContextFreeRule.mk rule) hs)
    obtain ⟨tree, rest, rfl, own, hr⟩ := List.map_eq_cons_iff.mp spelled
    obtain rfl := List.map_eq_nil_iff.mp hr
    exact ⟨tree, own, hg.1, (List.append_nil _).symm⟩
  · rintro ⟨tree, own, hg, rfl⟩
    obtain ⟨word, derives, reads⟩ := Tree.derives_tree tree hg
    rw [own] at derives
    exact ⟨word, derives, reads⟩

/-- Derivable token lists are those of the grammatical trees of a line. -/
theorem OperatorTable.derives_iff {table : OperatorTable} {tokens : List Token} :
    table.Derives tokens ↔
      ∃ tree : Tree, tree.symbol = .rule .line ∧ tree.Grammatical table ∧
        tree.tokens = tokens :=
  derivesFrom_iff

end Calculator
