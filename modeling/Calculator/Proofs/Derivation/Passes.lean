import Calculator.Proofs.Derivation.Building
import Calculator.Proofs.Derivation.Items
import Calculator.Proofs.Grammar.Progress
import Calculator.Proofs.Loop
import Mathlib.Algebra.Ring.Int.Defs

namespace Calculator

/-- The passes that a symbol takes in the end, up to those that a token pays for, which are ten. -/
def Symbol.passes : Symbol → ℕ
  | .terminal _ => 1
  | .rule .expression => 0
  | .rule .call => 8
  | .rule .firstArgument | .rule .nextArgument => 4
  | .rule _ => 2

namespace Derivation

namespace Task

def passes : List Task → ℕ
  | [] => 0
  | .close _ :: work => passes work + 1
  | .expand symbol _ :: work => symbol.passes + passes work

/-- Whether the work begins with what only a token it has been chosen for can begin. -/
def promised : List Task → ℕ
  | .expand (.terminal _) _ :: _ | .expand (.rule .call) _ :: _ => 1
  | _ => 0

end Task

/-- A derivation in the making: the work that is left and the tokens from a place on. -/
structure Unfinished where
  tree : Derivation
  place : ℕ
  work : List Task
  rest : List Token

namespace Unfinished

def start (tokens : List Token) : Unfinished := ⟨.empty, 0, [.expand (.rule .line) none], tokens⟩

/-- Does the first task, or ends where none is left or it cannot be done. -/
def pass (table : OperatorTable) : Unfinished → Unfinished ⊕ Except ReadError Derivation
  | ⟨t, _, [], []⟩ => .inr (.ok t)
  | ⟨_, _, [], token :: _⟩ => .inr (.error (.trailing token.text token.start))
  | ⟨t, place, .close id :: work, rest⟩ => .inl ⟨t.close id place, place, work, rest⟩
  | ⟨_, _, .expand (.terminal _) _ :: _, []⟩ => .inr (.error .unexpectedEnd)
  | ⟨t, place, .expand (.terminal terminal) parent :: work, token :: rest⟩ =>
    if terminal.accepts table token then
      .inl ⟨t.take ⟨terminal, parent, work⟩ place, place + 1, work, rest⟩
    else .inr (.error (.misplacedToken token.text token.start))
  | ⟨t, place, .expand (.rule rule) parent :: work, rest⟩ =>
    match rule.body? (.of table rest.head?) with
    | none => .inr (.error (rule.refusal rest.head?))
    | some body =>
      .inl ⟨t.push (.rule rule) place parent, place, Task.below t.size body work, rest⟩

/-- What the derivation comes to. -/
def outcome (table : OperatorTable) (u : Unfinished) : Except ReadError Derivation :=
  build table u.tree u.place u.work u.rest

/-- Bounds the passes to come. -/
def cost (u : Unfinished) : ℕ :=
  10 * (u.rest.length - Task.promised u.work) + Task.passes u.work

/-- Replacing a rule costs a pass. What begins with a token has one to begin with. -/
theorem cost_below_lt {table : OperatorTable} {rule : Rule} {body : List Symbol}
    {rest : List Token} (replaced : rule.body? (.of table rest.head?) = some body)
    (t t' : Derivation) (place place' id : ℕ) (parent : Option ℕ) (work : List Task) :
    cost ⟨t', place', Task.below id body work, rest⟩ <
      cost ⟨t, place, .expand (.rule rule) parent :: work, rest⟩ := by
  have present : Lookahead.of table rest.head? ≠ .finish → 0 < rest.length := by
    cases rest <;> simp [Lookahead.of]
  generalize Lookahead.of table rest.head? = l at replaced present
  unfold Rule.body? at replaced
  repeat' split at replaced
  all_goals cases replaced
  all_goals
    simp [cost, Task.passes, Task.promised, Task.below, Symbol.passes, Rule.prefixed,
      Rule.joined] at present ⊢
  all_goals omega

/-- Taking a token costs a pass, whatever comes next. -/
theorem cost_take_lt (token : Token) (t t' : Derivation) (place place' : ℕ) (terminal : Terminal)
    (parent : Option ℕ) (work : List Task) (rest : List Token) :
    cost ⟨t', place', work, rest⟩ <
      cost ⟨t, place, .expand (.terminal terminal) parent :: work, token :: rest⟩ := by
  simp only [cost, Task.passes, Task.promised, Symbol.passes, List.length_cons]
  omega

theorem cost_close_lt (t t' : Derivation) (place id : ℕ) (work : List Task) (rest : List Token) :
    cost ⟨t', place, work, rest⟩ < cost ⟨t, place, .close id :: work, rest⟩ := by
  simp only [cost, Task.passes, Task.promised]
  omega

/-- A pass goes on to what comes to the same, at a lower cost, or ends with what it comes to. -/
theorem respects_pass (table : OperatorTable) :
    Loop.Respects (pass table) (outcome table) cost := by
  rintro ⟨t, place, work, rest⟩
  match work, rest with
  | [], [] => exact build_done
  | [], token :: rest => exact build_left token
  | .close id :: work, rest => exact ⟨(build_close id).symm, cost_close_lt t _ _ _ _ _⟩
  | .expand (.terminal terminal) parent :: work, [] => exact build_missing terminal
  | .expand (.terminal terminal) parent :: work, token :: rest =>
    cases accepted : terminal.accepts table token with
    | false =>
      simp only [pass, accepted]
      exact build_mismatch accepted
    | true =>
      simp only [pass, accepted]
      exact ⟨(build_take accepted).symm, cost_take_lt token _ _ _ _ _ _ _ _⟩
  | .expand (.rule rule) parent :: work, rest =>
    cases replaced : rule.body? (.of table rest.head?) with
    | none =>
      simp only [pass, replaced]
      exact build_refuse replaced
    | some body =>
      simp only [pass, replaced]
      exact ⟨(build_replace replaced).symm, cost_below_lt replaced _ _ _ _ _ _ _⟩

/-- The passes of a line end with its derivation or with its refusal. -/
theorem within_start (table : OperatorTable) (tokens : List Token) :
    Loop.within (pass table) (10 * tokens.length + 3) (start tokens) =
      some (ofTokens table tokens) := by
  refine Loop.within_of_respects (respects_pass table) ?_
  simp only [cost, start, Task.promised, Task.passes, Symbol.passes]
  omega

end Unfinished

end Derivation

/-- The nodes that a symbol has at most beyond three for each of its tokens. -/
def Symbol.surplus : Symbol → ℤ
  | .terminal _ => -2
  | .rule .call => -1
  | .rule .expression => 0
  | .rule .firstArgument | .rule .nextArgument => 2
  | .rule _ => 1

theorem Rule.surplus_body {rule : Rule} {l : Lookahead} {body : List Symbol}
    (replaced : rule.body? l = some body) :
    (body.map Symbol.surplus).sum + 1 ≤ (Symbol.rule rule).surplus := by
  unfold body? at replaced
  repeat' split at replaced
  all_goals cases replaced
  all_goals simp [Symbol.surplus, prefixed, joined]

namespace Tree

variable {table : OperatorTable}

mutual

theorem size_le {behind : List Token} : (tree : Tree) → tree.Predicted table behind →
    (tree.size : ℤ) ≤ 3 * tree.tokens.length + tree.symbol.surplus
  | leaf terminal token, _ => by simp [size, tokens, symbol, Symbol.surplus]
  | node rule children, h => by
    have below := sizeAll_le children h.2
    have own := Rule.surplus_body h.1
    simp only [size, tokens, symbol]
    omega

theorem sizeAll_le {behind : List Token} : (trees : List Tree) → AllPredicted table behind trees →
    (sizeAll trees : ℤ) ≤
      3 * (tokensAll trees).length + ((trees.map symbol).map Symbol.surplus).sum
  | [], _ => by simp [sizeAll, tokensAll]
  | c :: cs, h => by
    have first := size_le c h.1
    have later := sizeAll_le cs h.2
    simp only [sizeAll, tokensAll, List.length_append, List.map_cons, List.sum_cons]
    omega

end

end Tree

/-- Deriving a line ends. No rule comes back to itself without taking a token; the passes over the
work are linear in the number of tokens, and what they end with has at most three nodes for a token
and one more. -/
theorem ofTokens_linear (table : OperatorTable) (tokens : List Token) :
    (∀ (l : Lookahead) (rule : Rule), ¬ Relation.TransGen (Rule.LeadsTo l) rule rule) ∧
      Loop.within (Derivation.Unfinished.pass table) (10 * tokens.length + 3)
        (.start tokens) = some (Derivation.ofTokens table tokens) ∧
      ∀ built, Derivation.ofTokens table tokens = .ok built →
        built.size ≤ 3 * tokens.length + 1 := by
  refine ⟨fun l rule => Rule.not_leadsTo_self, Derivation.Unfinished.within_start table tokens, ?_⟩
  intro built accepted
  obtain ⟨tree, line, predicted, rfl, nodes⟩ := Derivation.exists_predicted accepted
  have bound := tree.size_le predicted
  have one : (Symbol.rule .line).surplus = 1 := rfl
  rw [line, one] at bound
  rw [Derivation.size_eq nodes]
  omega

/-- The tokens of `f(1,2)`. -/
def twoArguments : List Token :=
  [⟨.name, "f", 0, 1⟩, ⟨.openParen, "(", 1, 2⟩, ⟨.number, "1", 2, 3⟩, ⟨.comma, ",", 3, 4⟩,
    ⟨.number, "2", 4, 5⟩, ⟨.closeParen, ")", 5, 6⟩]

/-- A call of two arguments reaches the bound on the nodes. -/
theorem ofTokens_linear_call : ∃ built, Derivation.ofTokens .standard twoArguments = .ok built ∧
    built.size = 3 * twoArguments.length + 1 := by
  obtain ⟨-, ends, bounded⟩ := ofTokens_linear .standard twoArguments
  have counted : (Loop.within (Derivation.Unfinished.pass .standard)
      (10 * twoArguments.length + 3) (.start twoArguments)).map (Except.map Derivation.size) =
        some (.ok 19) := by decide
  rw [ends] at counted
  cases found : Derivation.ofTokens .standard twoArguments with
  | error e => simp [found, Except.map] at counted
  | ok built =>
    have size : built.size = 19 := by simpa [found, Except.map] using counted
    exact ⟨built, rfl, (bounded built found).antisymm size.ge⟩

end Calculator
