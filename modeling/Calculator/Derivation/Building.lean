import Calculator.Derivation

namespace Calculator

namespace Rule

/-- Why a rule has no body for the token it meets. -/
def refusal (rule : Rule) : Option Token → ReadError
  | none => .unexpectedEnd
  | some token =>
    match rule with
    | .expression | .firstArgument | .nextArgument => .noExpression token.text token.start
    | _ => .misplacedToken token.text token.start

end Rule

namespace Derivation

inductive Task where
  | expand (symbol : Symbol) (parent : Option Nat)
  | close (id : Nat)
deriving DecidableEq, Repr

namespace Task

/-- Bounds the steps before the next token is taken. A terminal takes one; an expression or a call
is replaced by a body that begins with a terminal. -/
def rank : List Task → Nat
  | [] => 0
  | .close _ :: work => rank work + 1
  | .expand (.terminal _) _ :: _ => 1
  | .expand (.rule .expression) _ :: _ => 2
  | .expand (.rule .call) _ :: _ => 2
  | .expand (.rule _) _ :: work => rank work + 3

/-- The work that replaces a rule. -/
def below (id : Nat) (body : List Symbol) (work : List Task) : List Task :=
  body.map (.expand · (some id)) ++ .close id :: work

theorem rank_below_lt {rule : Rule} {l : Lookahead} {body : List Symbol}
    (h : rule.body? l = some body) (id : Nat) (parent : Option Nat) (work : List Task) :
    rank (below id body work) < rank (.expand (.rule rule) parent :: work) := by
  unfold Rule.body? at h
  repeat' split at h
  all_goals first
    | contradiction
    | cases h; simp [below, rank, Rule.prefixed, Rule.joined]

end Task

/-- A terminal whose turn has come, with the work behind it. -/
structure Due where
  terminal : Terminal
  parent : Option Nat
  work : List Task
deriving DecidableEq, Repr

/-- Does all that can be done before a token is taken. -/
def settle (table : OperatorTable) (next : Option Token) (place : Nat) (tree : Derivation)
    (work : List Task) : Except ReadError (Derivation × Option Due) :=
  match work with
  | [] => .ok (tree, none)
  | .close id :: work => settle table next place (tree.close id place) work
  | .expand (.terminal terminal) parent :: work => .ok (tree, some ⟨terminal, parent, work⟩)
  | .expand (.rule rule) parent :: work =>
    match h : rule.body? (.of table next) with
    | none => .error (rule.refusal next)
    | some body =>
      let id := tree.size
      have := Task.rank_below_lt h id parent work
      settle table next place (tree.push (.rule rule) place parent) (Task.below id body work)
termination_by Task.rank work
decreasing_by
  · simp [Task.rank]
  · exact this

/-- Adds a terminal that takes the token in this place. -/
def take (tree : Derivation) (due : Due) (place : Nat) : Derivation :=
  let id := tree.size
  (tree.push (.terminal due.terminal) place due.parent).bind id place

/-- Takes all tokens, the first of them in this place. -/
def build (table : OperatorTable) (tree : Derivation) (place : Nat) (work : List Task) :
    List Token → Except ReadError Derivation
  | [] => do
    match ← settle table none place tree work with
    | (tree, none) => return tree
    | (_, some _) => throw .unexpectedEnd
  | token :: rest => do
    match ← settle table (some token) place tree work with
    | (_, none) => throw (.trailing token.text token.start)
    | (tree, some due) =>
      if due.terminal.accepts table token then
        build table (tree.take due place) (place + 1) due.work rest
      else throw (.misplacedToken token.text token.start)

/-- The derivation of a whole line. -/
def ofTokens (table : OperatorTable) (tokens : List Token) : Except ReadError Derivation :=
  build table .empty 0 [.expand (.rule .line) none] tokens

end Derivation

end Calculator
