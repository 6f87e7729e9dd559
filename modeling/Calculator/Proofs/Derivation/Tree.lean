import Calculator.Derivation.Building

namespace Calculator

/-- A terminal with the token that it takes, or a rule with what replaced it. -/
inductive Tree where
  | leaf (terminal : Terminal) (token : Token)
  | node (rule : Rule) (children : List Tree)

namespace Tree

def symbol : Tree → Symbol
  | leaf terminal _ => .terminal terminal
  | node rule _ => .rule rule

@[simp] theorem symbol_eq_terminal {tree : Tree} {terminal : Terminal} :
    tree.symbol = .terminal terminal ↔ ∃ token, tree = leaf terminal token := by
  cases tree <;> simp [symbol]

@[simp] theorem symbol_eq_rule {tree : Tree} {rule : Rule} :
    tree.symbol = .rule rule ↔ ∃ children, tree = node rule children := by
  cases tree <;> simp [symbol]

mutual

def tokens : Tree → List Token
  | leaf _ token => [token]
  | node _ children => tokensAll children

def tokensAll : List Tree → List Token
  | [] => []
  | c :: cs => c.tokens ++ tokensAll cs

end

theorem tokensAll_append (xs ys : List Tree) :
    tokensAll (xs ++ ys) = tokensAll xs ++ tokensAll ys := by
  induction xs with
  | nil => rfl
  | cons c cs ih => simp [tokensAll, ih]

mutual

/-- Every rule was replaced as the next token demands, where these tokens come behind the tree. -/
def Predicted (table : OperatorTable) (behind : List Token) : Tree → Prop
  | leaf terminal token => terminal.accepts table token = true
  | node rule children =>
    rule.body? (.of table (tokensAll children ++ behind).head?) = some (children.map symbol) ∧
      AllPredicted table behind children

def AllPredicted (table : OperatorTable) (behind : List Token) : List Tree → Prop
  | [] => True
  | c :: cs => c.Predicted table (tokensAll cs ++ behind) ∧ AllPredicted table behind cs

end

theorem allPredicted_append {table : OperatorTable} {behind : List Token} (xs ys : List Tree) :
    AllPredicted table behind (xs ++ ys) ↔
      AllPredicted table (tokensAll ys ++ behind) xs ∧ AllPredicted table behind ys := by
  induction xs with
  | nil => simp [AllPredicted]
  | cons c cs ih => simp [AllPredicted, ih, tokensAll_append, and_assoc]

mutual

/-- The number of nodes. -/
def size : Tree → Nat
  | leaf _ _ => 1
  | node _ children => sizeAll children + 1

def sizeAll : List Tree → Nat
  | [] => 0
  | c :: cs => c.size + sizeAll cs

end

/-- The indices of trees that are listed one after another. -/
def places (id : Nat) : List Tree → List Nat
  | [] => []
  | c :: cs => id :: places (id + c.size) cs

mutual

/-- The nodes from an index on, the first token being at a place. -/
def nodes (parent : Option Nat) (id place : Nat) : Tree → List Node
  | leaf terminal _ => [⟨.terminal terminal, place, place + 1, [], parent, some place⟩]
  | node rule children =>
    ⟨.rule rule, place, place + (tokensAll children).length, places (id + 1) children, parent,
      none⟩ :: nodesAll (some id) (id + 1) place children

def nodesAll (parent : Option Nat) (id place : Nat) : List Tree → List Node
  | [] => []
  | c :: cs =>
    c.nodes parent id place ++ nodesAll parent (id + c.size) (place + c.tokens.length) cs

end

mutual

theorem length_nodes (parent : Option Nat) (id place : Nat) :
    (tree : Tree) → (tree.nodes parent id place).length = tree.size
  | leaf _ _ => rfl
  | node _ children => by
    simp [nodes, size, length_nodesAll (some id) (id + 1) place children]

theorem length_nodesAll (parent : Option Nat) (id place : Nat) :
    (trees : List Tree) → (nodesAll parent id place trees).length = sizeAll trees
  | [] => rfl
  | c :: cs => by
    simp [nodesAll, sizeAll, length_nodes parent id place c,
      length_nodesAll parent (id + c.size) (place + c.tokens.length) cs]

end

end Tree

end Calculator
