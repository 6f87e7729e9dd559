import Calculator.Proofs.Derivation.Items
import Calculator.Proofs.Derivation.Refusal

namespace Calculator

namespace Derivation

/-- The token that a node takes. -/
def token? (t : Derivation) (id : Nat) : Option Nat := t.nodes[id]?.bind Node.token

/-- From one place on, the spans of these nodes follow one another up to another place. -/
inductive Spans (t : Derivation) (stop : Nat) : Nat → List Nat → Prop
  | done : Spans t stop stop []
  | next {id : Nat} {node : Node} {ids : List Nat} (found : t.nodes[id]? = some node)
    (later : Spans t stop node.stop ids) : Spans t stop node.start (id :: ids)

/-- A node is as its symbol demands. A rule has been replaced by its body for the token at its
start, and the spans of its children make up its own; a terminal covers the one token that it takes
and accepts. -/
def Fits (t : Derivation) (table : OperatorTable) (tokens : List Token) (node : Node) : Prop :=
  match node.symbol with
  | .rule rule =>
    node.token = none ∧ t.Spans node.stop node.start node.children ∧
      ∃ body, rule.body? (.of table tokens[node.start]?) = some body ∧
        node.children.map t.symbol? = body.map some
  | .terminal terminal =>
    node.token = some node.start ∧ node.stop = node.start + 1 ∧ node.children = [] ∧
      ∃ token, tokens[node.start]? = some token ∧ terminal.accepts table token = true

structure WellFormed (t : Derivation) (table : OperatorTable) (tokens : List Token) : Prop where
  root : ∃ node, t.nodes[0]? = some node ∧ node.symbol = .rule .line ∧ node.parent = none ∧
    node.start = 0 ∧ node.stop = tokens.length
  /-- Every other node is a child of its parent, once, and of no other node. -/
  below : ∀ id, 0 < id → id < t.size → ∃ p < id, t.parent? id = some p ∧
    ∀ q, (t.children q).count id = if q = p then 1 else 0
  ordered : ∀ id, (t.children id).Pairwise (· < ·)
  fits : ∀ (id : Nat) (node : Node), t.nodes[id]? = some node → t.Fits table tokens node
  /-- The nodes of terminals, each once. -/
  listed : t.terminals =
    (List.range t.size).filter fun id => (t.symbol? id).any Symbol.isTerminal
  /-- They take the tokens in order, each once. -/
  taken : t.terminals.map t.token? = (List.range tokens.length).map some

section Holding

variable {t : Derivation} {parent : Option Nat} {id place : Nat}

theorem Holds.node {tree : Tree} (h : t.Holds parent id place tree) :
    ∃ node, t.nodes[id]? = some node ∧ node.symbol = tree.symbol ∧ node.parent = parent ∧
      node.start = place ∧ node.stop = place + tree.tokens.length := by
  cases tree with
  | leaf terminal token => exact ⟨_, h.leaf, rfl, rfl, rfl, rfl⟩
  | node rule children => exact ⟨_, h.rule, rfl, rfl, rfl, rfl⟩

theorem HoldsAll.spans {trees : List Tree} (h : t.HoldsAll parent id place trees) :
    t.Spans (place + (Tree.tokensAll trees).length) place (Tree.places id trees) := by
  induction trees generalizing id place with
  | nil => exact .done
  | cons c cs ih =>
    obtain ⟨first, later⟩ := h.cons
    obtain ⟨node, found, -, -, rfl, stop⟩ := first.node
    have behind := ih later
    rw [← stop] at behind
    rw [Tree.tokensAll, List.length_append, ← Nat.add_assoc, ← stop]
    exact .next found behind

theorem HoldsAll.symbols {trees : List Tree} (h : t.HoldsAll parent id place trees) :
    (Tree.places id trees).map t.symbol? = (trees.map Tree.symbol).map some := by
  induction trees generalizing id place with
  | nil => rfl
  | cons c cs ih =>
    obtain ⟨first, later⟩ := h.cons
    simp [Tree.places, first.symbol, ih later]

theorem HoldsAll.parent?_places {trees : List Tree} (h : t.HoldsAll parent id place trees) :
    ∀ c ∈ Tree.places id trees, t.parent? c = parent := by
  induction trees generalizing id place with
  | nil => simp [Tree.places]
  | cons c cs ih =>
    obtain ⟨first, later⟩ := h.cons
    obtain ⟨node, found, -, above, -, -⟩ := first.node
    refine List.forall_mem_cons.mpr ⟨?_, ih later⟩
    simp [parent?, found, above]

mutual

/-- The leaves of a tree are its terminals, in order. -/
theorem leaves_eq {parent : Option Nat} {id place : Nat} : (tree : Tree) →
    t.Holds parent id place tree →
      tree.leaves id =
        (List.range' id tree.size).filter fun id => (t.symbol? id).any Symbol.isTerminal
  | .leaf terminal token, h => by
    simp [Tree.leaves, Tree.size, h.symbol, Tree.symbol, Symbol.isTerminal]
  | .node rule children, h => by
    have below := leavesAll_eq children h.below
    rw [Tree.leaves, Tree.size, List.range'_succ, List.filter_cons_of_neg, below]
    simp [h.symbol, Tree.symbol, Symbol.isTerminal]

theorem leavesAll_eq {parent : Option Nat} {id place : Nat} : (trees : List Tree) →
    t.HoldsAll parent id place trees →
      Tree.leavesAll id trees =
        (List.range' id (Tree.sizeAll trees)).filter fun id =>
          (t.symbol? id).any Symbol.isTerminal
  | [], _ => rfl
  | c :: cs, h => by
    obtain ⟨first, later⟩ := h.cons
    rw [Tree.leavesAll, Tree.sizeAll, leaves_eq c first, leavesAll_eq cs later,
      ← List.filter_append, List.range'_append_1]

end

mutual

/-- The leaves of a tree take its tokens in order. -/
theorem token?_leaves {parent : Option Nat} {id place : Nat} : (tree : Tree) →
    t.Holds parent id place tree →
      (tree.leaves id).map t.token? = (List.range' place tree.tokens.length).map some
  | .leaf terminal token, h => by
    simp [Tree.leaves, token?, h.leaf, Tree.tokens]
  | .node rule children, h => token?_leavesAll children h.below

theorem token?_leavesAll {parent : Option Nat} {id place : Nat} : (trees : List Tree) →
    t.HoldsAll parent id place trees →
      (Tree.leavesAll id trees).map t.token? =
        (List.range' place (Tree.tokensAll trees).length).map some
  | [], _ => rfl
  | c :: cs, h => by
    obtain ⟨first, later⟩ := h.cons
    rw [Tree.leavesAll, List.map_append, token?_leaves c first, token?_leavesAll cs later,
      ← List.map_append, List.range'_append_1, Tree.tokensAll, List.length_append]

end

end Holding

section Sites

variable {t : Derivation} {table : OperatorTable} {tokens behind : List Token}

/-- A predicted tree is rooted at a node, in front of these tokens; the node is the first one or a
child of its parent. -/
structure Sited (t : Derivation) (table : OperatorTable) (tokens : List Token)
    (parent : Option Nat) (id place : Nat) (tree : Tree) (behind : List Token) : Prop where
  holds : t.Holds parent id place tree
  predicted : tree.Predicted table behind
  standing : tokens.drop place = tree.tokens ++ behind
  linked : match parent with
    | none => id = 0
    | some p => id ∈ t.children p

/-- Predicted trees are rooted at children of a node, one after another. -/
structure SitedAll (t : Derivation) (table : OperatorTable) (tokens : List Token)
    (p id place : Nat) (trees : List Tree) (behind : List Token) : Prop where
  holds : t.HoldsAll (some p) id place trees
  predicted : Tree.AllPredicted table behind trees
  standing : tokens.drop place = Tree.tokensAll trees ++ behind
  linked : ∀ c ∈ Tree.places id trees, c ∈ t.children p

theorem Sited.below {parent : Option Nat} {id place : Nat} {rule : Rule} {children : List Tree}
    (h : t.Sited table tokens parent id place (.node rule children) behind) :
    t.SitedAll table tokens id (id + 1) place children behind where
  holds := h.holds.below
  predicted := h.predicted.2
  standing := h.standing
  linked c hc := by rwa [h.holds.children]

theorem SitedAll.cons {p id place : Nat} {c : Tree} {cs : List Tree}
    (h : t.SitedAll table tokens p id place (c :: cs) behind) :
    t.Sited table tokens (some p) id place c (Tree.tokensAll cs ++ behind) ∧
      t.SitedAll table tokens p (id + c.size) (place + c.tokens.length) cs behind := by
  obtain ⟨first, later⟩ := h.holds.cons
  obtain ⟨linked, others⟩ := List.forall_mem_cons.mp h.linked
  have standing := h.standing
  rw [Tree.tokensAll, List.append_assoc] at standing
  refine ⟨⟨first, h.predicted.1, standing, linked⟩, later, h.predicted.2, ?_, others⟩
  rw [← List.drop_drop, standing, List.drop_left]

mutual

/-- Every node below a tree has a tree of its own. -/
theorem exists_sited {parent : Option Nat} {id place i : Nat} {behind : List Token} :
    (tree : Tree) → t.Sited table tokens parent id place tree behind → id ≤ i →
      i < id + tree.size → ∃ parent place tree behind,
        t.Sited table tokens parent i place tree behind
  | .leaf terminal token, h, least, most => by
    obtain rfl : i = id := by
      simp only [Tree.size] at most
      omega
    exact ⟨_, _, _, _, h⟩
  | .node rule children, h, least, most => by
    rcases Nat.eq_or_lt_of_le least with rfl | inner
    · exact ⟨_, _, _, _, h⟩
    · refine exists_sited_among children h.below inner ?_
      rw [Tree.size] at most
      omega

theorem exists_sited_among {p id place i : Nat} {behind : List Token} :
    (trees : List Tree) → t.SitedAll table tokens p id place trees behind → id ≤ i →
      i < id + Tree.sizeAll trees → ∃ parent place tree behind,
        t.Sited table tokens parent i place tree behind
  | [], _, least, most => by
    simp only [Tree.sizeAll] at most
    omega
  | c :: cs, h, least, most => by
    obtain ⟨first, later⟩ := h.cons
    rw [Tree.sizeAll] at most
    by_cases here : i < id + c.size
    · exact exists_sited c first least here
    · exact exists_sited_among cs later (by omega) (by omega)

end

/-- The token in the place of a tree is its first, or the first behind it. -/
theorem Sited.getElem? {parent : Option Nat} {id place : Nat} {tree : Tree}
    (h : t.Sited table tokens parent id place tree behind) :
    tokens[place]? = (tree.tokens ++ behind).head? := by
  rw [← h.standing, List.head?_drop]

theorem Sited.fits {parent : Option Nat} {id place : Nat} {tree : Tree} {node : Node}
    (h : t.Sited table tokens parent id place tree behind) (found : t.nodes[id]? = some node) :
    t.Fits table tokens node := by
  cases tree with
  | leaf terminal token =>
    obtain rfl := Option.some.inj (found.symm.trans h.holds.leaf)
    exact ⟨rfl, rfl, rfl, token, h.getElem?, h.predicted⟩
  | node rule children =>
    obtain rfl := Option.some.inj (found.symm.trans h.holds.rule)
    refine ⟨rfl, h.holds.below.spans, children.map Tree.symbol, ?_, h.holds.below.symbols⟩
    rw [h.getElem?]
    exact h.predicted.1

/-- Children have no parent but the node that lists them. -/
theorem Sited.parent?_children {parent : Option Nat} {id place : Nat} {tree : Tree}
    (h : t.Sited table tokens parent id place tree behind) :
    ∀ c ∈ t.children id, t.parent? c = some id := by
  cases tree with
  | leaf terminal token => simp [children, h.holds.leaf]
  | node rule cs =>
    rw [h.holds.children]
    exact h.holds.below.parent?_places

theorem parent?_of_sited {p id place : Nat} {tree : Tree}
    (h : t.Sited table tokens (some p) id place tree behind) : t.parent? id = some p := by
  obtain ⟨node, found, -, above, -, -⟩ := h.holds.node
  simp [parent?, found, above]

/-- A node is among the children of its parent once. -/
theorem count_children {id p : Nat} (child : id ∈ t.children p) : (t.children p).count id = 1 := by
  have ordered := (List.pairwise_cons.mp (t.pairwise_children p)).2
  exact List.count_eq_one_of_mem (ordered.imp Nat.ne_of_lt) child

end Sites

/-- A derivation whose nodes are those of a predicted line is well-formed. -/
theorem wellFormed_of_predicted {t : Derivation} {table : OperatorTable} {tree : Tree}
    (line : tree.symbol = .rule .line) (predicted : tree.Predicted table [])
    (nodes : t.nodes.toList = tree.nodes none 0 0) : t.WellFormed table tree.tokens := by
  have held := holds_root nodes
  have root : t.Sited table tree.tokens none 0 0 tree [] :=
    ⟨held, predicted, by simp, rfl⟩
  have sited {i : Nat} (h : i < t.size) : ∃ parent place sub behind,
      t.Sited table tree.tokens parent i place sub behind :=
    exists_sited tree root (Nat.zero_le i) (by rwa [Nat.zero_add, ← size_eq nodes])
  have present {i : Nat} {node : Node} (found : t.nodes[i]? = some node) : i < t.size :=
    (Array.getElem?_eq_some_iff.mp found).1
  constructor
  case root =>
    obtain ⟨node, found, symbol, parent, start, stop⟩ := held.node
    exact ⟨node, found, symbol.trans line, parent, start, by simpa using stop⟩
  case below =>
    intro id inner inside
    obtain ⟨parent, place, sub, behind, site⟩ := sited inside
    cases parent with
    | none => exact absurd site.linked (Nat.ne_of_gt inner)
    | some p =>
      have child : id ∈ t.children p := site.linked
      refine ⟨p, (lt_of_mem_children child).1, parent?_of_sited site, fun q => ?_⟩
      split
      · next same => exact same ▸ count_children child
      · next other =>
        refine List.count_eq_zero.mpr fun listed => other ?_
        have found := lt_of_mem_children listed
        obtain ⟨_, _, _, _, site'⟩ := sited (Nat.lt_trans found.1 found.2)
        have above := site'.parent?_children id listed
        exact Option.some.inj (above.symm.trans (parent?_of_sited site))
  case ordered => exact fun id => (List.pairwise_cons.mp (t.pairwise_children id)).2
  case fits =>
    intro id node found
    obtain ⟨parent, place, sub, behind, site⟩ := sited (present found)
    exact site.fits found
  case listed =>
    rw [terminals_eq nodes, leaves_eq tree held, ← size_eq nodes, List.range_eq_range']
  case taken =>
    rw [terminals_eq nodes, token?_leaves tree held, List.range_eq_range']

end Derivation

/-- Every derivation of accepted tokens is well-formed. -/
theorem ofTokens_wellFormed {table : OperatorTable} {tokens : List Token} {built : Derivation}
    (accepted : Derivation.ofTokens table tokens = .ok built) : built.WellFormed table tokens := by
  obtain ⟨tree, line, predicted, rfl, nodes⟩ := Derivation.exists_predicted accepted
  exact Derivation.wellFormed_of_predicted line predicted nodes

/-- The derivation of `f(1, x!)`. -/
theorem ofTokens_wellFormed_call :
    let f : Token := ⟨.name, "f", 0, 1⟩
    let o : Token := ⟨.openParen, "(", 1, 2⟩
    let one : Token := ⟨.number, "1", 2, 3⟩
    let comma : Token := ⟨.comma, ",", 3, 4⟩
    let x : Token := ⟨.name, "x", 5, 6⟩
    let bang : Token := ⟨.operator, "!", 6, 7⟩
    let c : Token := ⟨.closeParen, ")", 7, 8⟩
    ∃ built, Derivation.ofTokens .standard [f, o, one, comma, x, bang, c] = .ok built ∧
      built.WellFormed .standard [f, o, one, comma, x, bang, c] := by
  intro f o one comma x bang c
  obtain ⟨built, accepted⟩ : OperatorTable.standard.Accepts [f, o, one, comma, x, bang, c] :=
    OperatorTable.accepts_iff.mpr rfl
  exact ⟨built, accepted, ofTokens_wellFormed accepted⟩

end Calculator
