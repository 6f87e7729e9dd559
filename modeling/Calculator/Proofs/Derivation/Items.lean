import Calculator.Derivation.Items
import Calculator.Proofs.Except
import Calculator.Proofs.Grammar.Language

namespace Calculator

namespace Tree

/-- Counts on along the tail of an argument list. -/
def countTail (counted : Nat) : Tree → Except Nat Nat
  | node .argumentTail [leaf .comma _, node .nextArgument []] => .error (counted + 1)
  | node .argumentTail [leaf .comma _, node .nextArgument [_, tail]] =>
    tail.countTail (counted + 1)
  | _ => .ok counted

/-- The number of arguments in a list. An argument that is left out is refused with its number. -/
def count : Tree → Except Nat Nat
  | node .firstArgument [_, tail] => tail.countTail 1
  | _ => .ok 0

/-- What an opening parenthesis stands for below a node, behind these tokens. -/
def opening (front : List Token) : Option Tree → Except ReadError Item
  | some (node .call [_, args, _]) =>
    match args.count with
    | .ok n => .ok (.call n)
    | .error index => .error (.emptyArgument ((front.getLast?.map Token.text).getD "") index)
  | _ => .ok .openParen

/-- The items of a token below a node, behind these tokens. -/
def leafItems (table : OperatorTable) (above : Option Tree) (front : List Token) (token : Token) :
    Terminal → Except ReadError (List Item)
  | .operator position => do
    let implied :=
      if position = .between ∧ above.map symbol = some (.rule .line) then [.name answerName] else []
    return implied ++ [.operator (← table.find token.text position)]
  | .value => return [← Derivation.value token]
  | .openParen => return [← opening front above]
  | .closeParen => return [.closeParen]
  | .comma => return [.comma]

mutual

/-- The items of a tree below a node, behind these tokens. -/
def items (table : OperatorTable) (above : Option Tree) (front : List Token) :
    Tree → Except ReadError (List Item)
  | leaf terminal token => leafItems table above front token terminal
  | node rule children => itemsAll table (some (node rule children)) front children

def itemsAll (table : OperatorTable) (above : Option Tree) (front : List Token) :
    List Tree → Except ReadError (List Item)
  | [] => return []
  | c :: cs => do
    let first ← c.items table above front
    let later ← itemsAll table above (front ++ c.tokens) cs
    return first ++ later

end

mutual

/-- The indices of the leaves, from left to right. -/
def leaves (id : Nat) : Tree → List Nat
  | leaf _ _ => [id]
  | node _ children => leavesAll (id + 1) children

def leavesAll (id : Nat) : List Tree → List Nat
  | [] => []
  | c :: cs => c.leaves id ++ leavesAll (id + c.size) cs

end

end Tree

theorem prefix_drop_cons {α : Type} {x : α} {xs ys : List α} {i : Nat}
    (h : x :: xs <+: ys.drop i) : ys[i]? = some x ∧ xs <+: ys.drop (i + 1) := by
  obtain ⟨zs, hz⟩ := h
  have first : (ys.drop i)[0]? = some x := by rw [← hz]; rfl
  have later : (ys.drop i).drop 1 = xs ++ zs := by rw [← hz]; rfl
  rw [List.getElem?_drop, Nat.add_zero] at first
  rw [List.drop_drop] at later
  exact ⟨first, zs, later.symm⟩

theorem prefix_drop_append {α : Type} {xs ys zs : List α} {i : Nat}
    (h : xs ++ ys <+: zs.drop i) : xs <+: zs.drop i ∧ ys <+: zs.drop (i + xs.length) := by
  obtain ⟨later, hl⟩ := h
  have behind : (zs.drop i).drop xs.length = ys ++ later := by
    rw [← hl, List.append_assoc, List.drop_left]
  rw [List.drop_drop] at behind
  exact ⟨⟨ys ++ later, by rw [← hl, List.append_assoc]⟩, later, behind.symm⟩

namespace Derivation

/-- The nodes from an index on are those of a tree. -/
def Holds (t : Derivation) (parent : Option Nat) (id place : Nat) (tree : Tree) : Prop :=
  tree.nodes parent id place <+: t.nodes.toList.drop id

def HoldsAll (t : Derivation) (parent : Option Nat) (id place : Nat) (trees : List Tree) : Prop :=
  Tree.nodesAll parent id place trees <+: t.nodes.toList.drop id

section Holding

variable {t : Derivation} {parent : Option Nat} {id place : Nat}

theorem Holds.leaf {terminal : Terminal} {token : Token}
    (h : t.Holds parent id place (.leaf terminal token)) :
    t.nodes[id]? = some ⟨.terminal terminal, place, place + 1, [], parent, some place⟩ := by
  have first := (prefix_drop_cons h).1
  rwa [Array.getElem?_toList] at first

theorem Holds.rule {rule : Rule} {children : List Tree}
    (h : t.Holds parent id place (.node rule children)) :
    t.nodes[id]? = some ⟨.rule rule, place, place + (Tree.tokensAll children).length,
      Tree.places (id + 1) children, parent, none⟩ := by
  have first := (prefix_drop_cons h).1
  rwa [Array.getElem?_toList] at first

theorem Holds.children {rule : Rule} {children : List Tree}
    (h : t.Holds parent id place (.node rule children)) :
    t.children id = Tree.places (id + 1) children := by
  simp [Derivation.children, h.rule]

theorem Holds.below {rule : Rule} {children : List Tree}
    (h : t.Holds parent id place (.node rule children)) :
    t.HoldsAll (some id) (id + 1) place children :=
  (prefix_drop_cons h).2

theorem Holds.symbol {tree : Tree} (h : t.Holds parent id place tree) :
    t.symbol? id = some tree.symbol := by
  cases tree with
  | leaf terminal token => simp [symbol?, h.leaf, Tree.symbol]
  | node rule children => simp [symbol?, h.rule, Tree.symbol]

theorem HoldsAll.cons {c : Tree} {cs : List Tree} (h : t.HoldsAll parent id place (c :: cs)) :
    t.Holds parent id place c ∧
      t.HoldsAll parent (id + c.size) (place + c.tokens.length) cs := by
  have parts := prefix_drop_append h
  rwa [Tree.length_nodes] at parts

/-- A child is found behind one with another symbol. -/
theorem Holds.child?_second {rule : Rule} {x y : Tree} {zs : List Tree}
    (h : t.Holds parent id place (.node rule (x :: y :: zs))) (other : x.symbol ≠ y.symbol) :
    t.child? id y.symbol = some (id + 1 + x.size) := by
  obtain ⟨first, later⟩ := h.below.cons
  have second := later.cons.1
  rw [child?, h.children, Tree.places, Tree.places]
  simp [first.symbol, second.symbol, other]

theorem Holds.child?_childless {rule : Rule} {s : Symbol}
    (h : t.Holds parent id place (.node rule [])) : t.child? id s = none := by
  simp [child?, h.children, Tree.places]

end Holding

/-- The items of the terminals with these indices. -/
def itemsOf (t : Derivation) (table : OperatorTable) (tokens : List Token) (ids : List Nat) :
    Except ReadError (List Item) :=
  (ids.mapM (t.itemsAt table tokens.toArray)).map List.flatten

theorem itemsOf_append (t : Derivation) (table : OperatorTable) (tokens : List Token)
    (xs ys : List Nat) :
    t.itemsOf table tokens (xs ++ ys) = do
      let first ← t.itemsOf table tokens xs
      let later ← t.itemsOf table tokens ys
      return first ++ later := by
  simp only [itemsOf, List.mapM_append]
  cases xs.mapM (t.itemsAt table tokens.toArray) with
  | error e => rfl
  | ok first =>
    cases ys.mapM (t.itemsAt table tokens.toArray) with
    | error e => rfl
    | ok later => simp [Except.map]

theorem itemsOf_singleton (t : Derivation) (table : OperatorTable) (tokens : List Token)
    (id : Nat) : t.itemsOf table tokens [id] = t.itemsAt table tokens.toArray id := by
  simp only [itemsOf, List.mapM_cons, List.mapM_nil]
  cases t.itemsAt table tokens.toArray id <;> simp [Except.map]

mutual

/-- The walk below a node visits the leaves of its tree. -/
theorem walk_tree {t : Derivation} {parent : Option Nat} {id place : Nat} (pending : List Nat) :
    (tree : Tree) → t.Holds parent id place tree →
      t.walk (id :: pending) = tree.leaves id ++ t.walk pending
  | .leaf terminal token, h => by
    rw [walk, h.symbol]
    rfl
  | .node rule children, h => by
    have below := walk_trees pending children h.below
    rw [walk, h.symbol, h.children]
    exact below

theorem walk_trees {t : Derivation} {parent : Option Nat} {id place : Nat} (pending : List Nat) :
    (trees : List Tree) → t.HoldsAll parent id place trees →
      t.walk (Tree.places id trees ++ pending) = Tree.leavesAll id trees ++ t.walk pending
  | [], _ => rfl
  | c :: cs, h => by
    obtain ⟨first, later⟩ := h.cons
    rw [Tree.places, List.cons_append, walk_tree _ c first, walk_trees pending cs later,
      Tree.leavesAll, List.append_assoc]

end

section Counting

variable {t : Derivation} {counted tail argument tail' : Nat}

theorem countFrom_end (h : t.child? tail (.rule .nextArgument) = none) :
    t.countFrom counted tail = .ok counted := by
  rw [countFrom]
  split <;> simp_all

theorem countFrom_open (h : t.child? tail (.rule .nextArgument) = some argument)
    (bare : t.children argument = []) : t.countFrom counted tail = .error (counted + 1) := by
  rw [countFrom]
  split <;> simp_all

theorem countFrom_next (h : t.child? tail (.rule .nextArgument) = some argument)
    (filled : t.children argument ≠ [])
    (later : t.child? argument (.rule .argumentTail) = some tail') :
    t.countFrom counted tail = t.countFrom (counted + 1) tail' := by
  rw [countFrom]
  split
  next missing => simp [missing] at h
  next found =>
    obtain rfl := Option.some.inj (h.symm.trans found)
    rw [if_neg (by simpa using filled)]
    split
    next missing => simp [missing] at later
    next found =>
      obtain rfl := Option.some.inj (later.symm.trans found)
      rfl

theorem countFrom_last (h : t.child? tail (.rule .nextArgument) = some argument)
    (filled : t.children argument ≠ [])
    (later : t.child? argument (.rule .argumentTail) = none) :
    t.countFrom counted tail = .ok (counted + 1) := by
  rw [countFrom]
  split
  next missing => simp [missing] at h
  next found =>
    obtain rfl := Option.some.inj (h.symm.trans found)
    rw [if_neg (by simpa using filled)]
    split <;> simp_all

end Counting

/-- The arguments in the tail of a list are counted as on its tree. -/
theorem countFrom_tail {t : Derivation} {table : OperatorTable} {parent : Option Nat}
    {id place : Nat} (counted : Nat) (children : List Tree)
    (grammatical : (Tree.node .argumentTail children).Grammatical table)
    (h : t.Holds parent id place (.node .argumentTail children)) :
    t.countFrom counted id = (Tree.node .argumentTail children).countTail counted := by
  rcases Tree.argumentTail_shape grammatical.1 with ⟨c, ns, rfl⟩ | rfl
  · have next := h.below.cons.2.cons.1
    have found := h.child?_second (by simp [Tree.symbol])
    obtain ⟨-, listed, -⟩ := grammatical.2
    rcases Tree.argument_shape (.inr rfl) listed.1 with ⟨es, ts, rfl⟩ | rfl
    · have tail := next.below.cons.2.cons.1
      have last := next.child?_second (by simp [Tree.symbol])
      have filled := next.children
      rw [countFrom_next found (by rw [filled]; exact List.cons_ne_nil _ _) last,
        countFrom_tail (counted + 1) ts listed.2.2.1 tail]
      rfl
    · rw [countFrom_open found next.children]
      rfl
  · rw [countFrom_end h.child?_childless]
    rfl
termination_by Tree.sizeAll children
decreasing_by
  subst_vars
  simp only [Tree.sizeAll, Tree.size]
  omega

/-- The arguments of a call are counted as on its tree. -/
theorem countArguments_call {t : Derivation} {table : OperatorTable} {parent : Option Nat}
    {id place : Nat} {o c : Token} {args : List Tree}
    (grammatical : (Tree.node .firstArgument args).Grammatical table)
    (h : t.Holds parent id place
      (.node .call [.leaf .openParen o, .node .firstArgument args, .leaf .closeParen c])) :
    t.countArguments id = (Tree.node .firstArgument args).count := by
  have listed : t.Holds (some id) (id + 2) (place + 1) (.node .firstArgument args) :=
    h.below.cons.2.cons.1
  have found : t.child? id (.rule .firstArgument) = some (id + 2) :=
    h.child?_second (by simp [Tree.symbol])
  rw [countArguments, found]
  rcases Tree.argument_shape (.inl rfl) grammatical.1 with ⟨es, ts, rfl⟩ | rfl
  · have tail := listed.below.cons.2.cons.1
    have last : t.child? (id + 2) (.rule .argumentTail) = some _ :=
      listed.child?_second (by simp [Tree.symbol])
    have counted := countFrom_tail 1 ts grammatical.2.2.1 tail
    simp only [listed.children, Tree.places, List.isEmpty_cons, last]
    exact counted
  · simp only [listed.children, Tree.places, List.isEmpty_nil]
    rfl

/-- What stands right above a node: nothing, or the tree that its parent holds, which is that of
the line or a grammatical one. -/
def Above (t : Derivation) (table : OperatorTable) : Option Nat → Option Tree → Prop
  | none, none => True
  | some id, some tree =>
    (tree.symbol = .rule .line ∨ tree.Grammatical table) ∧
      ∃ parent place, t.Holds parent id place tree
  | _, _ => False

theorem Above.symbol {t : Derivation} {table : OperatorTable} {parent : Option Nat}
    {above : Option Tree} (h : t.Above table parent above) :
    parent.bind t.symbol? = above.map Tree.symbol := by
  match parent, above, h with
  | none, none, _ => rfl
  | some id, some tree, ⟨_, _, _, held⟩ => exact held.symbol

/-- The item of an opening parenthesis is that of its leaf. -/
theorem opening_leaf {t : Derivation} {table : OperatorTable} {parent : Option Nat}
    {above : Option Tree} (h : t.Above table parent above) (front back : List Token)
    (token : Token) :
    t.opening (front ++ token :: back).toArray
        ⟨.terminal .openParen, front.length, front.length + 1, [], parent, some front.length⟩
        front.length =
      Tree.opening front above := by
  have callee : (if front.length = 0 then "" else
      ((front ++ token :: back).toArray[front.length - 1]?.map Token.text).getD "") =
      (front.getLast?.map Token.text).getD "" := by
    rcases List.eq_nil_or_concat front with rfl | ⟨before, last, rfl⟩
    · rfl
    · simp
  match parent, above, h with
  | none, none, _ => rfl
  | some id, some (.leaf terminal token'), ⟨_, _, _, held⟩ =>
    simp [opening, held.symbol, Tree.symbol, Tree.opening]
  | some id, some (.node rule children), ⟨known, _, _, held⟩ =>
    by_cases hr : rule = .call
    · subst hr
      have grammatical := known.resolve_left (by simp [Tree.symbol])
      obtain ⟨o, args, c, rfl⟩ := Tree.call_shape grammatical.1
      have counted := countArguments_call grammatical.2.2.1 held
      simp only [opening, held.symbol, Tree.symbol, counted, Tree.opening, callee]
      rfl
    · have plain : Tree.opening front (some (.node rule children)) = .ok .openParen := by
        unfold Tree.opening
        split <;> simp_all
      rw [plain]
      simp [opening, held.symbol, Tree.symbol, hr]

/-- The items of a terminal are those of its leaf. -/
theorem itemsAt_leaf {t : Derivation} {table : OperatorTable} {parent : Option Nat}
    {above : Option Tree} {id : Nat} {front back : List Token} {terminal : Terminal}
    {token : Token} (h : t.Holds parent id front.length (.leaf terminal token))
    (around : t.Above table parent above) :
    t.itemsAt table (front ++ token :: back).toArray id =
      Tree.leafItems table above front token terminal := by
  have opened := opening_leaf around front back token
  cases terminal with
  | operator position =>
    simp only [itemsAt, h.leaf, Tree.leafItems, around.symbol]
    simp
  | openParen =>
    simp only [itemsAt, h.leaf, Tree.leafItems, ← opened]
    simp
  | _ => simp [itemsAt, h.leaf, Tree.leafItems]

mutual

/-- The items of the leaves below a node are those of its tree. -/
theorem itemsOf_tree {t : Derivation} {table : OperatorTable} {parent : Option Nat}
    {above : Option Tree} {id : Nat} (front back : List Token)
    (around : t.Above table parent above) :
    (tree : Tree) → tree.Grammatical table → t.Holds parent id front.length tree →
      t.itemsOf table (front ++ tree.tokens ++ back) (tree.leaves id) = tree.items table above front
  | .leaf terminal token, _, h => by
    rw [Tree.leaves, itemsOf_singleton, Tree.tokens, List.append_assoc, List.singleton_append]
    exact itemsAt_leaf h around
  | .node rule children, grammatical, h => by
    have inside : t.Above table (some id) (some (.node rule children)) :=
      ⟨.inr grammatical, parent, front.length, h⟩
    exact itemsOf_trees front back inside children grammatical.2 h.below

theorem itemsOf_trees {t : Derivation} {table : OperatorTable} {parent : Option Nat}
    {above : Option Tree} {id : Nat} (front back : List Token)
    (around : t.Above table parent above) :
    (trees : List Tree) → Tree.AllGrammatical table trees →
      t.HoldsAll parent id front.length trees →
      t.itemsOf table (front ++ Tree.tokensAll trees ++ back) (Tree.leavesAll id trees) =
        Tree.itemsAll table above front trees
  | [], _, _ => rfl
  | c :: cs, grammatical, h => by
    obtain ⟨first, later⟩ := h.cons
    have hc := itemsOf_tree front (Tree.tokensAll cs ++ back) around c grammatical.1 first
    rw [← List.length_append] at later
    have hcs := itemsOf_trees (front ++ c.tokens) back around cs grammatical.2 later
    simp only [List.append_assoc] at hc hcs
    rw [Tree.leavesAll, itemsOf_append, Tree.tokensAll, List.append_assoc, List.append_assoc, hc,
      hcs]
    rfl

end

section Whole

variable {t : Derivation} {tree : Tree} (nodes : t.nodes.toList = tree.nodes none 0 0)

include nodes

theorem holds_root : t.Holds none 0 0 tree := by
  rw [Holds, nodes, List.drop_zero]

theorem size_eq : t.size = tree.size := by
  have grown := congrArg List.length nodes
  rwa [Tree.length_nodes, Array.length_toList] at grown

/-- The terminals of a derivation are the leaves of its tree. -/
theorem terminals_eq : t.terminals = tree.leaves 0 := by
  have present : t.size ≠ 0 := by
    rw [size_eq nodes]
    cases tree <;> exact Nat.succ_ne_zero _
  have walked := walk_tree [] tree (holds_root nodes)
  rw [walk, List.append_nil] at walked
  rw [terminals, root?, if_neg present]
  exact walked

end Whole

/-- The items of a derivation are those of the line whose nodes it holds. -/
theorem items_eq {t : Derivation} {table : OperatorTable} {children : List Tree}
    (nodes : t.nodes.toList = (Tree.node .line children).nodes none 0 0)
    (grammatical : Tree.AllGrammatical table children) :
    t.items table (Tree.tokensAll children) = (Tree.node .line children).items table none [] := by
  have held := holds_root nodes
  have visited : t.terminals = Tree.leavesAll 1 children := terminals_eq nodes
  have outermost : t.Above table (some 0) (some (.node .line children)) :=
    ⟨.inl rfl, none, 0, held⟩
  have found := itemsOf_trees [] [] outermost children grammatical held.below
  rw [List.nil_append, List.append_nil] at found
  rw [items, visited]
  exact found

end Derivation

end Calculator
