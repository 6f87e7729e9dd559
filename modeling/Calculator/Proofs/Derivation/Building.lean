import Calculator.Proofs.Derivation.Tree
import Calculator.Proofs.Except

namespace Calculator

namespace Derivation

section Work

variable {table : OperatorTable} {t : Derivation} {place : Nat} {parent : Option Nat}
  {work : List Task} {tokens : List Token}

theorem build_done : build table t place [] [] = .ok t := by
  rw [build, settle]
  rfl

theorem build_left (token : Token) :
    build table t place [] (token :: tokens) = .error (.trailing token.text token.start) := by
  rw [build, settle]
  rfl

theorem build_close (id : Nat) :
    build table t place (.close id :: work) tokens =
      build table (t.close id place) place work tokens := by
  cases tokens <;> rw [build, build, settle]

theorem build_replace {rule : Rule} {body : List Symbol}
    (h : rule.body? (.of table tokens.head?) = some body) :
    build table t place (.expand (.rule rule) parent :: work) tokens =
      build table (t.push (.rule rule) place parent) place (Task.below t.size body work)
        tokens := by
  have settled : settle table tokens.head? place t (.expand (.rule rule) parent :: work) =
      settle table tokens.head? place (t.push (.rule rule) place parent)
        (Task.below t.size body work) := by
    rw [settle]
    split <;> simp_all
  cases tokens with
  | nil =>
    rw [List.head?_nil] at settled
    rw [build, build, settled]
  | cons token tokens =>
    rw [List.head?_cons] at settled
    rw [build, build, settled]

theorem build_refuse {rule : Rule} (h : rule.body? (.of table tokens.head?) = none) :
    build table t place (.expand (.rule rule) parent :: work) tokens =
      .error (rule.refusal tokens.head?) := by
  have settled : settle table tokens.head? place t (.expand (.rule rule) parent :: work) =
      .error (rule.refusal tokens.head?) := by
    rw [settle]
    split <;> simp_all
  cases tokens with
  | nil =>
    rw [List.head?_nil] at settled
    rw [build, settled]
    rfl
  | cons token tokens =>
    rw [List.head?_cons] at settled
    rw [build, settled]
    rfl

theorem build_take {terminal : Terminal} {token : Token}
    (h : terminal.accepts table token = true) :
    build table t place (.expand (.terminal terminal) parent :: work) (token :: tokens) =
      build table (t.take ⟨terminal, parent, work⟩ place) (place + 1) work tokens := by
  rw [build, settle]
  simp [h]

theorem build_mismatch {terminal : Terminal} {token : Token}
    (h : terminal.accepts table token = false) :
    build table t place (.expand (.terminal terminal) parent :: work) (token :: tokens) =
      .error (.misplacedToken token.text token.start) := by
  rw [build, settle]
  simp [h]

theorem build_missing (terminal : Terminal) :
    build table t place (.expand (.terminal terminal) parent :: work) [] =
      .error .unexpectedEnd := by
  rw [build, settle]
  simp

end Work

/-- The symbols that work still has to derive. -/
def Task.symbols : List Task → List Symbol
  | [] => []
  | .close _ :: work => symbols work
  | .expand symbol _ :: work => symbol :: symbols work

theorem Task.symbols_below (id : Nat) (body : List Symbol) (work : List Task) :
    symbols (below id body work) = body ++ symbols work := by
  induction body with
  | nil => rfl
  | cons s body ih => exact congrArg (s :: ·) ih

/-- Work that succeeds derives all tokens, each symbol by a predicted tree. -/
theorem exists_trees {table : OperatorTable} {t built : Derivation} {place : Nat} :
    {work : List Task} → {tokens : List Token} → build table t place work tokens = .ok built →
      ∃ trees : List Tree, trees.map Tree.symbol = Task.symbols work ∧
        Tree.AllPredicted table [] trees ∧ Tree.tokensAll trees = tokens
  | [], [], _ => ⟨[], rfl, trivial, rfl⟩
  | [], token :: _, h => by
    rw [build_left] at h
    cases h
  | .close id :: work, _, h => by
    rw [build_close] at h
    obtain ⟨trees, hs, hp⟩ := exists_trees h
    exact ⟨trees, hs, hp⟩
  | .expand (.terminal terminal) parent :: work, [], h => by
    rw [build_missing] at h
    cases h
  | .expand (.terminal terminal) parent :: work, token :: tokens, h => by
    cases ha : terminal.accepts table token with
    | false =>
      rw [build_mismatch ha] at h
      cases h
    | true =>
      rw [build_take ha] at h
      obtain ⟨trees, hs, hp, rfl⟩ := exists_trees h
      refine ⟨.leaf terminal token :: trees, ?_, ⟨ha, hp⟩, rfl⟩
      simp [Task.symbols, Tree.symbol, hs]
  | .expand (.rule rule) parent :: work, tokens, h => by
    cases hb : rule.body? (.of table tokens.head?) with
    | none =>
      rw [build_refuse hb] at h
      cases h
    | some body =>
      rw [build_replace hb] at h
      obtain ⟨trees, hs, hp, rfl⟩ := exists_trees h
      rw [Task.symbols_below] at hs
      obtain ⟨children, rest, rfl, rfl, hr⟩ := List.map_eq_append_iff.mp hs
      obtain ⟨hc, hrest⟩ := (Tree.allPredicted_append children rest).mp hp
      rw [Tree.tokensAll_append, List.append_nil] at *
      refine ⟨.node rule children :: rest, ?_, ⟨⟨?_, ?_⟩, hrest⟩, ?_⟩
      · simp [Task.symbols, Tree.symbol, hr]
      · simpa using hb
      · simpa using hc
      · simp [Tree.tokensAll, Tree.tokens]
termination_by work tokens => (tokens.length, Task.rank work)
decreasing_by
  · exact Prod.Lex.right _ (Nat.lt_succ_self _)
  · exact Prod.Lex.left _ _ (Nat.lt_succ_self _)
  · exact Prod.Lex.right _ (Task.rank_below_lt hb t.size parent work)

/-- Nodes after trees with these indices were added below one of them. -/
def adopting (parent : Option Nat) (ids : List Nat) (nodes : List Node) : List Node :=
  match parent with
  | none => nodes
  | some p => nodes.modify p fun node => { node with children := node.children ++ ids }

theorem modify_append {α : Type} {xs : List α} {i : Nat} (h : i < xs.length) (f : α → α)
    (ys : List α) : (xs ++ ys).modify i f = xs.modify i f ++ ys := by
  induction xs generalizing i with
  | nil => simp at h
  | cons x xs ih =>
    cases i with
    | zero => simp
    | succ i => simpa using ih (by simpa using h)

theorem modify_length {α : Type} (f : α → α) (xs ys : List α) (y : α) {i : Nat}
    (h : xs.length = i) : (xs ++ y :: ys).modify i f = xs ++ f y :: ys := by
  subst h
  induction xs with
  | nil => rfl
  | cons x xs ih => simpa using ih

@[simp] theorem length_adopting (parent : Option Nat) (ids : List Nat) (nodes : List Node) :
    (adopting parent ids nodes).length = nodes.length := by
  cases parent <;> simp [adopting]

theorem adopting_nil (parent : Option Nat) (nodes : List Node) :
    adopting parent [] nodes = nodes := by
  cases parent with
  | none => rfl
  | some p =>
    have same : (fun node : Node => { node with children := node.children ++ [] }) = id := by
      funext node
      simp
    simp only [adopting, same, List.modify_id]

theorem adopting_append {p : Nat} {nodes : List Node} (h : p < nodes.length) (xs ys : List Nat)
    (later : List Node) :
    adopting (some p) ys (adopting (some p) xs nodes ++ later) =
      adopting (some p) (xs ++ ys) nodes ++ later := by
  simp only [adopting]
  rw [modify_append (by simpa using h), List.modify_modify_eq]
  simp [Function.comp_def]

theorem adopting_last {nodes : List Node} {p : Nat} (h : nodes.length = p) (ids : List Nat)
    (node : Node) : adopting (some p) ids (nodes ++ [node]) =
      nodes ++ [{ node with children := node.children ++ ids }] :=
  modify_length _ nodes [] node h

theorem toList_push (t : Derivation) (symbol : Symbol) (place : Nat) (parent : Option Nat) :
    (t.push symbol place parent).nodes.toList =
      adopting parent [t.size] t.nodes.toList ++ [.fresh symbol place parent] := by
  cases parent with
  | none => simp [push, adopting]
  | some p =>
    simp only [push, Array.toList_push, Array.toList_modify]
    rfl

theorem size_push (t : Derivation) (symbol : Symbol) (place : Nat) (parent : Option Nat) :
    (t.push symbol place parent).size = t.size + 1 := by
  cases parent <;> simp [push, size]

theorem toList_close (t : Derivation) (id stop : Nat) :
    (t.close id stop).nodes.toList = t.nodes.toList.modify id (.close stop) := by
  simp [close]

theorem toList_take (t : Derivation) (due : Due) (place : Nat) :
    (t.take due place).nodes.toList = adopting due.parent [t.size] t.nodes.toList ++
      [⟨.terminal due.terminal, place, place + 1, [], due.parent, some place⟩] := by
  have h := toList_push t (.terminal due.terminal) place due.parent
  simp only [take, bind, Array.toList_modify, h]
  exact modify_length _ _ _ _ (by simp [size])

mutual

/-- A predicted tree is built node by node, and work goes on with the tokens behind it. -/
theorem build_tree {table : OperatorTable} {behind : List Token} (t : Derivation)
    (parent : Option Nat) (place : Nat) (work : List Task) :
    (tree : Tree) → tree.Predicted table behind →
      ∃ t' : Derivation,
        t'.nodes.toList =
          adopting parent [t.size] t.nodes.toList ++ tree.nodes parent t.size place ∧
        build table t place (.expand tree.symbol parent :: work) (tree.tokens ++ behind) =
          build table t' (place + tree.tokens.length) work behind
  | .leaf terminal token, h =>
    ⟨t.take ⟨terminal, parent, work⟩ place, toList_take t _ place, build_take h⟩
  | .node rule children, h => by
    have inside : t.size < (t.push (.rule rule) place parent).size := by
      rw [size_push]
      exact Nat.lt_succ_self _
    obtain ⟨t', hn, hb⟩ := build_trees (t.push (.rule rule) place parent) place
      (.close t.size :: work) inside children h.2
    refine ⟨t'.close t.size (place + (Tree.tokensAll children).length), ?_, ?_⟩
    · have last : (adopting parent [t.size] t.nodes.toList).length = t.size := by simp [size]
      rw [toList_close, hn, toList_push, size_push, adopting_last last, List.append_assoc,
        List.singleton_append, modify_length _ _ _ _ last]
      rfl
    · rw [Tree.symbol, Tree.tokens, build_replace h.1]
      simpa [Task.below, List.map_map, Function.comp_def] using hb.trans (build_close t.size)

theorem build_trees {table : OperatorTable} {behind : List Token} (t : Derivation) {p : Nat}
    (place : Nat) (work : List Task) (present : p < t.size) :
    (trees : List Tree) → Tree.AllPredicted table behind trees →
      ∃ t' : Derivation,
        t'.nodes.toList = adopting (some p) (Tree.places t.size trees) t.nodes.toList ++
          Tree.nodesAll (some p) t.size place trees ∧
        build table t place (trees.map (fun c => .expand c.symbol (some p)) ++ work)
            (Tree.tokensAll trees ++ behind) =
          build table t' (place + (Tree.tokensAll trees).length) work behind
  | [], _ => ⟨t, by simp [Tree.places, adopting_nil, Tree.nodesAll], rfl⟩
  | c :: cs, h => by
    obtain ⟨t₁, hn₁, hb₁⟩ := build_tree t (some p) place
      (cs.map (fun c => .expand c.symbol (some p)) ++ work) c h.1
    have grown : t₁.size = t.size + c.size := by
      have h := congrArg List.length hn₁
      simpa [size, Tree.length_nodes] using h
    obtain ⟨t₂, hn₂, hb₂⟩ := build_trees t₁ (place + c.tokens.length) work
      (show p < t₁.size by omega) cs h.2
    refine ⟨t₂, ?_, ?_⟩
    · rw [hn₂, hn₁, grown, adopting_append (by simpa [size] using present), Tree.places,
        Tree.nodesAll, List.append_assoc]
      rfl
    · rw [Tree.tokensAll, List.append_assoc, List.length_append, ← Nat.add_assoc, ← hb₂, ← hb₁]
      rfl

end

/-- The tokens of a predicted line are accepted. -/
theorem ofTokens_of_predicted {table : OperatorTable} {tree : Tree}
    (line : tree.symbol = .rule .line) (h : tree.Predicted table []) :
    ∃ built : Derivation, ofTokens table tree.tokens = .ok built ∧
      built.nodes.toList = tree.nodes none 0 0 := by
  obtain ⟨built, hn, hb⟩ := build_tree empty none 0 [] tree h
  rw [build_done, List.append_nil, line] at hb
  exact ⟨built, hb, hn⟩

/-- An accepted line has a predicted tree, whose nodes are the derivation. -/
theorem exists_predicted {table : OperatorTable} {tokens : List Token} {built : Derivation}
    (h : ofTokens table tokens = .ok built) :
    ∃ tree : Tree, tree.symbol = .rule .line ∧ tree.Predicted table [] ∧ tree.tokens = tokens ∧
      built.nodes.toList = tree.nodes none 0 0 := by
  obtain ⟨trees, hs, hp, hw⟩ := exists_trees h
  obtain ⟨tree, rest, rfl, line, hr⟩ := List.map_eq_cons_iff.mp hs
  obtain rfl := List.map_eq_nil_iff.mp hr
  simp only [Tree.AllPredicted, Tree.tokensAll, List.append_nil, and_true] at hp hw
  subst hw
  obtain ⟨built', hb, hn⟩ := ofTokens_of_predicted line hp
  obtain rfl : built = built' := Except.ok.inj (h.symm.trans hb)
  exact ⟨tree, line, hp, rfl, hn⟩

end Derivation

end Calculator
