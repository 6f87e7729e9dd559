import Calculator.Grammar

namespace Calculator

/-- A symbol with the range of tokens it covers. -/
structure Node where
  symbol : Symbol
  start : Nat
  stop : Nat
  children : List Nat
  parent : Option Nat
  token : Option Nat
deriving DecidableEq, Repr

namespace Node

def fresh (symbol : Symbol) (start : Nat) (parent : Option Nat) : Node :=
  ⟨symbol, start, start, [], parent, none⟩

def adopt (child : Nat) (node : Node) : Node := { node with children := node.children ++ [child] }

/-- Gives a node the only token that it covers. -/
def bind (token : Nat) (node : Node) : Node := { node with token := some token, stop := token + 1 }

def close (stop : Nat) (node : Node) : Node := { node with stop := stop }

end Node

/-- Children come after their parent, in order, and are there. -/
def Ascending (nodes : Array Node) : Prop :=
  ∀ (i : Nat) (node : Node), nodes[i]? = some node →
    (i :: node.children).Pairwise (· < ·) ∧ ∀ c ∈ node.children, c < nodes.size

namespace Ascending

theorem empty : Ascending #[] := by
  intro i node h
  simp at h

theorem push {nodes : Array Node} (h : Ascending nodes) (symbol : Symbol) (start : Nat)
    (parent : Option Nat) : Ascending (nodes.push (.fresh symbol start parent)) := by
  intro i node hi
  rw [Array.getElem?_push] at hi
  split at hi
  · cases hi
    simp [Node.fresh]
  · obtain ⟨ordered, present⟩ := h i node hi
    refine ⟨ordered, fun c hc => ?_⟩
    have := present c hc
    simp only [Array.size_push]
    omega

/-- Nodes may change as long as their children stay, or gain one that comes after all others. -/
theorem modify {nodes : Array Node} (h : Ascending nodes) (f : Node → Node)
    (kept : ∀ node, (f node).children = node.children) (i : Nat) :
    Ascending (nodes.modify i f) := by
  intro j node hj
  rw [Array.getElem?_modify] at hj
  split at hj
  · obtain ⟨old, ho, rfl⟩ := Option.map_eq_some_iff.mp hj
    rw [kept, Array.size_modify]
    exact h j old ho
  · rw [Array.size_modify]
    exact h j node hj

end Ascending

/-- A node may adopt the node that was added last. -/
theorem Ascending.adopt {nodes : Array Node} {fresh : Node} (h : Ascending nodes)
    (childless : fresh.children = []) (parent : Nat) :
    Ascending ((nodes.modify parent (Node.adopt nodes.size)).push fresh) := by
  intro j node hj
  simp only [Array.size_push, Array.size_modify]
  rw [Array.getElem?_push, Array.size_modify] at hj
  split at hj
  · cases hj
    simp [childless]
  · rw [Array.getElem?_modify] at hj
    split at hj
    · obtain ⟨old, ho, rfl⟩ := Option.map_eq_some_iff.mp hj
      obtain ⟨ordered, present⟩ := h j old ho
      have hj : j < nodes.size := (Array.getElem?_eq_some_iff.mp ho).1
      constructor
      · change ((j :: old.children) ++ [nodes.size]).Pairwise (· < ·)
        refine List.pairwise_append.mpr ⟨ordered, by simp, ?_⟩
        intro a ha b hb
        rw [List.mem_singleton.mp hb]
        rcases List.mem_cons.mp ha with rfl | ha
        · exact hj
        · exact present a ha
      · intro c hc
        rcases List.mem_append.mp hc with hc | hc
        · have := present c hc
          omega
        · rw [List.mem_singleton.mp hc]
          omega
    · obtain ⟨ordered, present⟩ := h j node hj
      refine ⟨ordered, fun c hc => ?_⟩
      have := present c hc
      omega

/-- The nodes name each other by their places in the array. -/
structure Derivation where
  nodes : Array Node
  ascending : Ascending nodes

namespace Derivation

def empty : Derivation := ⟨#[], .empty⟩

def size (t : Derivation) : Nat := t.nodes.size

/-- Adds a node below its parent; its index is the size before. -/
def push (t : Derivation) (symbol : Symbol) (start : Nat) (parent : Option Nat) : Derivation :=
  match parent with
  | none => ⟨t.nodes.push (.fresh symbol start none), t.ascending.push symbol start none⟩
  | some p =>
    ⟨(t.nodes.modify p (Node.adopt t.nodes.size)).push (.fresh symbol start (some p)),
      t.ascending.adopt rfl p⟩

def bind (t : Derivation) (id token : Nat) : Derivation :=
  ⟨t.nodes.modify id (Node.bind token), t.ascending.modify (Node.bind token) (fun _ => rfl) id⟩

def close (t : Derivation) (id stop : Nat) : Derivation :=
  ⟨t.nodes.modify id (Node.close stop), t.ascending.modify (Node.close stop) (fun _ => rfl) id⟩

def root? (t : Derivation) : Option Nat := if t.size = 0 then none else some 0

def parent? (t : Derivation) (id : Nat) : Option Nat := t.nodes[id]?.bind Node.parent

def symbol? (t : Derivation) (id : Nat) : Option Symbol := t.nodes[id]?.map Node.symbol

def children (t : Derivation) (id : Nat) : List Nat := (t.nodes[id]?.map Node.children).getD []

/-- The first child that has the symbol of a rule. -/
def child? (t : Derivation) (id : Nat) (symbol : Symbol) : Option Nat :=
  (t.children id).find? fun c => t.symbol? c = some symbol

theorem lt_of_mem_children {t : Derivation} {id c : Nat} (h : c ∈ t.children id) :
    id < c ∧ c < t.size := by
  unfold children at h
  cases hn : t.nodes[id]? with
  | none => simp [hn] at h
  | some node =>
    simp only [hn, Option.map_some, Option.getD_some] at h
    obtain ⟨ordered, present⟩ := t.ascending id node hn
    exact ⟨(List.pairwise_cons.mp ordered).1 c h, present c h⟩

theorem lt_of_child? {t : Derivation} {id c : Nat} {symbol : Symbol}
    (h : t.child? id symbol = some c) : id < c ∧ c < t.size :=
  lt_of_mem_children (List.mem_of_find?_eq_some h)

theorem pairwise_children (t : Derivation) (id : Nat) : (id :: t.children id).Pairwise (· < ·) := by
  unfold children
  cases hn : t.nodes[id]? with
  | none => simp
  | some node => exact (t.ascending id node hn).1

/-- What a pending node may still cost: more than all of its children together. -/
def weight (t : Derivation) (id : Nat) : Nat := Nat.pow 2 (t.size - id)

def load (t : Derivation) : List Nat → Nat
  | [] => 0
  | id :: pending => t.weight id + t.load pending

theorem load_lt_weight {t : Derivation} {id : Nat} {cs : List Nat}
    (ordered : (id :: cs).Pairwise (· < ·)) (present : ∀ c ∈ cs, c < t.size) :
    t.load cs < t.weight id := by
  induction cs generalizing id with
  | nil => exact Nat.pow_pos (by decide)
  | cons c cs ih =>
    have hc : id < c := (List.pairwise_cons.mp ordered).1 c (by simp)
    have hsize : c < t.size := present c (by simp)
    have rest := ih (List.pairwise_cons.mp ordered).2 fun d hd => present d (by simp [hd])
    have double : Nat.pow 2 (t.size - c + 1) ≤ Nat.pow 2 (t.size - id) :=
      Nat.pow_le_pow_right (by decide) (by omega)
    have : Nat.pow 2 (t.size - c + 1) = Nat.pow 2 (t.size - c) * 2 := rfl
    simp only [load, weight] at rest ⊢
    omega

theorem load_append (t : Derivation) (xs ys : List Nat) :
    t.load (xs ++ ys) = t.load xs + t.load ys := by
  induction xs with
  | nil => simp [load]
  | cons id xs ih => simp [load, ih, Nat.add_assoc]

theorem load_children_lt (t : Derivation) (id : Nat) : t.load (t.children id) < t.weight id :=
  load_lt_weight (t.pairwise_children id) fun _ hc => (lt_of_mem_children hc).2

/-- The terminals that the pending nodes lead to through rules, from left to right. -/
def walk (t : Derivation) (pending : List Nat) : List Nat :=
  match pending with
  | [] => []
  | id :: pending =>
    if (t.symbol? id).any Symbol.isTerminal then id :: t.walk pending
    else t.walk (t.children id ++ pending)
termination_by t.load pending
decreasing_by
  · have : 0 < t.weight id := Nat.pow_pos (by decide)
    simp only [load]
    omega
  · have := t.load_children_lt id
    simp only [load, load_append]
    omega

/-- The terminals below the first node. -/
def terminals (t : Derivation) : List Nat := t.walk t.root?.toList

end Derivation

end Calculator
