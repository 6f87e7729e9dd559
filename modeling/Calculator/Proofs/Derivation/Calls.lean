import Calculator.Proofs.Derivation.Building
import Mathlib.Data.List.Range
import Mathlib.Data.Nat.Notation

namespace Calculator

namespace Derivation

/-- The children of a node are those that it is the parent of, each once and in order. -/
def Linked (t : Derivation) : Prop :=
  ∀ id, t.children id = (List.range t.size).filter fun c => t.parent? c = some id

section Reading

variable {t : Derivation} {id : ℕ}

theorem lt_size_of_parent? {p : ℕ} (h : t.parent? id = some p) : id < t.size := by
  obtain ⟨node, there, -⟩ := Option.bind_eq_some_iff.mp h
  exact (Array.getElem?_eq_some_iff.mp there).1

theorem children_of_size_le (h : t.size ≤ id) : t.children id = [] := by
  rw [children, Array.getElem?_eq_none h]
  rfl

theorem Linked.mem_children (h : t.Linked) {c : ℕ} :
    c ∈ t.children id ↔ t.parent? c = some id := by
  rw [h id, List.mem_filter, List.mem_range, decide_eq_true_iff]
  exact and_iff_right_of_imp lt_size_of_parent?

end Reading

section Changing

variable (t : Derivation) (symbol : Symbol) (start : ℕ) {parent : Option ℕ} (id : ℕ)

theorem getElem?_push : (t.push symbol start parent).nodes[id]? =
    if id = t.size then some (.fresh symbol start parent)
    else if parent = some id then t.nodes[id]?.map (Node.adopt t.size)
    else t.nodes[id]? := by
  cases parent <;> simp [push, size, Array.getElem?_push, Array.getElem?_modify]

theorem parent?_push : (t.push symbol start parent).parent? id =
    if id = t.size then parent else t.parent? id := by
  unfold parent?
  rw [getElem?_push]
  split
  · rfl
  · split
    · cases t.nodes[id]? <;> rfl
    · rfl

/-- Only the parent gets another child, behind all that it has. -/
theorem children_push (there : ∀ p ∈ parent, p < t.size) :
    (t.push symbol start parent).children id =
      t.children id ++ if parent = some id then [t.size] else [] := by
  by_cases fresh : id = t.size
  · have other : parent ≠ some id := fun named => absurd (there id named) (by omega)
    rw [if_neg other, children_of_size_le fresh.ge, children, getElem?_push, if_pos fresh]
    rfl
  · unfold children
    rw [getElem?_push, if_neg fresh]
    split
    next named =>
      obtain ⟨node, present⟩ : ∃ node, t.nodes[id]? = some node :=
        ⟨_, Array.getElem?_eq_getElem (there id named)⟩
      rw [present]
      rfl
    next => rw [List.append_nil]

end Changing

/-- As many nodes, each with the same parent and the same children. -/
structure SameLinks (t t' : Derivation) : Prop where
  size : t'.size = t.size
  parent : ∀ id, t'.parent? id = t.parent? id
  children : ∀ id, t'.children id = t.children id

theorem SameLinks.of_modify {t t' : Derivation} {i : ℕ} {f : Node → Node}
    (changed : t'.nodes = t.nodes.modify i f) (parent : ∀ node, (f node).parent = node.parent)
    (children : ∀ node, (f node).children = node.children) : SameLinks t t' := by
  have node : ∀ id : ℕ, t'.nodes[id]? = t.nodes[id]? ∨ t'.nodes[id]? = t.nodes[id]?.map f := by
    intro id
    rw [changed, Array.getElem?_modify]
    split
    · exact .inr rfl
    · exact .inl rfl
  refine ⟨by rw [Derivation.size, changed, Array.size_modify, Derivation.size], ?_, ?_⟩
  · intro id
    rcases node id with same | same <;> rw [parent?, parent?, same]
    cases t.nodes[id]? with
    | none => rfl
    | some node => exact parent node
  · intro id
    rcases node id with same | same <;> rw [Derivation.children, Derivation.children, same]
    cases t.nodes[id]? with
    | none => rfl
    | some node => exact children node

theorem sameLinks_bind (t : Derivation) (id token : ℕ) : SameLinks t (t.bind id token) :=
  .of_modify rfl (fun _ => rfl) fun _ => rfl

theorem sameLinks_close (t : Derivation) (id stop : ℕ) : SameLinks t (t.close id stop) :=
  .of_modify rfl (fun _ => rfl) fun _ => rfl

namespace Linked

theorem empty : Linked .empty := fun _ => rfl

theorem of_sameLinks {t t' : Derivation} (h : t.Linked) (same : SameLinks t t') : t'.Linked := by
  intro id
  rw [same.children, same.size, h id]
  simp only [same.parent]

theorem push {t : Derivation} (h : t.Linked) (symbol : Symbol) (start : ℕ) {parent : Option ℕ}
    (there : ∀ p ∈ parent, p < t.size) : (t.push symbol start parent).Linked := by
  intro id
  have before : (List.range t.size).filter
      (fun c => (t.push symbol start parent).parent? c = some id) = t.children id := by
    rw [h id]
    apply List.filter_congr
    intro c there
    rw [parent?_push, if_neg (List.mem_range.mp there).ne]
  rw [children_push t symbol start id there, size_push, List.range_succ, List.filter_append, before]
  congr 1
  simp [List.filter_cons, parent?_push]

end Linked

/-- A call of one of the functions that change a derivation. -/
inductive Call where
  | push (symbol : Symbol) (start : ℕ) (parent : Option ℕ)
  | bind (id token : ℕ)
  | close (id stop : ℕ)

/-- The nodes that a call names. -/
def Call.named : Call → List ℕ
  | push _ _ parent => parent.toList
  | bind id _ => [id]
  | close id _ => [id]

/-- A derivation in the making, with the nodes that have been handed out. -/
structure Arena where
  tree : Derivation
  handed : List ℕ

namespace Arena

def empty : Arena := ⟨.empty, []⟩

/-- Adding a node hands it out. -/
def after (a : Arena) : Call → Arena
  | .push symbol start parent => ⟨a.tree.push symbol start parent, a.handed ++ [a.tree.size]⟩
  | .bind id token => { a with tree := a.tree.bind id token }
  | .close id stop => { a with tree := a.tree.close id stop }

def run (a : Arena) (calls : List Call) : Arena := calls.foldl after a

/-- Every call names only nodes that have been handed out before it. -/
def Allows (a : Arena) : List Call → Prop
  | [] => True
  | call :: calls => (∀ id ∈ call.named, id ∈ a.handed) ∧ (a.after call).Allows calls

instance decidableAllows : (a : Arena) → (calls : List Call) → Decidable (a.Allows calls)
  | _, [] => .isTrue trivial
  | a, call :: calls => @instDecidableAnd _ _ _ (decidableAllows (a.after call) calls)

/-- The nodes that have been handed out are there, and children and parents agree. -/
structure Sound (a : Arena) : Prop where
  present : ∀ id ∈ a.handed, id < a.tree.size
  linked : a.tree.Linked

theorem sound_empty : Sound .empty := ⟨fun _ h => absurd h List.not_mem_nil, .empty⟩

theorem Sound.of_sameLinks {a : Arena} {t : Derivation} (h : a.Sound) (same : SameLinks a.tree t) :
    Sound ⟨t, a.handed⟩ :=
  ⟨fun id handed => (h.present id handed).trans_eq same.size.symm, h.linked.of_sameLinks same⟩

theorem Sound.after {a : Arena} (h : a.Sound) {call : Call}
    (known : ∀ id ∈ call.named, id ∈ a.handed) : (a.after call).Sound := by
  cases call with
  | push symbol start parent =>
    have there : ∀ p ∈ parent, p < a.tree.size := fun p hp =>
      h.present p (known p (Option.mem_toList.mpr hp))
    refine ⟨fun id handed => ?_, h.linked.push symbol start there⟩
    rw [Arena.after, size_push]
    rcases List.mem_append.mp handed with earlier | new
    · exact Nat.lt_succ_of_lt (h.present id earlier)
    · exact Nat.lt_succ_of_le (List.mem_singleton.mp new).le
  | bind id token => exact h.of_sameLinks (sameLinks_bind a.tree id token)
  | close id stop => exact h.of_sameLinks (sameLinks_close a.tree id stop)

theorem Sound.run {a : Arena} (h : a.Sound) {calls : List Call} (allowed : a.Allows calls) :
    (a.run calls).Sound := by
  induction calls generalizing a with
  | nil => exact h
  | cons call calls ih => exact ih (h.after allowed.1) allowed.2

end Arena

end Derivation

end Calculator
