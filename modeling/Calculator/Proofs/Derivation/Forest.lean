import Calculator.Proofs.Derivation.Calls
import Calculator.Proofs.Derivation.Items
import Calculator.Proofs.Loop
import Mathlib.Data.List.Nodup
import Mathlib.Data.List.Perm.Subperm
import Mathlib.Logic.Relation

namespace Calculator

namespace Derivation

def isTerminal (t : Derivation) (id : ℕ) : Bool := (t.symbol? id).any Symbol.isTerminal

/-- A node leads to its children unless it is a terminal. -/
def Through (t : Derivation) (id c : ℕ) : Prop := t.isTerminal id = false ∧ c ∈ t.children id

/-- The nodes that a walk from a node meets, each before those below it. -/
def met (t : Derivation) (id : ℕ) : List ℕ :=
  id :: if t.isTerminal id then [] else (t.children id).attach.flatMap fun ⟨c, _⟩ => t.met c
termination_by t.size - id
decreasing_by
  have := lt_of_mem_children ‹_›
  omega

/-- The terminals at or below a node, not below other terminals, from left to right. -/
def terminalsBelow (t : Derivation) (id : ℕ) : List ℕ :=
  if t.isTerminal id then [id] else (t.children id).attach.flatMap fun ⟨c, _⟩ => t.terminalsBelow c
termination_by t.size - id
decreasing_by
  have := lt_of_mem_children ‹_›
  omega

section Walks

variable {t : Derivation} {id : ℕ}

/-- What holds of a node when it holds of its children holds of every node. -/
theorem induction_children {P : ℕ → Prop} (step : ∀ id, (∀ c ∈ t.children id, P c) → P id)
    (id : ℕ) : P id :=
  step id fun c h =>
    have := lt_of_mem_children h
    induction_children step c
termination_by t.size - id

theorem met_terminal (h : t.isTerminal id = true) : t.met id = [id] := by
  rw [met, if_pos h]

theorem met_rule (h : t.isTerminal id = false) :
    t.met id = id :: (t.children id).flatMap t.met := by
  rw [met, if_neg (by simp [h])]
  simp

theorem terminalsBelow_terminal (h : t.isTerminal id = true) : t.terminalsBelow id = [id] := by
  rw [terminalsBelow, if_pos h]

theorem terminalsBelow_rule (h : t.isTerminal id = false) :
    t.terminalsBelow id = (t.children id).flatMap t.terminalsBelow := by
  rw [terminalsBelow, if_neg (by simp [h])]
  simp

theorem le_of_through {x : ℕ} (h : Relation.ReflTransGen t.Through id x) : id ≤ x := by
  induction h with
  | refl => exact le_rfl
  | tail _ step ih => exact ih.trans (lt_of_mem_children step.2).1.le

theorem mem_met {x : ℕ} : x ∈ t.met id ↔ Relation.ReflTransGen t.Through id x := by
  induction id using induction_children (t := t) with
  | step id ih =>
    rw [Relation.ReflTransGen.cases_head_iff]
    cases terminal : t.isTerminal id with
    | true => simp [met_terminal terminal, Through, terminal, eq_comm]
    | false =>
      rw [met_rule terminal, List.mem_cons, List.mem_flatMap, eq_comm]
      refine or_congr_right (exists_congr fun c => ?_)
      simp only [Through, terminal, true_and]
      exact and_congr_right (ih c)

theorem filter_met : (t.met id).filter t.isTerminal = t.terminalsBelow id := by
  induction id using induction_children (t := t) with
  | step id ih =>
    cases terminal : t.isTerminal id with
    | true => simp [met_terminal terminal, terminalsBelow_terminal terminal, terminal]
    | false =>
      rw [met_rule terminal, terminalsBelow_rule terminal,
        List.filter_cons_of_neg (by simp [terminal]), List.filter_flatMap]
      exact List.flatMap_congr ih

theorem mem_terminalsBelow {x : ℕ} : x ∈ t.terminalsBelow id ↔
    t.isTerminal x = true ∧ Relation.ReflTransGen t.Through id x := by
  rw [← filter_met, List.mem_filter, mem_met, and_comm]

theorem walk_eq (pending : List ℕ) : t.walk pending = pending.flatMap t.terminalsBelow := by
  induction pending using walk.induct t with
  | case1 => rw [walk]; rfl
  | case2 id pending terminal ih =>
    rw [walk, if_pos terminal, ih, List.flatMap_cons, terminalsBelow_terminal terminal]
    rfl
  | case3 id pending rule ih =>
    rw [walk, if_neg rule, ih, List.flatMap_append, List.flatMap_cons,
      terminalsBelow_rule (Bool.eq_false_iff.mpr rule)]

/-- Without nodes nothing is at or below the first. -/
theorem terminals_eq_below (t : Derivation) : t.terminals = t.terminalsBelow 0 := by
  rw [terminals, walk_eq, root?]
  split
  next empty =>
    have absent : t.nodes[0]? = none := Array.getElem?_eq_none empty.le
    have rule : t.isTerminal 0 = false := by simp [isTerminal, symbol?, absent]
    rw [terminalsBelow_rule rule, children_of_size_le empty.le]
    rfl
  next => simp

theorem lt_size_of_mem_met {x : ℕ} (there : id < t.size) (h : x ∈ t.met id) : x < t.size := by
  rcases Relation.ReflTransGen.cases_tail (mem_met.mp h) with rfl | ⟨p, -, step⟩
  · exact there
  · exact (lt_of_mem_children step.2).2

end Walks

namespace Linked

variable {t : Derivation} (h : t.Linked)

include h

theorem through_unique {a b x : ℕ} (first : t.Through a x) (second : t.Through b x) : a = b := by
  have same := (h.mem_children.mp first.2).symm.trans (h.mem_children.mp second.2)
  exact Option.some.inj same

/-- Of two nodes on the way to a third one leads to the other. -/
theorem through_total {a b x : ℕ} (first : Relation.ReflTransGen t.Through a x)
    (second : Relation.ReflTransGen t.Through b x) :
    Relation.ReflTransGen t.Through a b ∨ Relation.ReflTransGen t.Through b a := by
  have unique : Relator.RightUnique (Function.swap t.Through) := fun _ _ _ => h.through_unique
  have total := Relation.ReflTransGen.total_of_right_unique unique first.swap second.swap
  exact total.symm.imp Relation.reflTransGen_swap.mp Relation.reflTransGen_swap.mp

theorem siblings_apart {id a b : ℕ} (first : a ∈ t.children id) (second : b ∈ t.children id)
    (path : Relation.ReflTransGen t.Through a b) : a = b := by
  rcases Relation.ReflTransGen.cases_tail path with same | ⟨p, before, step⟩
  · exact same.symm
  · have above : p = id := Option.some.inj
      ((h.mem_children.mp step.2).symm.trans (h.mem_children.mp second))
    have := le_of_through before
    have := (lt_of_mem_children first).1
    omega

theorem disjoint_met {id a b : ℕ} (first : a ∈ t.children id) (second : b ∈ t.children id)
    (apart : a ≠ b) : List.Disjoint (t.met a) (t.met b) := by
  intro x below below'
  rcases h.through_total (mem_met.mp below) (mem_met.mp below') with path | path
  · exact apart (h.siblings_apart first second path)
  · exact apart (h.siblings_apart second first path).symm

/-- A walk meets no node twice. -/
theorem nodup_met (id : ℕ) : (t.met id).Nodup := by
  induction id using induction_children (t := t) with
  | step id ih =>
    cases terminal : t.isTerminal id with
    | true =>
      rw [met_terminal terminal]
      exact List.nodup_singleton id
    | false =>
      rw [met_rule terminal]
      refine List.nodup_cons.mpr ⟨fun below => ?_, List.nodup_flatMap.mpr ⟨ih, ?_⟩⟩
      · obtain ⟨c, child, below⟩ := List.mem_flatMap.mp below
        have := le_of_through (mem_met.mp below)
        have := (lt_of_mem_children child).1
        omega
      · have ordered := (List.pairwise_cons.mp (t.pairwise_children id)).2
        exact ordered.imp_of_mem fun first second less => h.disjoint_met first second less.ne

theorem nodup_terminals : t.terminals.Nodup := by
  rw [terminals_eq_below, ← filter_met]
  exact (h.nodup_met 0).filter _

theorem length_met_le {id : ℕ} (there : id < t.size) : (t.met id).length ≤ t.size := by
  have inside : t.met id ⊆ List.range t.size := fun x below =>
    List.mem_range.mpr (lt_size_of_mem_met there below)
  have bound := ((h.nodup_met id).subperm inside).length_le
  rwa [List.length_range] at bound

end Linked

/-- A walk to the terminals: those that it has found and the nodes it has yet to meet. -/
structure Walk where
  found : List ℕ
  pending : List ℕ

namespace Walk

def start (t : Derivation) : Walk := ⟨[], t.root?.toList⟩

/-- Meets the next node. -/
def pass (t : Derivation) : Walk → Walk ⊕ List ℕ
  | ⟨found, []⟩ => .inr found
  | ⟨found, id :: pending⟩ =>
    if t.isTerminal id then .inl ⟨found ++ [id], pending⟩
    else .inl ⟨found, t.children id ++ pending⟩

def outcome (t : Derivation) (w : Walk) : List ℕ := w.found ++ t.walk w.pending

def cost (t : Derivation) (w : Walk) : ℕ := (w.pending.flatMap t.met).length

theorem respects_pass (t : Derivation) : Loop.Respects (pass t) (outcome t) (cost t) := by
  rintro ⟨found, pending⟩
  cases pending with
  | nil => simp [pass, outcome, walk_eq]
  | cons id pending =>
    cases terminal : t.isTerminal id with
    | true => simp [pass, outcome, cost, walk_eq, terminal, terminalsBelow_terminal, met_terminal]
    | false => simp [pass, outcome, cost, walk_eq, terminal, terminalsBelow_rule, met_rule]

theorem cost_start_le {t : Derivation} (h : t.Linked) : cost t (start t) ≤ t.size := by
  rw [cost, start, root?]
  split
  next empty => exact Nat.zero_le _
  next filled =>
    have bound := h.length_met_le (Nat.pos_of_ne_zero filled)
    simpa using bound

end Walk

/-- A count of arguments: before those of a call, or behind so many, with the tail that follows. -/
inductive Count where
  | call (id : ℕ)
  | behind (counted : ℕ) (tail : Option ℕ)

namespace Count

/-- Goes to the arguments of a call, or to the next argument of a tail. -/
def pass (t : Derivation) : Count → Count ⊕ Except ℕ ℕ
  | .call id =>
    match t.child? id (.rule .firstArgument) with
    | none => .inr (.ok 0)
    | some first =>
      if (t.children first).isEmpty then .inr (.ok 0)
      else .inl (.behind 1 (t.child? first (.rule .argumentTail)))
  | .behind counted none => .inr (.ok counted)
  | .behind counted (some tail) =>
    match t.child? tail (.rule .nextArgument) with
    | none => .inr (.ok counted)
    | some argument =>
      if (t.children argument).isEmpty then .inr (.error (counted + 1))
      else .inl (.behind (counted + 1) (t.child? argument (.rule .argumentTail)))

def outcome (t : Derivation) : Count → Except ℕ ℕ
  | .call id => t.countArguments id
  | .behind counted none => .ok counted
  | .behind counted (some tail) => t.countFrom counted tail

def cost (t : Derivation) : Count → ℕ
  | .call id => t.size - id
  | .behind _ none => 0
  | .behind _ (some tail) => t.size - tail

/-- What stands behind a node costs less than the node. -/
theorem cost_tail_lt {t : Derivation} {id c : ℕ} {s : Symbol} (found : t.child? id s = some c)
    (counted : ℕ) (s' : Symbol) : cost t (.behind counted (t.child? c s')) < t.size - id := by
  have := lt_of_child? found
  cases later : t.child? c s' with
  | none => simp only [cost]; omega
  | some tail =>
    have := lt_of_child? later
    simp only [cost]
    omega

theorem outcome_call {t : Derivation} {id first : ℕ}
    (found : t.child? id (.rule .firstArgument) = some first) (filled : t.children first ≠ []) :
    t.countArguments id = outcome t (.behind 1 (t.child? first (.rule .argumentTail))) := by
  simp only [countArguments, found, List.isEmpty_iff, if_neg filled]
  cases t.child? first (.rule .argumentTail) <;> rfl

theorem outcome_behind {t : Derivation} {counted tail argument : ℕ}
    (found : t.child? tail (.rule .nextArgument) = some argument)
    (filled : t.children argument ≠ []) :
    t.countFrom counted tail =
      outcome t (.behind (counted + 1) (t.child? argument (.rule .argumentTail))) := by
  cases later : t.child? argument (.rule .argumentTail) with
  | none => exact countFrom_last found filled later
  | some tail' => exact countFrom_next found filled later

theorem respects_pass (t : Derivation) : Loop.Respects (pass t) (outcome t) (cost t) := by
  intro c
  match c with
  | .call id =>
    cases found : t.child? id (.rule .firstArgument) with
    | none => simp [pass, outcome, countArguments, found]
    | some first =>
      by_cases filled : t.children first = []
      · simp [pass, outcome, countArguments, found, filled]
      · simp only [pass, found, List.isEmpty_iff, if_neg filled]
        exact ⟨(outcome_call found filled).symm, cost_tail_lt found 1 _⟩
  | .behind counted none => rfl
  | .behind counted (some tail) =>
    cases found : t.child? tail (.rule .nextArgument) with
    | none =>
      simp only [pass, found]
      exact countFrom_end found
    | some argument =>
      by_cases bare : t.children argument = []
      · simp only [pass, found, List.isEmpty_iff, if_pos bare]
        exact countFrom_open found bare
      · simp only [pass, found, List.isEmpty_iff, if_neg bare]
        exact ⟨(outcome_behind found bare).symm, cost_tail_lt found (counted + 1) _⟩

end Count

/-- Whatever calls have built a derivation, as long as they name nodes that were handed out, it is a
forest: a node is among the children of another exactly if that is its parent, once and in order.
The walk to the terminals ends and finds those that the first node leads to, each once, in the order
of the walk that calls itself. The count of the arguments below any node ends. -/
theorem run_forest (calls : List Call) (allowed : Arena.empty.Allows calls) :
    let t := (Arena.empty.run calls).tree
    (∀ id c, c ∈ t.children id ↔ t.parent? c = some id) ∧
      (∀ id, (t.children id).Pairwise (· < ·)) ∧
      Loop.within (Walk.pass t) (t.size + 1) (.start t) = some t.terminals ∧
      t.terminals = t.terminalsBelow 0 ∧
      t.terminals.Nodup ∧
      (∀ id, id ∈ t.terminals ↔
        t.isTerminal id = true ∧ Relation.ReflTransGen t.Through 0 id) ∧
      ∀ id, Loop.within (Count.pass t) (t.size + 1) (.call id) = some (t.countArguments id) := by
  intro t
  have linked : t.Linked := (Arena.sound_empty.run allowed).linked
  refine ⟨fun id c => linked.mem_children, fun id => (t.pairwise_children id).tail,
    Loop.within_of_respects (Walk.respects_pass t) (Nat.lt_succ_of_le (Walk.cost_start_le linked)),
    t.terminals_eq_below, linked.nodup_terminals, fun id => ?_,
    fun id => Loop.within_of_respects (Count.respects_pass t) (Nat.lt_succ_of_le (Nat.sub_le _ _))⟩
  rw [terminals_eq_below, mem_terminalsBelow]

/-- Two first nodes in turns, with a node below a terminal and one below the second of them. -/
def scattered : List Call :=
  [.push (.rule .line) 0 none, .push (.terminal .value) 0 (some 0), .bind 1 0,
    .push (.terminal .comma) 1 (some 1), .push (.rule .expression) 1 none,
    .push (.rule .trailer) 1 (some 0), .push (.terminal .value) 1 (some 3),
    .push (.terminal .closeParen) 1 (some 4), .close 4 2]

/-- The walk does not look below a terminal, and not below the second of the first nodes. -/
theorem run_forest_scattered : Arena.empty.Allows scattered ∧
    (Arena.empty.run scattered).tree.terminals = [1, 6] := by
  have allowed : Arena.empty.Allows scattered := by decide
  obtain ⟨-, -, walked, -⟩ := run_forest scattered allowed
  have found : let t := (Arena.empty.run scattered).tree
      Loop.within (Walk.pass t) (t.size + 1) (.start t) = some [1, 6] := by decide
  exact ⟨allowed, Option.some.inj (walked.symm.trans found)⟩

end Derivation

end Calculator
