import Calculator.Proofs.Item.Balance
import Calculator.Proofs.Item.Waiting
import Mathlib.Data.List.TakeWhile

namespace Calculator.Item

/-- What an item does in a sequence. -/
inductive Role where
  | value
  | operator
  | call
  /-- Parentheses and commas, which have no place in postfix order. -/
  | punctuation
deriving DecidableEq

def role : Item → Role
  | .literal _ | .name _ => .value
  | .operator _ => .operator
  | .call _ => .call
  | .openParen | .closeParen | .comma => .punctuation

section Roles

@[simp] theorem role_literal (n : Number) : (literal n).role = .value := rfl

@[simp] theorem role_name (x : String) : (name x).role = .value := rfl

@[simp] theorem role_operator (d : Operator) : (operator d).role = .operator := rfl

@[simp] theorem role_call (arity : Nat) : (call arity).role = .call := rfl

@[simp] theorem role_openParen : openParen.role = .punctuation := rfl

@[simp] theorem role_closeParen : closeParen.role = .punctuation := rfl

@[simp] theorem role_comma : comma.role = .punctuation := rfl

end Roles

/-- Operators that wait and what is open, each with the place where it came. -/
structure Held where
  operators : List (Operator × Nat)
  outside : List ((Opening × Nat) × List (Operator × Nat))

namespace Held

def nothing : Held := ⟨[], []⟩

def waiting (h : Held) : Waiting :=
  ⟨h.operators.map Prod.fst, h.outside.map fun o => (o.1.1, o.2.map Prod.fst)⟩

def items (operators : List (Operator × Nat)) : List (Item × Nat) :=
  operators.map fun d => (.operator d.1, d.2)

def closed (opening : Opening × Nat) : List (Item × Nat) := opening.1.closed.map (·, opening.2)

/-- What may still be handed on without another item. -/
def pending (h : Held) : List (Item × Nat) :=
  items h.operators ++ h.outside.flatMap fun o => closed o.1 ++ items o.2

def opened (h : Held) (opening : Opening) (place : Nat) : Held :=
  ⟨[], ((opening, place), h.operators) :: h.outside⟩

/-- What is handed on when the item at a place comes, and what is held after it. -/
def step (h : Held) (place : Nat) (item : Item) : List (Item × Nat) × Held :=
  match item with
  | .literal _ | .name _ => ([(item, place)], h)
  | .operator d =>
    let leaving := h.operators.takeWhile (·.1.yieldsTo d)
    let staying := h.operators.dropWhile (·.1.yieldsTo d)
    (items leaving, ⟨(d, place) :: staying, h.outside⟩)
  | .openParen => ([], h.opened .group place)
  | .call arity => ([], h.opened (.call arity) place)
  | .comma => (items h.operators, ⟨[], h.outside⟩)
  | .closeParen =>
    match h.outside with
    | [] => ([], h)
    | (opening, operators) :: outside =>
      (items h.operators ++ closed opening, ⟨operators, outside⟩)

/-- All that is handed on of the items from a place on. -/
def order (h : Held) (place : Nat) : List Item → List (Item × Nat)
  | [] => items h.operators
  | item :: rest => (h.step place item).1 ++ (h.step place item).2.order (place + 1) rest

section Places

@[simp] theorem map_fst_items (operators : List (Operator × Nat)) :
    (items operators).map Prod.fst = (operators.map Prod.fst).map .operator := by
  simp [items]

@[simp] theorem map_fst_closed (opening : Opening × Nat) :
    (closed opening).map Prod.fst = opening.1.closed := by
  simp [closed, Function.comp_def]

/-- Reordering does not look at places. -/
theorem step_waiting {h : Held} {item : Item} {out : List Item} {w : Waiting} (place : Nat)
    (stepped : h.waiting.step item = .ok (out, w)) :
    (h.step place item).1.map Prod.fst = out ∧ (h.step place item).2.waiting = w := by
  obtain ⟨operators, outside⟩ := h
  cases item with
  | operator d =>
    cases stepped
    simp [step, waiting, List.takeWhile_map, List.dropWhile_map, Function.comp_def]
  | comma =>
    cases outside with
    | nil => cases stepped
    | cons o outside =>
      cases stepped
      simp [step, waiting]
  | closeParen =>
    cases outside with
    | nil => cases stepped
    | cons o outside =>
      cases stepped
      simp [step, waiting]
  | _ =>
    cases stepped
    exact ⟨rfl, rfl⟩

theorem reorder_waiting {h : Held} {items out : List Item} (place : Nat)
    (ordered : reorder h.waiting items = .ok out) : (h.order place items).map Prod.fst = out := by
  induction items generalizing h place out with
  | nil =>
    simp only [reorder, Waiting.finish] at ordered
    split at ordered
    · cases ordered
      simp [order, waiting]
    · cases ordered
  | cons item rest ih =>
    obtain ⟨first, w, later, stepped, reordered, rfl⟩ := reorder_ok_cons ordered
    obtain ⟨handed, held⟩ := step_waiting place stepped
    subst held
    rw [order, List.map_append, handed, ih (place + 1) reordered]

end Places

section Keeping

variable (h : Held) (place : Nat) (item : Item)

theorem isOperator_of_mem_items {operators : List (Operator × Nat)} {x : Item × Nat}
    (hx : x ∈ items operators) : ∃ d, x.1 = .operator d := by
  obtain ⟨d, -, rfl⟩ := List.mem_map.mp hx
  exact ⟨d.1, rfl⟩

/-- A step keeps what is held and the item, unless the item is punctuation. -/
theorem perm_step {item : Item} (enclosed : item = .closeParen → h.outside ≠ []) :
    ((h.step place item).1 ++ (h.step place item).2.pending).Perm
      (h.pending ++ [(item, place)].filter (·.1.role ≠ .punctuation)) := by
  obtain ⟨operators, outside⟩ := h
  cases item with
  | operator d =>
    have parts : items operators = items (operators.takeWhile (·.1.yieldsTo d)) ++
        items (operators.dropWhile (·.1.yieldsTo d)) := by
      rw [items, items, items, ← List.map_append, List.takeWhile_append_dropWhile]
    simp only [step, pending, parts, List.append_assoc]
    rw [← List.append_assoc (items (operators.dropWhile _))]
    exact (List.perm_append_singleton _ _).symm.append_left _
  | closeParen =>
    cases outside with
    | nil => exact absurd rfl (enclosed rfl)
    | cons o outside => simp [step, pending]
  | literal n => exact List.perm_append_comm
  | name x => exact List.perm_append_comm
  | openParen => simp [step, opened, pending, items, closed, Opening.closed]
  | comma => simp [step, pending, items]
  | call arity => exact (List.perm_append_singleton _ _).symm

theorem mem_step {item : Item} (enclosed : item = .closeParen → h.outside ≠ []) {x : Item × Nat}
    (hx : x ∈ (h.step place item).1 ++ (h.step place item).2.pending) :
    x ∈ h.pending ∨ x = (item, place) := by
  rcases List.mem_append.mp ((h.perm_step place enclosed).mem_iff.mp hx) with held | here
  · exact .inl held
  · exact .inr (List.mem_singleton.mp (List.mem_filter.mp here).1)

/-- What comes behind an item of a balanced sequence is balanced behind what is open then. -/
theorem balanced_step {item : Item} {rest : List Item}
    (balanced : BalancedFrom h.outside.length (item :: rest)) :
    (item = .closeParen → h.outside ≠ []) ∧
      BalancedFrom (h.step place item).2.outside.length rest := by
  obtain ⟨divides, later⟩ := balancedFrom_cons.mp balanced
  obtain ⟨operators, outside⟩ := h
  cases item with
  | closeParen =>
    cases outside with
    | nil => simp at divides
    | cons o outside => exact ⟨by simp, by simpa [step, rise] using later⟩
  | _ => exact ⟨by simp, by simpa [step, opened, rise] using later⟩

theorem perm_order {rest : List Item} (balanced : BalancedFrom h.outside.length rest) :
    (h.order place rest).Perm
      (h.pending ++ (rest.zipIdx place).filter (·.1.role ≠ .punctuation)) := by
  induction rest generalizing h place with
  | nil =>
    have none : h.outside = [] := by simpa using balanced.closed
    simp [order, pending, none]
  | cons item rest ih =>
    obtain ⟨enclosed, later⟩ := h.balanced_step place balanced
    have behind := (ih (h.step place item).2 (place + 1) later).append_left (h.step place item).1
    have here := (h.perm_step place enclosed).append_right
      ((rest.zipIdx (place + 1)).filter (·.1.role ≠ .punctuation))
    rw [← List.append_assoc] at behind
    rw [List.append_assoc h.pending, ← List.filter_append] at here
    exact behind.trans here

theorem filter_items (operators : List (Operator × Nat)) :
    (items operators).filter (·.1.role = .value) = [] := by
  rw [List.filter_eq_nil_iff]
  intro x hx
  obtain ⟨d, operator⟩ := isOperator_of_mem_items hx
  simp [operator]

theorem filter_step :
    (h.step place item).1.filter (·.1.role = .value) = [(item, place)].filter (·.1.role = .value) := by
  obtain ⟨operators, outside⟩ := h
  cases item with
  | closeParen =>
    cases outside with
    | nil => rfl
    | cons o outside =>
      obtain ⟨⟨opening, i⟩, outer⟩ := o
      rw [step, List.filter_append, filter_items]
      cases opening <;> rfl
  | operator d => exact filter_items _
  | comma => exact filter_items _
  | _ => rfl

/-- Values are handed on as they come. -/
theorem filter_order (rest : List Item) :
    (h.order place rest).filter (·.1.role = .value) = (rest.zipIdx place).filter (·.1.role = .value) := by
  induction rest generalizing h place with
  | nil => exact filter_items h.operators
  | cons item rest ih =>
    rw [order, List.filter_append, filter_step, ih, ← List.filter_append]
    rfl

end Keeping

end Held

end Calculator.Item
