import Calculator.Item.Postfix
import Calculator.Proofs.Except
import Mathlib.Algebra.BigOperators.Group.List.Basic
import Mathlib.Algebra.Ring.Int.Defs

namespace Calculator.Item

/-- How an item changes the number of openings that are open. -/
def rise : Item → Int
  | .openParen | .call _ => 1
  | .closeParen => -1
  | _ => 0

/-- How many openings are open behind these items, if there have been enough to close. -/
def height (items : List Item) : Int := (items.map rise).sum

/-- Behind this many openings, closing parentheses and commas come only while something is open, and
nothing is open at the end. -/
structure BalancedFrom (outer : Int) (items : List Item) : Prop where
  enclosed : ∀ front item behind, items = front ++ item :: behind →
    item = .closeParen ∨ item = .comma → 0 < outer + height front
  closed : outer + height items = 0

abbrev Balanced (items : List Item) : Prop := BalancedFrom 0 items

@[simp] theorem height_nil : height [] = 0 := rfl

@[simp] theorem height_cons (item : Item) (rest : List Item) :
    height (item :: rest) = item.rise + height rest :=
  List.sum_cons

theorem height_append (xs ys : List Item) : height (xs ++ ys) = height xs + height ys := by
  simp [height]

theorem balancedFrom_cons {outer : Int} {item : Item} {rest : List Item} :
    BalancedFrom outer (item :: rest) ↔
      (item = .closeParen ∨ item = .comma → 0 < outer) ∧
        BalancedFrom (outer + item.rise) rest := by
  constructor
  · intro h
    refine ⟨fun divides => ?_, ⟨?_, ?_⟩⟩
    · simpa using h.enclosed [] item rest rfl divides
    · intro front x behind split divides
      have inside := h.enclosed (item :: front) x behind (by rw [split]; rfl) divides
      rwa [height_cons, ← Int.add_assoc] at inside
    · have ends := h.closed
      rwa [height_cons, ← Int.add_assoc] at ends
  · rintro ⟨first, later⟩
    refine ⟨?_, ?_⟩
    · intro front x behind split divides
      cases front with
      | nil =>
        obtain ⟨rfl, -⟩ := List.cons.inj split
        simpa using first divides
      | cons y front =>
        obtain ⟨rfl, behindFirst⟩ := List.cons.inj split
        have inside := later.enclosed front x behind behindFirst divides
        rwa [height_cons, ← Int.add_assoc]
    · rw [height_cons, ← Int.add_assoc]
      exact later.closed

/-- An item that needs something open is refused where nothing is; any other step is taken, and
changes the number of openings as its item says. -/
theorem Waiting.step_cases (w : Waiting) (item : Item) :
    ((item = .closeParen ∨ item = .comma) ∧ w.outside = [] ∧ w.step item = .error .unbalanced) ∨
      (item = .closeParen ∨ item = .comma → 0 < w.outside.length) ∧
        ∃ out w', w.step item = .ok (out, w') ∧
          (w'.outside.length : Int) = w.outside.length + item.rise := by
  obtain ⟨operators, outside⟩ := w
  cases item with
  | closeParen =>
    cases outside with
    | nil => exact .inl ⟨.inl rfl, rfl, rfl⟩
    | cons o outside => exact .inr ⟨by simp, _, _, rfl, by simp [rise]⟩
  | comma =>
    cases outside with
    | nil => exact .inl ⟨.inr rfl, rfl, rfl⟩
    | cons o outside => exact .inr ⟨by simp, _, _, rfl, by simp [rise]⟩
  | openParen => exact .inr ⟨by simp, _, _, rfl, by simp [rise, opened]⟩
  | call arity => exact .inr ⟨by simp, _, _, rfl, by simp [rise, opened]⟩
  | _ => exact .inr ⟨by simp, _, _, rfl, by simp [rise]⟩

theorem reorder_of_balanced {w : Waiting} {items : List Item}
    (h : BalancedFrom w.outside.length items) : ∃ out, reorder w items = .ok out := by
  induction items generalizing w with
  | nil =>
    have none : w.outside = [] := by simpa using h.closed
    exact ⟨_, by rw [reorder, Waiting.finish, none]; rfl⟩
  | cons item rest ih =>
    obtain ⟨first, later⟩ := balancedFrom_cons.mp h
    rcases w.step_cases item with ⟨divides, none, -⟩ | ⟨-, out, w', stepped, level⟩
    · have some := first divides
      simp [none] at some
    · rw [← level] at later
      obtain ⟨rest, reordered⟩ := ih later
      exact ⟨out ++ rest, by simp [reorder, stepped, reordered]⟩

theorem reorder_of_not_balanced {w : Waiting} {items : List Item}
    (h : ¬ BalancedFrom w.outside.length items) : reorder w items = .error .unbalanced := by
  induction items generalizing w with
  | nil =>
    have unclosed : w.outside ≠ [] := by
      intro none
      exact h ⟨by simp, by simp [none]⟩
    rw [reorder, Waiting.finish, if_neg (by simpa using unclosed)]
  | cons item rest ih =>
    rcases w.step_cases item with ⟨-, -, refused⟩ | ⟨some, out, w', stepped, level⟩
    · rw [reorder, refused]
      rfl
    · have later : ¬ BalancedFrom w'.outside.length rest := by
        intro later
        rw [level] at later
        exact h (balancedFrom_cons.mpr ⟨fun divides => by simpa using some divides, later⟩)
      simp [reorder, stepped, ih later]

end Calculator.Item
