import Calculator.Item.Postfix
import Calculator.Proofs.Except

namespace Calculator

namespace Item

namespace Waiting

/-- What is handed on while items come, and what waits after them. -/
def walk (w : Waiting) : List Item → Except ReadError (List Item × Waiting)
  | [] => .ok ([], w)
  | item :: rest => do
    let (out, w) ← w.step item
    let (later, w) ← w.walk rest
    return (out ++ later, w)

/-- Every operator that waits, inside the innermost opening or outside of it. -/
def all (w : Waiting) : List Operator := w.operators ++ w.outside.flatMap Prod.snd

@[simp] theorem walk_nil (w : Waiting) : w.walk [] = .ok ([], w) := rfl

theorem walk_cons {w w' w'' : Waiting} {item : Item} {rest out later : List Item}
    (first : w.step item = .ok (out, w')) (more : w'.walk rest = .ok (later, w'')) :
    w.walk (item :: rest) = .ok (out ++ later, w'') := by
  simp [walk, first, more]

theorem walk_append {w w' w'' : Waiting} {xs ys out later : List Item}
    (first : w.walk xs = .ok (out, w')) (more : w'.walk ys = .ok (later, w'')) :
    w.walk (xs ++ ys) = .ok (out ++ later, w'') := by
  induction xs generalizing w out with
  | nil =>
    cases first
    exact more
  | cons x xs ih =>
    obtain ⟨⟨now, w₁⟩, stepped, first⟩ := bind_eq_ok.mp first
    obtain ⟨⟨rest, w₂⟩, walked, first⟩ := bind_eq_ok.mp first
    cases first
    simpa using walk_cons stepped (ih walked)

/-- An item leaves the openings as they are, opens another one or closes the innermost. -/
theorem step_outside {w w' : Waiting} {item : Item} {out : List Item}
    (h : w.step item = .ok (out, w')) :
    (∃ opened, w'.outside = opened ++ w.outside) ∨
      item = .closeParen ∧ ∃ opening, w.outside = (opening, w'.operators) :: w'.outside ∧
        out = w.operators.map .operator ++ opening.closed := by
  cases item with
  | openParen | call =>
    cases h
    exact .inl ⟨[_], rfl⟩
  | comma =>
    simp only [step] at h
    split at h
    · cases h
    · cases h
      exact .inl ⟨[], rfl⟩
  | closeParen =>
    simp only [step] at h
    split at h
    · cases h
    · next opening operators outside outer =>
      cases h
      exact .inr ⟨rfl, opening, outer, rfl⟩
  | _ =>
    cases h
    exact .inl ⟨[], rfl⟩

/-- A waiting operator is handed on or goes on waiting, when an item comes. -/
theorem mem_step {w w' : Waiting} {item : Item} {out : List Item} {d : Operator}
    (h : w.step item = .ok (out, w')) (hd : d ∈ w.all) : .operator d ∈ out ∨ d ∈ w'.all := by
  simp only [all, List.mem_append] at hd ⊢
  cases item with
  | operator incoming =>
    cases h
    rcases hd with inner | outer
    · have split := List.takeWhile_append_dropWhile (p := (·.yieldsTo incoming)) (l := w.operators)
      rw [← split] at inner
      rcases List.mem_append.mp inner with leaves | stays
      · exact .inl (List.mem_map_of_mem leaves)
      · exact .inr (.inl (List.mem_cons_of_mem _ stays))
    · exact .inr (.inr outer)
  | openParen | call =>
    cases h
    simpa [opened] using hd
  | comma =>
    simp only [step] at h
    split at h
    · cases h
    · cases h
      rcases hd with inner | outer
      · exact .inl (List.mem_map_of_mem inner)
      · exact .inr (.inr outer)
  | closeParen =>
    simp only [step] at h
    split at h
    · cases h
    · next opening operators outside opened =>
      cases h
      rw [opened] at hd
      rcases hd with inner | outer
      · exact .inl (List.mem_append_left _ (List.mem_map_of_mem inner))
      · exact .inr (List.mem_append.mp outer)
  | _ =>
    cases h
    exact .inr hd

/-- What may still be handed on without another item: operators, and what is left of openings. -/
def pending (w : Waiting) : List Item :=
  w.operators.map .operator ++
    w.outside.flatMap fun o => o.1.closed ++ o.2.map .operator

/-- Nothing is handed on or waits but what has waited and the item. -/
theorem mem_of_step {w w' : Waiting} {item x : Item} {out : List Item}
    (h : w.step item = .ok (out, w')) (hx : x ∈ out ++ w'.pending) : x = item ∨ x ∈ w.pending := by
  cases item with
  | operator d =>
    cases h
    have split := List.takeWhile_append_dropWhile (p := (·.yieldsTo d)) (l := w.operators)
    rw [pending, ← split]
    simp only [pending, List.mem_append, List.map_cons, List.mem_cons, List.map_append] at hx ⊢
    grind
  | openParen =>
    cases h
    exact .inr (by simpa [pending, opened, Opening.closed] using hx)
  | call arity =>
    cases h
    simpa [pending, opened, Opening.closed, or_assoc] using hx
  | comma =>
    simp only [step] at h
    split at h
    · cases h
    · cases h
      exact .inr (by simpa [pending] using hx)
  | closeParen =>
    simp only [step] at h
    split at h
    · cases h
    · next opening operators outside opened =>
      cases h
      exact .inr (by simpa [pending, opened, or_assoc] using hx)
  | _ =>
    cases h
    simpa using hx

end Waiting

theorem reorder_ok_cons {w : Waiting} {item : Item} {rest all : List Item}
    (h : reorder w (item :: rest) = .ok all) :
    ∃ out w' later, w.step item = .ok (out, w') ∧ reorder w' rest = .ok later ∧
      all = out ++ later := by
  rw [reorder] at h
  obtain ⟨⟨out, w'⟩, stepped, h⟩ := bind_eq_ok.mp h
  obtain ⟨later, hl, h⟩ := bind_eq_ok.mp h
  exact ⟨out, w', later, stepped, hl, (Except.ok.inj h).symm⟩

/-- Reordering walks over a first part and goes on with what waits then. -/
theorem reorder_ok_append {w : Waiting} {xs ys all : List Item}
    (h : reorder w (xs ++ ys) = .ok all) :
    ∃ out w' later, w.walk xs = .ok (out, w') ∧ reorder w' ys = .ok later ∧
      all = out ++ later := by
  induction xs generalizing w all with
  | nil => exact ⟨[], w, all, rfl, h, rfl⟩
  | cons x xs ih =>
    obtain ⟨first, w₁, rest, stepped, hr, rfl⟩ := reorder_ok_cons h
    obtain ⟨out, w', later, walked, hl, rfl⟩ := ih hr
    exact ⟨first ++ out, w', later, Waiting.walk_cons stepped walked, hl, by simp⟩

/-- Every operator that waits is handed on at last. -/
theorem mem_reorder {w : Waiting} {items all : List Item} (h : reorder w items = .ok all)
    {d : Operator} (hd : d ∈ w.all) : .operator d ∈ all := by
  induction items generalizing w all with
  | nil =>
    simp only [reorder, Waiting.finish] at h
    split at h
    · next none =>
      obtain rfl := Except.ok.inj h
      simpa [Waiting.all, List.isEmpty_iff.mp none] using hd
    · cases h
  | cons item rest ih =>
    obtain ⟨out, w', later, stepped, hl, rfl⟩ := reorder_ok_cons h
    rcases Waiting.mem_step stepped hd with now | still
    · exact List.mem_append_left _ now
    · exact List.mem_append_right _ (ih hl still)

/-- Reordering hands on nothing but what has waited and the items. -/
theorem mem_of_reorder {w : Waiting} {items all : List Item} (h : reorder w items = .ok all)
    {x : Item} (hx : x ∈ all) : x ∈ items ∨ x ∈ w.pending := by
  induction items generalizing w all with
  | nil =>
    simp only [reorder, Waiting.finish] at h
    split at h
    · obtain rfl := Except.ok.inj h
      exact .inr (List.mem_append_left _ hx)
    · cases h
  | cons item rest ih =>
    obtain ⟨out, w', later, stepped, hl, rfl⟩ := reorder_ok_cons h
    have known (hx : x ∈ out ++ w'.pending) : x ∈ item :: rest ∨ x ∈ w.pending := by
      rcases Waiting.mem_of_step stepped hx with rfl | waits
      · exact .inl List.mem_cons_self
      · exact .inr waits
    rcases List.mem_append.mp hx with now | after
    · exact known (List.mem_append_left _ now)
    · rcases ih hl after with ahead | waits
      · exact .inl (List.mem_cons_of_mem item ahead)
      · exact known (List.mem_append_right out waits)

theorem mem_of_toPostfix {items all : List Item} (h : toPostfix items = .ok all) {x : Item}
    (hx : x ∈ all) : x ∈ items := by
  simpa [Waiting.pending, Waiting.nothing] using mem_of_reorder h hx

/-- An opening closes somewhere, with what waited outside of it as it was. -/
theorem exists_closing {operators held : List Operator} {opening : Opening}
    {inner outside : List (Opening × List Operator)} {items all : List Item}
    (h : reorder ⟨operators, inner ++ (opening, held) :: outside⟩ items = .ok all) :
    ∃ enclosed behind out later, items = enclosed ++ .closeParen :: behind ∧
      Waiting.walk ⟨operators, inner ++ (opening, held) :: outside⟩ (enclosed ++ [.closeParen]) =
        .ok (out ++ opening.closed, ⟨held, outside⟩) ∧
      reorder ⟨held, outside⟩ behind = .ok later ∧ all = out ++ opening.closed ++ later := by
  induction items generalizing operators inner all with
  | nil => simp [reorder, Waiting.finish] at h
  | cons item rest ih =>
    obtain ⟨first, w', rest', stepped, hr, rfl⟩ := reorder_ok_cons h
    rcases Waiting.step_outside stepped with ⟨opened, outer⟩ | ⟨rfl, opening', outer, rfl⟩
    · obtain ⟨operators', outside'⟩ := w'
      obtain rfl : outside' = (opened ++ inner) ++ (opening, held) :: outside := by
        simpa using outer
      obtain ⟨enclosed, behind, out, later, rfl, walked, hl, rfl⟩ := ih hr
      exact ⟨item :: enclosed, behind, first ++ out, later, rfl,
        by simpa using Waiting.walk_cons stepped walked, hl, by simp⟩
    · cases inner with
      | nil =>
        obtain ⟨⟨rfl, rfl⟩, rfl⟩ : (opening = opening' ∧ held = w'.operators) ∧
            outside = w'.outside := by simpa using outer
        exact ⟨[], rest, operators.map .operator, rest', rfl,
          by simpa using Waiting.walk_cons stepped w'.walk_nil, hr,
          rfl⟩
      | cons innermost inner =>
        obtain ⟨operators', outside'⟩ := w'
        obtain ⟨rfl, rfl⟩ : innermost = (opening', operators') ∧
            inner ++ (opening, held) :: outside = outside' := by simpa using outer
        obtain ⟨enclosed, behind, out, later, rfl, walked, hl, rfl⟩ := ih hr
        exact ⟨.closeParen :: enclosed, behind, operators.map .operator ++ opening'.closed ++ out,
          later, rfl, by simpa using Waiting.walk_cons stepped walked, hl, by simp⟩

end Item

end Calculator
