import Calculator.Proofs.Item.Held

namespace Calculator.Item

/-- The parenthesis at `c` closes what opens at `o`: from behind `o` to it something more is open than
in front of `o`, and behind it no more. -/
structure Closes (items : List Item) (o c : Nat) : Prop where
  closing : items[c]? = some .closeParen
  behind : o < c
  within : ∀ i, o < i → i ≤ c → height (items.take o) < height (items.take i)
  level : height (items.take (c + 1)) = height (items.take o)

theorem Closes.unique {items : List Item} {o c c' : Nat} (h : Closes items o c)
    (h' : Closes items o c') : c = c' := by
  by_contra different
  rcases Nat.lt_or_gt_of_ne different with before | before
  · have inside := h'.within (c + 1) (by have := h.behind; omega) before
    have level := h.level
    omega
  · have inside := h.within (c' + 1) (by have := h'.behind; omega) before
    have level := h'.level
    omega

/-- An order of the items of a sequence, each with its place in it. -/
structure Arranged (items : List Item) (order : List (Item × Nat)) : Prop where
  kept : order.Perm (items.zipIdx.filter (·.1.role ≠ .punctuation))
  values : order.filter (·.1.role = .value) = items.zipIdx.filter (·.1.role = .value)
  closed : ∀ a ∈ order, a.1.role = .call → ∃ c, Closes items a.2 c
  calls : order.Pairwise fun a b => a.1.role = .call → b.1.role = .call →
    ∀ c c', Closes items a.2 c → Closes items b.2 c' → c < c'
  operators : order.Pairwise fun a b => a.1.role = .operator → b.1.role = .value → a.2 < b.2

namespace Held

/-- Each opening has been open from its place on, above those outside of it. -/
def Unclosed (source : List Item) (place : Nat)
    (outside : List ((Opening × Nat) × List (Operator × Nat))) : Prop :=
  ∀ inner o outer, outside = inner ++ o :: outer → o.1.2 < place ∧
    height (source.take o.1.2) = outer.length ∧
    ∀ i, o.1.2 < i → i ≤ place → outer.length < height (source.take i)

/-- What is held at a place of a sequence has come before it. -/
structure Tracks (source : List Item) (place : Nat) (h : Held) : Prop where
  level : height (source.take place) = h.outside.length
  earlier : ∀ x ∈ h.pending, x.2 < place
  unclosed : Unclosed source place h.outside

section Tracking

variable {source rest : List Item} {place : Nat} {item : Item} {h : Held}

theorem tracks_nothing (source : List Item) : Tracks source 0 nothing where
  level := by simp [nothing]
  earlier := by simp [nothing, pending, items]
  unclosed := by simp [nothing, Unclosed]

theorem height_take_succ (here : source.drop place = item :: rest) :
    height (source.take (place + 1)) = height (source.take place) + item.rise := by
  have found : source[place]? = some item := by
    rw [← List.head?_drop, here]
    rfl
  rw [List.take_add_one, found, height_append]
  simp

/-- What stays open is still open one place further on. -/
theorem Unclosed.later (inner : List ((Opening × Nat) × List (Operator × Nat)))
    {outside : List ((Opening × Nat) × List (Operator × Nat))}
    (unclosed : Unclosed source place (inner ++ outside))
    (level : outside.length ≤ height (source.take (place + 1))) :
    Unclosed source (place + 1) outside := by
  rintro deeper o outer rfl
  obtain ⟨before, base, above⟩ := unclosed (inner ++ deeper) o outer (by simp)
  refine ⟨by omega, base, ?_⟩
  intro i behind reached
  by_cases here : i ≤ place
  · exact above i behind here
  · obtain rfl : i = place + 1 := by omega
    simp only [List.length_append, List.length_cons] at level
    omega

theorem Unclosed.opened {outside : List ((Opening × Nat) × List (Operator × Nat))}
    (unclosed : Unclosed source place outside)
    (level : height (source.take place) = outside.length)
    (higher : height (source.take (place + 1)) = outside.length + 1) (opening : Opening)
    (operators : List (Operator × Nat)) :
    Unclosed source (place + 1) (((opening, place), operators) :: outside) := by
  intro inner o outer split
  cases inner with
  | nil =>
    obtain ⟨rfl, rfl⟩ := List.cons.inj split
    refine ⟨Nat.lt_succ_self place, level, ?_⟩
    intro i behind reached
    obtain rfl : i = place + 1 := by
      dsimp only at behind
      omega
    omega
  | cons x inner =>
    obtain ⟨rfl, rfl⟩ := List.cons.inj split
    exact Unclosed.later [] unclosed (by omega) inner o outer rfl

theorem Tracks.step (tracks : Tracks source place h) (here : source.drop place = item :: rest)
    (enclosed : item = .closeParen → h.outside ≠ []) :
    Tracks source (place + 1) (h.step place item).2 := by
  have higher := height_take_succ here
  have earlier : ∀ x ∈ (h.step place item).2.pending, x.2 < place + 1 := by
    intro x hx
    rcases h.mem_step place enclosed (List.mem_append_right _ hx) with held | rfl
    · exact Nat.lt_succ_of_lt (tracks.earlier x held)
    · exact Nat.lt_succ_self place
  obtain ⟨level, -, unclosed⟩ := tracks
  obtain ⟨operators, outside⟩ := h
  rw [level] at higher
  cases item with
  | closeParen =>
    cases outside with
    | nil => exact absurd rfl (enclosed rfl)
    | cons o outside =>
      have lower : height (source.take (place + 1)) = outside.length := by
        simpa [rise] using higher
      exact ⟨lower, earlier, Unclosed.later [o] unclosed (Int.le_of_eq lower.symm)⟩
  | openParen => exact ⟨higher, earlier, unclosed.opened level higher .group operators⟩
  | call arity => exact ⟨higher, earlier, unclosed.opened level higher (.call arity) operators⟩
  | _ =>
    have same : height (source.take (place + 1)) = outside.length := by simpa [rise] using higher
    exact ⟨same, earlier, Unclosed.later [] unclosed (Int.le_of_eq same.symm)⟩

/-- A call is handed on by the parenthesis that closes it. -/
theorem Tracks.closes (tracks : Tracks source place h) (here : source.drop place = item :: rest)
    {x : Item × Nat} (hx : x ∈ (h.step place item).1) (call : x.1.role = .call) :
    Closes source x.2 place := by
  have higher := height_take_succ here
  obtain ⟨level, -, unclosed⟩ := tracks
  obtain ⟨operators, outside⟩ := h
  have other {operators : List (Operator × Nat)} (hx : x ∈ items operators) : False := by
    obtain ⟨d, operator⟩ := isOperator_of_mem_items hx
    simp [operator] at call
  cases item with
  | closeParen =>
    cases outside with
    | nil => cases hx
    | cons o outside =>
      rcases List.mem_append.mp hx with operator | closing
      · exact (other operator).elim
      · obtain ⟨z, -, rfl⟩ := List.mem_map.mp closing
        obtain ⟨before, base, above⟩ := unclosed [] o outside rfl
        refine ⟨?_, before, ?_, ?_⟩
        · rw [← List.head?_drop, here]
          rfl
        · intro i behind reached
          rw [base]
          exact above i behind reached
        · rw [base, higher, level]
          simp [rise]
  | operator d => exact (other hx).elim
  | comma => exact (other hx).elim
  | literal n =>
    obtain rfl := List.mem_singleton.mp hx
    cases call
  | name y =>
    obtain rfl := List.mem_singleton.mp hx
    cases call
  | openParen => cases hx
  | call arity => cases hx

theorem drop_succ (here : source.drop place = item :: rest) : source.drop (place + 1) = rest := by
  rw [← List.drop_drop, here]
  rfl

/-- Every call that is handed on closes, and not before the place that has been reached. -/
theorem Tracks.closes_of_order (tracks : Tracks source place h) (here : source.drop place = rest)
    (balanced : BalancedFrom h.outside.length rest) {x : Item × Nat}
    (hx : x ∈ h.order place rest) (call : x.1.role = .call) :
    ∃ c, place ≤ c ∧ Closes source x.2 c := by
  induction rest generalizing h place with
  | nil =>
    obtain ⟨d, operator⟩ := isOperator_of_mem_items hx
    simp [operator] at call
  | cons item rest ih =>
    obtain ⟨enclosed, later⟩ := h.balanced_step place balanced
    rcases List.mem_append.mp hx with now | after
    · exact ⟨place, Nat.le_refl place, tracks.closes here now call⟩
    · obtain ⟨c, reached, closes⟩ := ih (tracks.step here enclosed) (drop_succ here) later after
      exact ⟨c, Nat.le_of_succ_le reached, closes⟩

/-- What may come in front of something else in postfix order. -/
def Precedes (source : List Item) (a b : Item × Nat) : Prop :=
  (a.1.role = .operator → b.1.role = .value → a.2 < b.2) ∧
    (a.1.role = .call → b.1.role = .call → ∀ c c', Closes source a.2 c → Closes source b.2 c' → c < c')

theorem precedes_items (source : List Item) (operators : List (Operator × Nat)) :
    (items operators).Pairwise (Precedes source) := by
  apply List.pairwise_of_forall_mem_list
  intro a ha b hb
  obtain ⟨d, ha⟩ := isOperator_of_mem_items ha
  obtain ⟨e, hb⟩ := isOperator_of_mem_items hb
  simp [Precedes, ha, hb]

theorem precedes_step (source : List Item) (h : Held) (place : Nat) (item : Item) :
    (h.step place item).1.Pairwise (Precedes source) := by
  obtain ⟨operators, outside⟩ := h
  cases item with
  | closeParen =>
    cases outside with
    | nil => exact .nil
    | cons o outside =>
      obtain ⟨⟨opening, i⟩, outer⟩ := o
      refine List.pairwise_append.mpr ⟨precedes_items source operators, ?_, ?_⟩
      · cases opening <;> simp [closed, Opening.closed]
      · intro a ha b hb
        obtain ⟨d, ha⟩ := isOperator_of_mem_items ha
        have other : b.1.role ≠ .value := by
          cases opening <;> simp [closed, Opening.closed] at hb
          simp [hb]
        simp [Precedes, ha, other]
  | operator d => exact precedes_items source _
  | comma => exact precedes_items source _
  | literal n => exact List.pairwise_singleton _ _
  | name x => exact List.pairwise_singleton _ _
  | openParen => exact .nil
  | call arity => exact .nil

theorem Tracks.precedes_order (tracks : Tracks source place h) (here : source.drop place = rest)
    (balanced : BalancedFrom h.outside.length rest) :
    (h.order place rest).Pairwise (Precedes source) := by
  induction rest generalizing h place with
  | nil => exact precedes_items source h.operators
  | cons item rest ih =>
    obtain ⟨enclosed, later⟩ := h.balanced_step place balanced
    have next := tracks.step here enclosed
    have behind := drop_succ here
    refine List.pairwise_append.mpr
      ⟨precedes_step source h place item, ih next behind later, ?_⟩
    intro a ha b hb
    constructor
    · intro _ value
      -- What is handed on now has come by now, and values are handed on when they come.
      have reached : a.2 ≤ place := by
        rcases h.mem_step place enclosed (List.mem_append_left _ ha) with held | rfl
        · exact Nat.le_of_lt (tracks.earlier a held)
        · exact Nat.le_refl place
      have valued : b ∈ (rest.zipIdx (place + 1)).filter (·.1.role = .value) := by
        rw [← filter_order]
        exact List.mem_filter.mpr ⟨hb, decide_eq_true value⟩
      have place_le := (List.mem_zipIdx (List.mem_filter.mp valued).1).1
      omega
    · intro first second c c' hc hc'
      obtain ⟨later, reached, closes⟩ := next.closes_of_order behind ‹_› hb second
      rw [hc.unique (tracks.closes here ha first), hc'.unique closes]
      exact reached

end Tracking

end Held

theorem arranged_order {items : List Item} (balanced : Balanced items) :
    Arranged items (Held.nothing.order 0 items) := by
  have tracks := Held.tracks_nothing items
  have kept := Held.nothing.perm_order 0 balanced
  have precedes := tracks.precedes_order rfl balanced
  refine ⟨?_, Held.nothing.filter_order 0 items, ?_, ?_, ?_⟩
  · simpa [Held.nothing, Held.pending, Held.items] using kept
  · intro a ha call
    obtain ⟨c, -, closes⟩ := tracks.closes_of_order rfl balanced ha call
    exact ⟨c, closes⟩
  · exact precedes.imp fun h => h.2
  · exact precedes.imp fun h => h.1

/-- A sequence has a postfix order exactly if it is balanced. The order keeps all items but
parentheses and commas, values as they come, calls as they close, and every operator behind the
values in front of it. -/
theorem toPostfix_arranged (items : List Item) :
    (Balanced items → ∃ order, Arranged items order ∧ toPostfix items = .ok (order.map Prod.fst)) ∧
      (¬ Balanced items → toPostfix items = .error .unbalanced) := by
  refine ⟨fun balanced => ?_, fun unbalanced => reorder_of_not_balanced unbalanced⟩
  obtain ⟨out, ordered⟩ := reorder_of_balanced (w := Waiting.nothing) balanced
  refine ⟨_, arranged_order balanced, ?_⟩
  rw [Held.reorder_waiting (h := Held.nothing) 0 ordered]
  exact ordered

/-- An operator without operands and a call without a callee do not keep a sequence from being put in
order; an opening that never closes does. -/
theorem toPostfix_arranged_stray :
    let plus : Operator := .between "+" 20 (.binary .add)
    let two : Number := .integer 2
    let items : List Item := [.operator plus, .call 1, .name "x", .closeParen, .literal two]
    Balanced items ∧ ¬ Balanced [.openParen, .name "x"] ∧
      (∃ order, Arranged items order ∧
        order.map Prod.fst = [.name "x", .call 1, .literal two, .operator plus]) ∧
      toPostfix [.openParen, .name "x"] = .error .unbalanced := by
  intro plus two items
  have ordered : toPostfix items = .ok [.name "x", .call 1, .literal two, .operator plus] := rfl
  have balanced : Balanced items := by
    by_contra unbalanced
    have refused : toPostfix items = _ := reorder_of_not_balanced (w := .nothing) unbalanced
    cases ordered.symm.trans refused
  have unbalanced : ¬ Balanced [.openParen, .name "x"] := by
    intro balanced
    obtain ⟨out, ordered⟩ := reorder_of_balanced (w := .nothing) balanced
    cases ordered
  obtain ⟨order, arranged, found⟩ := (toPostfix_arranged items).1 balanced
  refine ⟨balanced, unbalanced, ⟨order, arranged, ?_⟩, ?_⟩
  · exact Except.ok.inj (found.symm.trans ordered)
  · exact (toPostfix_arranged [.openParen, .name "x"]).2 unbalanced

end Calculator.Item
