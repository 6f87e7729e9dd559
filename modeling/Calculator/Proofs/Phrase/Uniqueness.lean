import Calculator.Proofs.Phrase.Grouping

namespace Calculator

open Item

variable {table : OperatorTable}

namespace Expression

mutual

/-- The phrase of a tree with a trailer behind it. -/
def phrase (k : Trailer table) : Expression table → Phrase table
  | literal n => .literal n k
  | name x => .name x k
  | group inner => .group (inner.phrase .done) k
  | before d operand => .before d (operand.phrase k)
  | after d operand => operand.phrase (.after d k)
  | between d left right => left.phrase (.between d (right.phrase k))
  | call callee args => callee.phrase (.call (phrases args) k)

def phrases : List (Expression table) → List (Phrase table)
  | [] => []
  | e :: es => e.phrase .done :: phrases es

end

/-- The operators that wait once a tree has been read, with their left operands. -/
def frames : Expression table → List (Frame table)
  | before d operand => operand.frames ++ [.before d]
  | between d left right => right.frames ++ [.between d left]
  | _ => []

/-- The last operand, without an operator after it. -/
def core : Expression table → Expression table
  | before _ operand => operand.core
  | between _ _ right => right.core
  | after _ operand => operand
  | e => e

/-- The operator after the last operand. -/
def held : Expression table → Option (table.Placed .after)
  | before _ operand => operand.held
  | between _ _ right => right.held
  | after d _ => some d
  | _ => none

theorem length_phrases (es : List (Expression table)) : (phrases es).length = es.length := by
  induction es with
  | nil => rfl
  | cons e es ih => simp [phrases, ih]

theorem frames_eq_nil_of_tight {e : Expression table} (h : e.Tight) : e.frames = [] := by
  cases e <;> first | rfl | exact h.elim

mutual

theorem items_phrase (k : Trailer table) :
    (e : Expression table) → (e.phrase k).items = e.source ++ k.items
  | literal n => rfl
  | name x => rfl
  | group inner => by
    simp [phrase, Phrase.items, source, items_phrase .done inner, Trailer.items]
  | before d operand => by simp [phrase, Phrase.items, source, items_phrase k operand]
  | after d operand => by
    simp [phrase, source, items_phrase (.after d k) operand, Trailer.items]
  | between d left right => by
    simp [phrase, source, items_phrase (.between d (right.phrase k)) left,
      items_phrase k right, Trailer.items]
  | call callee args => by
    simp [phrase, source, items_phrase (.call (phrases args) k) callee, items_phrases args,
      Trailer.items, length_phrases]

theorem items_phrases :
    (es : List (Expression table)) → Phrase.itemsAll (phrases es) = sourceAll es
  | [] => rfl
  | e :: es => by
    simp [phrases, Phrase.itemsAll, sourceAll, items_phrase .done e, items_phrases es,
      Trailer.items]

end

end Expression

theorem Frame.plug_append (e : Expression table) (xs ys : List (Frame table)) :
    plug e (xs ++ ys) = plug (plug e xs) ys := by
  induction xs generalizing e with
  | nil => rfl
  | cons f xs ih => exact ih (f.fill e)

namespace Expression

/-- A tree taken apart and filled again. -/
theorem plug_frames (e : Expression table) : Frame.plug (e.core.settled e.held) e.frames = e := by
  induction e using frames.induct with
  | case1 d operand ih => simp [core, held, frames, Frame.plug_append, ih, Frame.plug, Frame.fill]
  | case2 d left right ih =>
    simp [core, held, frames, Frame.plug_append, ih, Frame.plug, Frame.fill]
  | case3 e hb hi => cases e <;> simp_all [core, held, frames, settled, Frame.plug]

theorem settled_core_of_tight {e : Expression table} (h : e.Tight) :
    e.core.settled e.held = e := by
  have whole := plug_frames e
  rw [frames_eq_nil_of_tight h] at whole
  exact whole

/-- All that waits behind a well-grouped tree binds at least as tight as the tree. -/
theorem le_precedence_frames {q : Nat} (hq : q ≤ 50) {e : Expression .standard}
    (h : e.WellGrouped) (he : ∀ p ∈ e.precedence?, q ≤ p) :
    ∀ f ∈ e.frames, q ≤ f.operator.precedence := by
  induction e using frames.induct with
  | case1 d operand ih =>
    intro f hf
    rcases List.mem_append.mp hf with hf | hf
    · exact ih h.2 (by simp [h.1]) f hf
    · rw [List.mem_singleton.mp hf, Frame.operator, d.precedence_before]
      exact hq
  | case2 d left right ih =>
    intro f hf
    have hd : q ≤ d.val.precedence := he _ rfl
    rcases List.mem_append.mp hf with hf | hf
    · refine ih h.2.2.2 (fun p hp => ?_) f hf
      exact Nat.le_trans hd (Nat.le_of_lt (h.2.1 p hp))
    · rw [List.mem_singleton.mp hf]
      exact hd
  | case3 e hb hi => cases e <;> simp_all [frames]

end Expression

open Expression

mutual

/-- Reading a well-grouped tree behind frames that admit it leaves its right edge waiting. -/
theorem tree_phrase (spine : List (Frame .standard)) (k : Trailer .standard) :
    (e : Expression .standard) → e.WellGrouped → Apart e.source →
      (∀ f ∈ spine.head?, f.Admits e.precedence?) →
      (e.phrase k).tree spine = k.tree (e.frames ++ spine) e.core e.held
  | .literal n, _, _, _ => rfl
  | .name x, _, _, _ => rfl
  | .group inner, grouped, apart, _ => by
    have inside : inner.source <:+: (group inner).source := ⟨[.openParen], [.closeParen], rfl⟩
    have h := tree_phrase [] .done inner grouped (apart.of_infix inside) (by simp)
    rw [Trailer.tree, List.append_nil, plug_frames] at h
    rw [Expression.phrase, Phrase.tree, h]
    rfl
  | .before d operand, grouped, apart, _ => by
    have h := tree_phrase (.before d :: spine) k operand grouped.2
      (apart.of_infix (List.infix_cons List.infix_rfl)) (by simp [Frame.Admits, grouped.1])
    simpa [Expression.phrase, Phrase.tree, frames, core, held] using h
  | .after d operand, grouped, apart, _ => by
    have inside : operand.source <:+: (after d operand).source := ⟨[], [.operator d], rfl⟩
    have h := tree_phrase spine (.after d k) operand grouped.2 (apart.of_infix inside)
      fun f _ => by
        rw [precedence?_eq_none_of_tight grouped.1]
        exact f.admits_none
    rw [frames_eq_nil_of_tight grouped.1, Trailer.tree, settled_core_of_tight grouped.1] at h
    simpa [Expression.phrase, frames, core, held] using h
  | .between d left right, grouped, apart, admitted => by
    obtain ⟨hl, hr, gl, gr⟩ := grouped
    have insideLeft : left.source <:+: (between d left right).source :=
      ⟨[], .operator d :: right.source, rfl⟩
    have insideRight : right.source <:+: (between d left right).source :=
      ⟨left.source ++ [.operator d], [], by simp [source]⟩
    have h₁ := tree_phrase spine (.between d (right.phrase k)) left gl
      (apart.of_infix insideLeft) fun f hf => (admitted f hf).mono hl
    have h₂ := tree_phrase (.between d left :: spine) k right gr (apart.of_infix insideRight)
      (by simpa [Frame.Admits] using hr)
    -- Exactly the right edge of the left operand is taken back from what waits.
    have yields : ∀ f ∈ left.frames, f.operator.yieldsTo d = true := fun f hf =>
      Frame.yieldsTo_between.mpr
        (le_precedence_frames (Nat.le_of_lt d.precedence_between_lt) gl hl f hf)
    have stays : spine.takeWhile (·.operator.yieldsTo d) = [] ∧
        spine.dropWhile (·.operator.yieldsTo d) = spine := by
      cases spine with
      | nil => simp
      | cons f spine => simp [Frame.admits_iff_not_yieldsTo.mp (admitted f rfl)]
    rw [Expression.phrase, h₁, Trailer.tree, List.takeWhile_append_of_pos yields,
      List.dropWhile_append_of_pos yields, stays.1, stays.2, List.append_nil, plug_frames, h₂]
    simp [frames, core, held]
  | .call callee args, grouped, apart, _ => by
    obtain ⟨tight, gc, ga⟩ := grouped
    have insideCallee : callee.source <:+: (call callee args).source :=
      ⟨[], .call args.length :: listed (sourceAll args) ++ [.closeParen], by simp [source]⟩
    have insideArgs : listed (sourceAll args) <:+: (call callee args).source :=
      ⟨callee.source ++ [.call args.length], [.closeParen], by simp [source]⟩
    have hc := tree_phrase spine (.call (phrases args) k) callee gc (apart.of_infix insideCallee)
      fun f _ => by
        rw [precedence?_eq_none_of_tight tight]
        exact f.admits_none
    have ha := trees_phrases args ga fun items hi =>
      apart.of_infix ((mem_infix_listed hi).trans insideArgs)
    have free : callee.held = none := by
      cases callee with
      | after d operand =>
        have adjacent :
            [.operator d, .call args.length] <:+: (call (after d operand) args).source :=
          ⟨operand.source, listed (sourceAll args) ++ [.closeParen], by simp [source]⟩
        exact absurd adjacent (apart d args.length d.2.2)
      | before d operand => exact tight.elim
      | between d left right => exact tight.elim
      | _ => rfl
    have bare := settled_core_of_tight tight
    rw [free, settled] at bare
    rw [Expression.phrase, hc, frames_eq_nil_of_tight tight, Trailer.tree, ha, free, bare]
    rfl

theorem trees_phrases :
    (es : List (Expression .standard)) → AllWellGrouped es →
      (∀ items ∈ sourceAll es, Apart items) → Phrase.trees (phrases es) = es
  | [], _, _ => rfl
  | e :: es, grouped, apart => by
    have first := tree_phrase [] .done e grouped.1 (apart _ List.mem_cons_self) (by simp)
    have later := trees_phrases es grouped.2 fun items h =>
      apart items (List.mem_cons_of_mem _ h)
    rw [Trailer.tree, List.append_nil, plug_frames] at first
    rw [phrases, Phrase.trees, first, later]

end

theorem done_of_closing {rest rest' : List Item} (h : Closing rest) {k : Trailer table}
    (same : rest = k.items ++ rest') : k = .done := by
  subst same
  cases k with
  | done => rfl
  | _ => exact h.elim

mutual

/-- The items of a phrase tell where it ends and what it is. -/
theorem phrase_unique {rest rest' : List Item} (h : Closing rest) (h' : Closing rest') :
    (p p' : Phrase table) → p.items ++ rest = p'.items ++ rest' → p = p' ∧ rest = rest'
  | .literal n k, p', same => by
    cases p' with
    | literal n' k' =>
      simp only [Phrase.items, List.cons_append, List.cons.injEq, Item.literal.injEq] at same
      obtain ⟨rfl, behind⟩ := same
      obtain ⟨rfl, ends⟩ := trailer_unique h h' k k' behind
      exact ⟨rfl, ends⟩
    | _ => simp [Phrase.items] at same
  | .name x k, p', same => by
    cases p' with
    | name x' k' =>
      simp only [Phrase.items, List.cons_append, List.cons.injEq, Item.name.injEq] at same
      obtain ⟨rfl, behind⟩ := same
      obtain ⟨rfl, ends⟩ := trailer_unique h h' k k' behind
      exact ⟨rfl, ends⟩
    | _ => simp [Phrase.items] at same
  | .group inner k, p', same => by
    cases p' with
    | group inner' k' =>
      simp only [Phrase.items, List.cons_append, List.append_assoc, List.cons.injEq, true_and]
        at same
      obtain ⟨rfl, closed⟩ := phrase_unique (by trivial) (by trivial) inner inner' same
      obtain ⟨rfl, ends⟩ := trailer_unique h h' k k' (List.cons.inj closed).2
      exact ⟨rfl, ends⟩
    | _ => simp [Phrase.items] at same
  | .before d operand, p', same => by
    cases p' with
    | before d' operand' =>
      simp only [Phrase.items, List.cons_append, List.cons.injEq, Item.operator.injEq] at same
      obtain ⟨hd, behind⟩ := same
      obtain ⟨rfl, ends⟩ := phrase_unique h h' operand operand' behind
      exact ⟨by rw [Subtype.ext hd], ends⟩
    | _ => simp [Phrase.items] at same

theorem trailer_unique {rest rest' : List Item} (h : Closing rest) (h' : Closing rest') :
    (k k' : Trailer table) → k.items ++ rest = k'.items ++ rest' → k = k' ∧ rest = rest'
  | .done, k', same => by
    obtain rfl := done_of_closing h same
    exact ⟨rfl, same⟩
  | .call args k, k', same => by
    cases k' with
    | done => cases done_of_closing h' same.symm
    | call args' k' =>
      simp only [Trailer.items, List.cons_append, List.append_assoc, List.cons.injEq] at same
      obtain ⟨rfl, closed⟩ := listed_unique args args' same.2
      obtain ⟨rfl, ends⟩ := trailer_unique h h' k k' closed
      exact ⟨rfl, ends⟩
    | _ => simp [Trailer.items] at same
  | .after d k, k', same => by
    cases k' with
    | done => cases done_of_closing h' same.symm
    | call args' k' => simp [Trailer.items] at same
    | after d' k' =>
      simp only [Trailer.items, List.cons_append, List.cons.injEq, Item.operator.injEq] at same
      obtain ⟨hd, behind⟩ := same
      obtain ⟨rfl, ends⟩ := trailer_unique h h' k k' behind
      exact ⟨by rw [Subtype.ext hd], ends⟩
    | between d' right' =>
      simp only [Trailer.items, List.cons_append, List.cons.injEq, Item.operator.injEq] at same
      have positions := d.2.2.symm.trans ((congrArg Operator.position same.1).trans d'.2.2)
      cases positions
  | .between d right, k', same => by
    cases k' with
    | done => cases done_of_closing h' same.symm
    | call args' k' => simp [Trailer.items] at same
    | after d' k' =>
      simp only [Trailer.items, List.cons_append, List.cons.injEq, Item.operator.injEq] at same
      have positions := d.2.2.symm.trans ((congrArg Operator.position same.1).trans d'.2.2)
      cases positions
    | between d' right' =>
      simp only [Trailer.items, List.cons_append, List.cons.injEq, Item.operator.injEq] at same
      obtain ⟨hd, behind⟩ := same
      obtain ⟨rfl, ends⟩ := phrase_unique h h' right right' behind
      exact ⟨by rw [Subtype.ext hd], ends⟩

theorem listed_unique {rest rest' : List Item} : (ps ps' : List (Phrase table)) →
    listed (Phrase.itemsAll ps) ++ .closeParen :: rest =
        listed (Phrase.itemsAll ps') ++ .closeParen :: rest' →
      ps = ps' ∧ rest = rest'
  | [], [], same => ⟨rfl, (List.cons.inj same).2⟩
  | [], p' :: ps', same => by cases p' <;> simp [Phrase.itemsAll, listed, Phrase.items] at same
  | p :: ps, [], same => by cases p <;> simp [Phrase.itemsAll, listed, Phrase.items] at same
  | p :: ps, p' :: ps', same => by
    simp only [Phrase.itemsAll, listed, List.append_assoc] at same
    obtain ⟨rfl, behind⟩ :=
      phrase_unique (closing_later ps rest) (closing_later ps' rest') p p' same
    obtain ⟨rfl, ends⟩ := later_unique ps ps' behind
    exact ⟨rfl, ends⟩

theorem later_unique {rest rest' : List Item} : (ps ps' : List (Phrase table)) →
    (Phrase.itemsAll ps).flatMap (.comma :: ·) ++ .closeParen :: rest =
        (Phrase.itemsAll ps').flatMap (.comma :: ·) ++ .closeParen :: rest' →
      ps = ps' ∧ rest = rest'
  | [], [], same => ⟨rfl, (List.cons.inj same).2⟩
  | [], p' :: ps', same => by simp [Phrase.itemsAll] at same
  | p :: ps, [], same => by simp [Phrase.itemsAll] at same
  | p :: ps, p' :: ps', same => by
    simp only [Phrase.itemsAll, List.flatMap_cons, List.cons_append, List.append_assoc,
      List.cons.injEq, true_and] at same
    obtain ⟨rfl, behind⟩ :=
      phrase_unique (closing_later ps rest) (closing_later ps' rest') p p' same
    obtain ⟨rfl, ends⟩ := later_unique ps ps' behind
    exact ⟨rfl, ends⟩

end

/-- The tree of a phrase is the only well-grouped tree with its items, where nothing is read out of
order. -/
theorem eq_tree_of_wellGrouped {p : Phrase .standard} (apart : Apart p.items)
    {e : Expression .standard} (grouped : e.WellGrouped) (same : e.source = p.items) :
    e = p.tree [] := by
  have closing : Closing [] := trivial
  have items : (e.phrase .done).items ++ [] = p.items ++ [] := by
    rw [items_phrase, same, Trailer.items, List.append_nil]
  obtain ⟨rfl, -⟩ := phrase_unique closing closing (e.phrase .done) p items
  have read := tree_phrase [] .done e grouped (same ▸ apart) (by simp)
  rw [read, Trailer.tree, List.append_nil, plug_frames]

end Calculator
