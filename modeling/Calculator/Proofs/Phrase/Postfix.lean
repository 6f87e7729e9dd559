import Calculator.Proofs.Phrase

namespace Calculator

namespace Frame

variable (f : Frame .standard)

theorem precedence_le : f.operator.precedence ≤ 50 := by
  cases f with
  | before d => exact Nat.le_of_eq d.precedence_before
  | between d _ => exact Nat.le_of_lt d.precedence_between_lt

theorem not_yieldsTo_before (d : OperatorTable.standard.Placed .before) :
    f.operator.yieldsTo d = false := by
  cases f with
  | before b => simp [operator, Operator.yieldsTo, b.2.2, d.2.2]
  | between b _ =>
    have hb := b.precedence_between_lt
    simp [operator, Operator.yieldsTo, d.precedence_before, hb]

theorem not_yieldsTo_after (d : OperatorTable.standard.Placed .after) :
    f.operator.yieldsTo d = false := by
  have hf := f.precedence_le
  have hd := d.precedence_after
  simp only [Operator.yieldsTo, Bool.and_eq_false_imp, decide_eq_false_iff_not]
  intro _
  omega

end Frame

namespace Item

/-- What is handed on first is in front of all that comes later. -/
def emit (out : List Item) (later : Except ReadError (List Item)) :
    Except ReadError (List Item) :=
  later.map (out ++ ·)

@[simp] theorem emit_nil (later : Except ReadError (List Item)) : emit [] later = later := by
  cases later <;> rfl

@[simp] theorem emit_emit (xs ys : List Item) (later : Except ReadError (List Item)) :
    emit xs (emit ys later) = emit (xs ++ ys) later := by
  cases later <;> simp [emit, Except.map]

theorem reorder_cons {w w' : Waiting} {item : Item} {out : List Item}
    (h : w.step item = .ok (out, w')) (rest : List Item) :
    reorder w (item :: rest) = emit out (reorder w' rest) := by
  simp only [reorder, h]
  rfl

/-- Sequences that nothing goes on from: a parenthesis closes, or an argument ends. -/
def Closing : List Item → Prop
  | [] | .closeParen :: _ | .comma :: _ => True
  | _ => False

/-- Where a phrase ends, all operators inside the innermost opening are handed on. -/
theorem reorder_closing {rest : List Item} (h : Closing rest) (operators : List Operator)
    (outside : List (Opening × List Operator)) :
    reorder ⟨operators, outside⟩ rest =
      emit (operators.map .operator) (reorder ⟨[], outside⟩ rest) := by
  match rest with
  | [] => cases outside <;> simp [reorder, Waiting.finish, emit, Except.map]
  | .closeParen :: rest =>
    cases outside with
    | nil => rfl
    | cons o outside =>
      rw [reorder_cons rfl, reorder_cons rfl, emit_emit]
      rfl
  | .comma :: rest =>
    cases outside with
    | nil => rfl
    | cons o outside =>
      rw [reorder_cons rfl, reorder_cons rfl, emit_emit]
      simp

end Item

namespace Frame

variable {table : OperatorTable}

/-- What a frame has handed on. -/
def written : List (Frame table) → List Item
  | [] => []
  | .before _ :: spine => written spine
  | .between _ left :: spine => written spine ++ left.postorder

/-- The operators that wait, the innermost first. -/
def waiting (spine : List (Frame table)) : List Operator := spine.map operator

@[simp] theorem waiting_nil : waiting ([] : List (Frame table)) = [] := rfl

@[simp] theorem waiting_before (d : table.Placed .before) (spine : List (Frame table)) :
    waiting (.before d :: spine) = d.val :: waiting spine := rfl

@[simp] theorem waiting_between (d : table.Placed .between) (left : Expression table)
    (spine : List (Frame table)) :
    waiting (.between d left :: spine) = d.val :: waiting spine := rfl

theorem takeWhile_waiting (d : Operator) (spine : List (Frame table)) :
    (waiting spine).takeWhile (·.yieldsTo d) =
      waiting (spine.takeWhile (·.operator.yieldsTo d)) := by
  simp [waiting, List.takeWhile_map, Function.comp_def]

theorem dropWhile_waiting (d : Operator) (spine : List (Frame table)) :
    (waiting spine).dropWhile (·.yieldsTo d) =
      waiting (spine.dropWhile (·.operator.yieldsTo d)) := by
  simp [waiting, List.dropWhile_map, Function.comp_def]

/-- All operators stay where none yields. -/
theorem waiting_stay {d : Operator} (h : ∀ f : Frame table, f.operator.yieldsTo d = false)
    (spine : List (Frame table)) :
    (waiting spine).takeWhile (·.yieldsTo d) = [] ∧
      (waiting spine).dropWhile (·.yieldsTo d) = waiting spine := by
  cases spine with
  | nil => simp
  | cons f spine => simp [waiting, h f]

theorem written_append (xs ys : List (Frame table)) :
    written (xs ++ ys) = written ys ++ written xs := by
  induction xs with
  | nil => simp [written]
  | cons f xs ih => cases f <;> simp [written, ih]

theorem postorder_plug (e : Expression table) (spine : List (Frame table)) :
    (plug e spine).postorder = written spine ++ e.postorder ++ (waiting spine).map .operator := by
  induction spine generalizing e with
  | nil => simp [plug, written]
  | cons f spine ih =>
    cases f <;> simp [plug, ih, fill, Expression.postorder, written, waiting, operator]

end Frame

theorem Phrase.length_trees {table : OperatorTable} (ps : List (Phrase table)) :
    (trees ps).length = ps.length := by
  induction ps with
  | nil => rfl
  | cons p ps ih => simp [trees, ih]

open Item Calculator.Frame

/-- An argument ends at the comma before the next one, or where the arguments close. -/
theorem closing_later {table : OperatorTable} (ps : List (Phrase table)) (rest : List Item) :
    Closing ((Phrase.itemsAll ps).flatMap (.comma :: ·) ++ .closeParen :: rest) := by
  cases ps <;> trivial

mutual

/-- Behind waiting frames, a phrase hands on what completes its tree and leaves nothing waiting. -/
theorem reorder_phrase (spine : List (Frame .standard)) (outside : List (Opening × List Operator))
    {rest : List Item} (h : Closing rest) : (p : Phrase .standard) →
      emit (written spine) (reorder ⟨waiting spine, outside⟩ (p.items ++ rest)) =
        emit (p.tree spine).postorder (reorder ⟨[], outside⟩ rest)
  | .literal n k => by
    rw [Phrase.items, List.cons_append, reorder_cons rfl, emit_emit]
    exact reorder_trailer spine outside (.literal n) none h k
  | .name x k => by
    rw [Phrase.items, List.cons_append, reorder_cons rfl, emit_emit]
    exact reorder_trailer spine outside (.name x) none h k
  | .group inner k => by
    have inside := reorder_phrase [] ((.group, waiting spine) :: outside)
      (show Closing (.closeParen :: (k.items ++ rest)) from trivial) inner
    have behind := reorder_trailer spine outside (.group (inner.tree [])) none h k
    simp only [written, waiting_nil, emit_nil] at inside
    rw [Phrase.items, List.cons_append, List.cons_append, List.append_assoc, List.cons_append]
    rw [reorder_cons rfl, Waiting.opened, inside, reorder_cons rfl, emit_nil, emit_emit, emit_emit]
    simpa [Opening.closed, Expression.postorder, Phrase.tree] using behind
  | .before d operand => by
    obtain ⟨leaving, staying⟩ := waiting_stay (not_yieldsTo_before · d) spine
    have inside := reorder_phrase (.before d :: spine) outside h operand
    rw [Phrase.items, List.cons_append, reorder_cons rfl, leaving, staying]
    simpa [written, Phrase.tree] using inside

theorem reorder_trailer (spine : List (Frame .standard))
    (outside : List (Opening × List Operator)) (e : Expression .standard)
    (held : Option (OperatorTable.standard.Placed .after)) {rest : List Item} (h : Closing rest) :
    (k : Trailer .standard) →
      emit (written spine ++ e.postorder)
          (reorder ⟨(held.map Subtype.val).toList ++ waiting spine, outside⟩ (k.items ++ rest)) =
        emit (k.tree spine e held).postorder (reorder ⟨[], outside⟩ rest)
  | .done => by
    rw [Trailer.items, List.nil_append, reorder_closing h, emit_emit, Trailer.tree, postorder_plug]
    cases held <;> simp [Expression.settled, Expression.postorder]
  | .call args k => by
    have inside := reorder_listed
      (.call args.length, (held.map Subtype.val).toList ++ waiting spine) outside
      (k.items ++ rest) args
    have behind := reorder_trailer spine outside (.call e (Phrase.trees args)) held h k
    rw [Trailer.items, List.cons_append, List.cons_append, List.append_assoc, List.cons_append]
    rw [reorder_cons rfl, Waiting.opened, inside, reorder_cons rfl, emit_emit, emit_emit,
      emit_emit]
    simpa [Opening.closed, Expression.postorder, Trailer.tree, Phrase.length_trees] using behind
  | .after d k => by
    obtain ⟨leaving, staying⟩ := waiting_stay (not_yieldsTo_after · d) spine
    have behind := reorder_trailer spine outside (e.settled held) (some d) h k
    rw [Trailer.items, List.cons_append, reorder_cons rfl, emit_emit]
    cases held with
    | none => simpa [leaving, staying, Expression.settled, Trailer.tree] using behind
    | some a =>
      simpa [leaving, staying, Expression.settled, Expression.postorder, Trailer.tree,
        a.after_yieldsTo_after d] using behind
  | .between d right => by
    have inside := reorder_phrase
      (.between d (plug (e.settled held) (spine.takeWhile (·.operator.yieldsTo d))) ::
        spine.dropWhile (·.operator.yieldsTo d)) outside h right
    -- The frames that yield have their left sides in the new left operand, behind all others.
    have parts : written spine = written (spine.dropWhile (·.operator.yieldsTo d)) ++
        written (spine.takeWhile (·.operator.yieldsTo d)) := by
      rw [← written_append, List.takeWhile_append_dropWhile]
    rw [Trailer.items, List.cons_append, reorder_cons rfl, emit_emit, parts]
    rw [written, postorder_plug] at inside
    cases held with
    | none =>
      simpa [Expression.settled, Trailer.tree, takeWhile_waiting, dropWhile_waiting] using inside
    | some a =>
      simpa [Expression.settled, Expression.postorder, Trailer.tree, takeWhile_waiting,
        dropWhile_waiting, a.after_yieldsTo_between d] using inside

theorem reorder_listed (opening : Opening × List Operator)
    (outside : List (Opening × List Operator)) (rest : List Item) : (ps : List (Phrase .standard)) →
      reorder ⟨[], opening :: outside⟩ (listed (Phrase.itemsAll ps) ++ .closeParen :: rest) =
        emit (Expression.postorderAll (Phrase.trees ps))
          (reorder ⟨[], opening :: outside⟩ (.closeParen :: rest))
  | [] => by simp [Phrase.itemsAll, listed, Phrase.trees, Expression.postorderAll]
  | p :: ps => by
    have first := reorder_phrase [] (opening :: outside) (closing_later ps rest) p
    simp only [written, waiting_nil, emit_nil] at first
    rw [Phrase.itemsAll, listed, List.append_assoc, first, reorder_later opening outside rest ps,
      emit_emit]
    rfl

theorem reorder_later (opening : Opening × List Operator)
    (outside : List (Opening × List Operator)) (rest : List Item) : (ps : List (Phrase .standard)) →
      reorder ⟨[], opening :: outside⟩
          ((Phrase.itemsAll ps).flatMap (.comma :: ·) ++ .closeParen :: rest) =
        emit (Expression.postorderAll (Phrase.trees ps))
          (reorder ⟨[], opening :: outside⟩ (.closeParen :: rest))
  | [] => by simp [Phrase.itemsAll, Phrase.trees, Expression.postorderAll]
  | p :: ps => by
    have first := reorder_phrase [] (opening :: outside) (closing_later ps rest) p
    simp only [written, waiting_nil, emit_nil] at first
    have next : Waiting.step ⟨[], opening :: outside⟩ .comma = .ok ([], ⟨[], opening :: outside⟩) :=
      rfl
    rw [Phrase.itemsAll, List.flatMap_cons, List.cons_append, List.cons_append, List.append_assoc,
      reorder_cons next, emit_nil, first, reorder_later opening outside rest ps, emit_emit]
    rfl

end

/-- Reordering finds the tree of a phrase. -/
theorem toPostfix_phrase (p : Phrase .standard) :
    toPostfix p.items = .ok (p.tree []).postorder := by
  have h := reorder_phrase [] [] (show Closing [] from trivial) p
  rw [written, emit_nil, waiting_nil, List.append_nil] at h
  rw [toPostfix, Waiting.nothing, h]
  simp [reorder, Waiting.finish, emit, Except.map]

end Calculator
