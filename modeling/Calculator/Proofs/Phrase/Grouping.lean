import Mathlib.Data.List.TakeWhile
import Calculator.Proofs.Phrase.Postfix

namespace Calculator

open Item

variable {table : OperatorTable}

namespace Expression

theorem tight_settled {e : Expression table} (h : e.Tight) (held : Option (table.Placed .after)) :
    (e.settled held).Tight := by
  cases held with
  | none => exact h
  | some d => trivial

theorem wellGrouped_settled {e : Expression table} (tight : e.Tight) (h : e.WellGrouped)
    (held : Option (table.Placed .after)) : (e.settled held).WellGrouped := by
  cases held with
  | none => exact h
  | some d => exact ⟨tight, h⟩

end Expression

namespace Frame

def precedence? : Frame table → Option Nat
  | before _ => none
  | between d _ => some d.val.precedence

/-- The precedence an operand may show. -/
def Admits (shown : Option Nat) : Frame table → Prop
  | before _ => shown = none
  | between d _ => ∀ p ∈ shown, d.val.precedence < p

/-- What stands to the left of the missing operand is grouped. -/
def Grouped : Frame table → Prop
  | before _ => True
  | between d left => (∀ p ∈ left.precedence?, d.val.precedence ≤ p) ∧ left.WellGrouped

/-- Every frame is grouped and may be the operand of the frame around it. -/
def Sound : List (Frame table) → Prop
  | [] => True
  | f :: spine => f.Grouped ∧ (∀ g ∈ spine.head?, g.Admits f.precedence?) ∧ Sound spine

@[simp] theorem precedence?_fill (f : Frame table) (e : Expression table) :
    (f.fill e).precedence? = f.precedence? := by
  cases f <;> rfl

theorem admits_none (f : Frame table) : f.Admits none := by
  cases f <;> simp [Admits]

/-- A tighter operand is admitted as well. -/
theorem Admits.mono {f : Frame table} {shown : Option Nat} {q : Nat} (h : f.Admits (some q))
    (tighter : ∀ p ∈ shown, q ≤ p) : f.Admits shown := by
  cases f with
  | before d => cases h
  | between d left =>
    intro p hp
    exact Nat.lt_of_lt_of_le (h q rfl) (tighter p hp)

theorem wellGrouped_fill {f : Frame table} {e : Expression table} (hf : f.Grouped)
    (admitted : f.Admits e.precedence?) (he : e.WellGrouped) : (f.fill e).WellGrouped := by
  cases f with
  | before d => exact ⟨admitted, he⟩
  | between d left => exact ⟨hf.1, admitted, hf.2, he⟩

theorem wellGrouped_plug {spine : List (Frame table)} {e : Expression table} (hs : Sound spine)
    (admitted : ∀ f ∈ spine.head?, f.Admits e.precedence?) (he : e.WellGrouped) :
    (plug e spine).WellGrouped := by
  induction spine generalizing e with
  | nil => exact he
  | cons f spine ih =>
    have filled := wellGrouped_fill hs.1 (admitted f rfl) he
    exact ih hs.2.2 (by simpa using hs.2.1) filled

theorem sound_append {xs ys : List (Frame table)} (h : Sound (xs ++ ys)) :
    Sound xs ∧ Sound ys := by
  induction xs with
  | nil => exact ⟨trivial, h⟩
  | cons f xs ih =>
    obtain ⟨grouped, admitted, rest⟩ := h
    obtain ⟨hx, hy⟩ := ih rest
    refine ⟨⟨grouped, ?_, hx⟩, hy⟩
    intro g hg
    cases xs with
    | nil => simp at hg
    | cons _ _ => exact admitted g hg

/-- What frames are filled to shows no looser operator than the frames and the operand do. -/
theorem le_precedence_plug {spine : List (Frame table)} {e : Expression table} {q : Nat}
    (hs : ∀ f ∈ spine, ∀ p ∈ f.precedence?, q ≤ p) (he : ∀ p ∈ e.precedence?, q ≤ p) :
    ∀ p ∈ (plug e spine).precedence?, q ≤ p := by
  induction spine generalizing e with
  | nil => exact he
  | cons f spine ih =>
    refine ih (fun g hg => hs g (List.mem_cons_of_mem f hg)) ?_
    rw [precedence?_fill]
    exact hs f List.mem_cons_self

/-- A frame yields to an operator between operands that does not bind tighter. -/
theorem yieldsTo_between {f : Frame table} {d : table.Placed .between} :
    f.operator.yieldsTo d = true ↔ d.val.precedence ≤ f.operator.precedence := by
  simp [Operator.yieldsTo, d.2.2]

theorem le_of_yieldsTo {f : Frame table} {d : table.Placed .between}
    (h : f.operator.yieldsTo d = true) : ∀ p ∈ f.precedence?, d.val.precedence ≤ p := by
  cases f with
  | before b => simp [precedence?]
  | between b left =>
    intro p hp
    obtain rfl := Option.some.inj hp
    exact yieldsTo_between.mp h

/-- The frames that do not yield are those that admit the operator as their operand. -/
theorem admits_iff_not_yieldsTo {f : Frame .standard}
    {d : OperatorTable.standard.Placed .between} :
    f.Admits (some d.val.precedence) ↔ f.operator.yieldsTo d = false := by
  rw [← Bool.not_eq_true, yieldsTo_between]
  cases f with
  | before b =>
    have hb := b.precedence_before
    have hd := d.precedence_between_lt
    simp only [Admits, operator, reduceCtorEq, false_iff]
    omega
  | between b left => simp [Admits, operator]

end Frame

mutual

/-- The tree of a phrase is well grouped. -/
theorem wellGrouped_phrase (spine : List (Frame .standard)) (hs : Frame.Sound spine) :
    (p : Phrase .standard) → (p.tree spine).WellGrouped
  | .literal n k => wellGrouped_trailer spine hs (.literal n) trivial trivial none k
  | .name x k => wellGrouped_trailer spine hs (.name x) trivial trivial none k
  | .group inner k =>
    wellGrouped_trailer spine hs (.group (inner.tree [])) trivial
      (wellGrouped_phrase [] trivial inner) none k
  | .before d operand =>
    wellGrouped_phrase (.before d :: spine) ⟨trivial, fun g _ => g.admits_none, hs⟩ operand

theorem wellGrouped_trailer (spine : List (Frame .standard)) (hs : Frame.Sound spine)
    (e : Expression .standard) (tight : e.Tight) (he : e.WellGrouped)
    (held : Option (OperatorTable.standard.Placed .after)) :
    (k : Trailer .standard) → (k.tree spine e held).WellGrouped
  | .done => by
    have ht := Expression.tight_settled tight held
    refine Frame.wellGrouped_plug hs (fun f _ => ?_) (Expression.wellGrouped_settled tight he held)
    rw [Expression.precedence?_eq_none_of_tight ht]
    exact f.admits_none
  | .call args k =>
    wellGrouped_trailer spine hs (.call e (Phrase.trees args)) trivial
      ⟨tight, he, allWellGrouped_phrases args⟩ held k
  | .after d k =>
    wellGrouped_trailer spine hs (e.settled held) (Expression.tight_settled tight held)
      (Expression.wellGrouped_settled tight he held) (some d) k
  | .between d right => by
    have ht := Expression.precedence?_eq_none_of_tight (Expression.tight_settled tight held)
    have hg := Expression.wellGrouped_settled tight he held
    rw [← List.takeWhile_append_dropWhile (p := (·.operator.yieldsTo d)) (l := spine)] at hs
    obtain ⟨taken, kept⟩ := Frame.sound_append hs
    refine wellGrouped_phrase (.between d _ :: _) ⟨⟨?_, ?_⟩, ?_, kept⟩ right
    · refine Frame.le_precedence_plug (fun f hf => ?_) (by simp [ht])
      have yields := List.mem_takeWhile_imp hf
      exact Frame.le_of_yieldsTo yields
    · refine Frame.wellGrouped_plug taken (fun f _ => ?_) hg
      rw [ht]
      exact f.admits_none
    · intro f hf
      have stays := List.head?_dropWhile_not (·.operator.yieldsTo d) spine
      rw [hf] at stays
      exact Frame.admits_iff_not_yieldsTo.mpr stays

theorem allWellGrouped_phrases :
    (ps : List (Phrase .standard)) → Expression.AllWellGrouped (Phrase.trees ps)
  | [] => trivial
  | p :: ps => ⟨wellGrouped_phrase [] trivial p, allWellGrouped_phrases ps⟩

end

/-- The items of an operator that was held back. -/
def heldItems (held : Option (table.Placed .after)) : List Item :=
  (held.map fun d => Item.operator d).toList

/-- What stands in front of the operand that frames are waiting for. -/
def Frame.opened : List (Frame table) → List Item
  | [] => []
  | .before d :: spine => opened spine ++ [.operator d]
  | .between d left :: spine => opened spine ++ (left.source ++ [.operator d])

theorem Frame.opened_append (xs ys : List (Frame table)) :
    opened (xs ++ ys) = opened ys ++ opened xs := by
  induction xs with
  | nil => simp [opened]
  | cons f xs ih => cases f <;> simp [opened, ih]

theorem Frame.source_plug (e : Expression table) (spine : List (Frame table)) :
    (plug e spine).source = opened spine ++ e.source := by
  induction spine generalizing e with
  | nil => rfl
  | cons f spine ih => cases f <;> simp [plug, ih, fill, Expression.source, opened]

theorem Expression.source_settled (e : Expression table) (held : Option (table.Placed .after)) :
    (e.settled held).source = e.source ++ heldItems held := by
  cases held <;> simp [settled, source, heldItems]

namespace Item

theorem Apart.of_infix {xs ys : List Item} (h : Apart ys) (inside : xs <:+: ys) : Apart xs :=
  fun d arity hd found => h d arity hd (found.trans inside)

theorem mem_infix_listed {items : List Item} {all : List (List Item)} (h : items ∈ all) :
    items <:+: listed all := by
  cases all with
  | nil => cases h
  | cons first later =>
    rcases List.mem_cons.mp h with rfl | h
    · exact (List.prefix_append items _).isInfix
    · obtain ⟨front, back, rfl⟩ := List.append_of_mem h
      refine ⟨first ++ front.flatMap (.comma :: ·) ++ [.comma], back.flatMap (.comma :: ·), ?_⟩
      simp [listed]

end Item

mutual

/-- Where no operator after an operand has a call behind it, nothing is read out of order: the tree
of a phrase has the items of the phrase. -/
theorem source_phrase (spine : List (Frame table)) :
    (p : Phrase table) → Apart p.items → (p.tree spine).source = Frame.opened spine ++ p.items
  | .literal n k, apart => by
    have h := source_trailer spine (.literal n) none k
      (apart.of_infix (List.infix_cons List.infix_rfl))
    simpa [Expression.source, heldItems, Phrase.items, Phrase.tree] using h
  | .name x k, apart => by
    have h := source_trailer spine (.name x) none k
      (apart.of_infix (List.infix_cons List.infix_rfl))
    simpa [Expression.source, heldItems, Phrase.items, Phrase.tree] using h
  | .group inner k, apart => by
    have inside : inner.items <:+: (Phrase.group inner k).items :=
      ⟨[.openParen], .closeParen :: k.items, by simp [Phrase.items]⟩
    have behind : k.items <:+: (Phrase.group inner k).items :=
      ⟨.openParen :: inner.items ++ [.closeParen], [], by simp [Phrase.items]⟩
    have hi := source_phrase [] inner (apart.of_infix inside)
    have hk := source_trailer spine (.group (inner.tree [])) none k (apart.of_infix behind)
    simpa [Expression.source, heldItems, Phrase.items, Phrase.tree, hi, Frame.opened] using hk
  | .before d operand, apart => by
    have h := source_phrase (.before d :: spine) operand
      (apart.of_infix (List.infix_cons List.infix_rfl))
    simpa [Frame.opened, Phrase.items, Phrase.tree] using h

theorem source_trailer (spine : List (Frame table)) (e : Expression table)
    (held : Option (table.Placed .after)) :
    (k : Trailer table) → Apart (heldItems held ++ k.items) →
      (k.tree spine e held).source =
        Frame.opened spine ++ e.source ++ heldItems held ++ k.items
  | .done, _ => by
    simp [Trailer.tree, Frame.source_plug, Expression.source_settled, Trailer.items]
  | .call args k, apart => by
    cases held with
    | some d =>
      -- The operator held back would apply behind the call, though it is written before it.
      have adjacent : [.operator d, .call args.length] <:+:
          heldItems (some d) ++ (Trailer.call args k).items :=
        ⟨[], listed (Phrase.itemsAll args) ++ .closeParen :: k.items,
          by simp [heldItems, Trailer.items]⟩
      exact absurd adjacent (apart d args.length d.2.2)
    | none =>
      have inside : listed (Phrase.itemsAll args) <:+: (Trailer.call args k).items :=
        ⟨[.call args.length], .closeParen :: k.items, by simp [Trailer.items]⟩
      have behind : k.items <:+: (Trailer.call args k).items :=
        ⟨.call args.length :: listed (Phrase.itemsAll args) ++ [.closeParen], [],
          by simp [Trailer.items]⟩
      have ha := source_phrases args fun items hi =>
        apart.of_infix ((mem_infix_listed hi).trans inside)
      have hk := source_trailer spine (.call e (Phrase.trees args)) none k (apart.of_infix behind)
      simpa [Expression.source, heldItems, Trailer.items, Trailer.tree, ha, Phrase.length_trees]
        using hk
  | .after d k, apart => by
    have behind : heldItems (some d) ++ k.items <:+: heldItems held ++ (Trailer.after d k).items :=
      ⟨heldItems held, [], by simp [heldItems, Trailer.items]⟩
    have h := source_trailer spine (e.settled held) (some d) k (apart.of_infix behind)
    simpa [Expression.source_settled, heldItems, Trailer.items, Trailer.tree] using h
  | .between d right, apart => by
    have behind : right.items <:+: heldItems held ++ (Trailer.between d right).items :=
      ⟨heldItems held ++ [.operator d], [], by simp [Trailer.items]⟩
    have parts : Frame.opened spine =
        Frame.opened (spine.dropWhile (·.operator.yieldsTo d)) ++
          Frame.opened (spine.takeWhile (·.operator.yieldsTo d)) := by
      rw [← Frame.opened_append, List.takeWhile_append_dropWhile]
    have h := source_phrase
      (.between d (Frame.plug (e.settled held) (spine.takeWhile (·.operator.yieldsTo d))) ::
        spine.dropWhile (·.operator.yieldsTo d)) right (apart.of_infix behind)
    rw [Trailer.tree, h, parts]
    simp [Frame.opened, Frame.source_plug, Expression.source_settled, Trailer.items]

theorem source_phrases :
    (ps : List (Phrase table)) → (∀ items ∈ Phrase.itemsAll ps, Apart items) →
      Expression.sourceAll (Phrase.trees ps) = Phrase.itemsAll ps
  | [], _ => rfl
  | p :: ps, apart => by
    have first := source_phrase [] p (apart _ List.mem_cons_self)
    have later := source_phrases ps fun items h => apart items (List.mem_cons_of_mem _ h)
    rw [Phrase.trees, Expression.sourceAll, first, later]
    rfl

end

end Calculator
