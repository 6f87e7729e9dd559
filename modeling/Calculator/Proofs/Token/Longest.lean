import Calculator.Proofs.Token.Numeral
import Calculator.Proofs.Token.Spelling

namespace Calculator.Token

open Decimal

/-- The texts of a class. -/
def Kind.Matches : Kind → List Char → Prop
  | .number, text => Numeral text
  | .name, text => IsName text
  | .operator, text => (∃ c ∈ singles, text = [c]) ∨ ∃ pair ∈ pairs, text = [pair.1, pair.2]
  | .openParen, text => text = ['(']
  | .closeParen, text => text = [')']
  | .comma, text => text = [',']

/-- At the front of a text, a class has this text, and no class has a longer one. -/
structure Longest (text : List Char) (kind : Kind) (lexeme : List Char) : Prop where
  front : lexeme <+: text
  matched : kind.Matches lexeme
  longest : ∀ (kind' : Kind) (other : List Char), kind'.Matches other → other <+: text →
    other.length ≤ lexeme.length

/-- At the front of a text, no class has a text. -/
def Unmatched (text : List Char) : Prop :=
  ∀ (kind : Kind) (other : List Char), kind.Matches other → ¬ other <+: text

/-- The class that a first character settles. -/
def classOf (c : Char) : Kind :=
  match punctuation [c] with
  | some kind => kind
  | none => if c.isDigit || c = '.' then .number else if isNameStart c then .name else .operator

section Matching

variable {kind : Kind} {text : List Char}

theorem Kind.Matches.ne_nil (h : kind.Matches text) : text ≠ [] := by
  rintro rfl
  cases kind with
  | number =>
    obtain ⟨c, rest, same, -⟩ := Numeral.head h
    cases same
  | name => exact h
  | operator => rcases h with ⟨c, -, same⟩ | ⟨pair, -, same⟩ <;> cases same
  | _ => cases h

theorem Kind.Matches.classOf_eq {c : Char} {rest : List Char} (h : kind.Matches (c :: rest)) :
    classOf c = kind := by
  cases kind with
  | number =>
    rcases Numeral.char h c List.mem_cons_self with digit | rfl
    · simp [classOf, punctuation_eq_none (isNameRest_of_isDigit digit), digit]
    · rfl
  | name =>
    have starts := h.1
    have digit := not_isDigit_of_isNameStart starts
    have point := ne_point_of_isNameStart starts
    simp [classOf, punctuation_eq_none (isNameRest_of_isNameStart starts), digit, point, starts]
  | operator =>
    have sign : c ∈ singles ∨ ∃ pair ∈ pairs, pair.1 = c := by
      rcases h with ⟨d, hd, same⟩ | ⟨pair, hp, same⟩
      · exact .inl ((List.cons.inj same).1 ▸ hd)
      · exact .inr ⟨pair, hp, (List.cons.inj same).1.symm⟩
    obtain ⟨unpunctuated, other, point⟩ := sign_char sign
    obtain ⟨digit, letter⟩ := plain_of_not_isNameRest other
    simp [classOf, unpunctuated, digit, point, letter]
  | _ =>
    obtain ⟨rfl, -⟩ := List.cons.inj h
    rfl

/-- Texts of two classes that begin a text alike are of one class. -/
theorem Kind.Matches.eq_of_front {kind' : Kind} {lexeme other : List Char}
    (h : kind.Matches lexeme) (h' : kind'.Matches other) (front : lexeme <+: text)
    (front' : other <+: text) : kind = kind' := by
  obtain ⟨c, rest, rfl⟩ := List.exists_cons_of_ne_nil h.ne_nil
  obtain ⟨c', rest', rfl⟩ := List.exists_cons_of_ne_nil h'.ne_nil
  obtain ⟨later, rfl⟩ := front
  obtain ⟨rfl, -⟩ := List.cons_prefix_cons.mp front'
  exact h.classOf_eq.symm.trans h'.classOf_eq

end Matching

/-- A part of the front of a text that is empty or of a class, and as long as any of the class. -/
structure Cuts (kind : Kind) (text lexeme : List Char) : Prop where
  front : lexeme <+: text
  matched : lexeme ≠ [] → kind.Matches lexeme
  longest : ∀ other, kind.Matches other → other <+: text → other.length ≤ lexeme.length

theorem length_le_takeWhile {p : Char → Bool} {word rest : List Char} (h : ∀ c ∈ word, p c = true) :
    word.length ≤ ((word ++ rest).takeWhile p).length := by
  rw [List.takeWhile_append_of_pos h, List.length_append]
  exact Nat.le_add_right _ _

theorem length_digits_le_numeral (text : List Char) :
    (text.takeWhile Char.isDigit).length ≤ (numeral text).length := by
  unfold numeral
  split
  · next none _ => simp [none]
  · simp
  · exact Nat.le_refl _

theorem cuts_numeral (text : List Char) : Cuts .number text (numeral text) where
  front := by
    have whole := List.takeWhile_append_dropWhile (p := Char.isDigit) (l := text)
    unfold numeral
    split
    · next r digits point =>
      rw [digits, point, List.nil_append] at whole
      split
      · exact List.nil_prefix
      · rw [← whole]
        exact (List.cons_prefix_cons).mpr ⟨rfl, List.takeWhile_prefix _⟩
    · next r point _ =>
      rw [point] at whole
      conv_rhs => rw [← whole]
      exact (List.prefix_append_right_inj _).mpr
        ((List.cons_prefix_cons).mpr ⟨rfl, List.takeWhile_prefix _⟩)
    · exact List.takeWhile_prefix _
  matched := (numeral_eq_nil_or text).resolve_left
  longest := by
    rintro other h ⟨rest, rfl⟩
    cases h with
    | whole present digits =>
      exact Nat.le_trans (length_le_takeWhile digits) (length_digits_le_numeral _)
    | @pointed digits fraction present hd hf =>
      obtain ⟨front, back⟩ := takeWhile_pointed hd (fraction ++ rest)
      have later : fraction.length ≤ ((fraction ++ rest).takeWhile Char.isDigit).length :=
        length_le_takeWhile hf
      rw [List.append_assoc, List.cons_append, numeral, front, back]
      split
      · next r same =>
        obtain rfl := (List.cons.inj same).2
        split
        · next none =>
          have empty : fraction = [] := List.eq_nil_of_length_eq_zero (by simpa [none] using later)
          exact absurd empty (present.resolve_left (fun some => some rfl))
        · simpa using later
      · next r _ same =>
        obtain rfl := (List.cons.inj same).2
        simpa using later
      · next pointless _ => exact absurd rfl (pointless _)

theorem cuts_identifier (text : List Char) : Cuts .name text (identifier text) where
  front := by
    unfold identifier
    split
    · split
      · exact (List.cons_prefix_cons).mpr ⟨rfl, List.takeWhile_prefix _⟩
      · exact List.nil_prefix
    · exact List.nil_prefix
  matched := by
    unfold identifier
    intro present
    split
    · next c r =>
      split
      · next starts => exact ⟨starts, List.all_eq_true.mp List.all_takeWhile⟩
      · simp_all
    · simp_all
  longest := by
    rintro other h ⟨rest, rfl⟩
    match other with
    | c :: r =>
      obtain ⟨starts, later⟩ := h
      rw [List.cons_append, identifier, if_pos starts]
      exact Nat.succ_le_succ (length_le_takeWhile later)

theorem cuts_operatorSign (text : List Char) : Cuts .operator text (operatorSign text) where
  front := by
    unfold operatorSign
    repeat' split
    all_goals simp
  matched := by
    unfold operatorSign
    intro present
    split
    · next c d r =>
      split
      · next paired => exact .inr ⟨(c, d), paired, rfl⟩
      · split
        · next single => exact .inl ⟨c, single, rfl⟩
        · simp_all
    · next c =>
      split
      · next single => exact .inl ⟨c, single, rfl⟩
      · simp_all
    · simp_all
  longest := by
    rintro other (⟨c, single, rfl⟩ | ⟨⟨c, d⟩, paired, rfl⟩) ⟨rest, rfl⟩
    · cases rest with
      | nil => simp [operatorSign, single]
      | cons d r =>
        rw [List.singleton_append, operatorSign]
        split
        · simp
        · simp
    · simp [operatorSign, paired]

theorem cuts_punctuation {text : List Char} {kind : Kind} (h : punctuation text = some kind) :
    Cuts kind text (text.take 1) where
  front := List.take_prefix 1 text
  matched := by
    unfold punctuation at h
    split at h <;> cases h <;> exact fun _ => rfl
  longest := by
    unfold punctuation at h
    split at h <;> cases h
    all_goals
      rintro other rfl -
      exact Nat.le_refl 1

theorem Cuts.toLongest {text lexeme : List Char} {kind : Kind} (h : Cuts kind text lexeme)
    (present : lexeme ≠ []) : Longest text kind lexeme where
  front := h.front
  matched := h.matched present
  longest kind' other matched front := by
    obtain rfl := (h.matched present).eq_of_front matched h.front front
    exact h.longest other matched front

theorem Cuts.unmatched {text other : List Char} {kind : Kind} (h : Cuts kind text [])
    (matched : kind.Matches other) : ¬ other <+: text := fun front =>
  matched.ne_nil (List.eq_nil_of_length_eq_zero (Nat.le_zero.mp (h.longest other matched front)))

/-- The longest token at the front of a text is the only one. -/
theorem Longest.unique {text lexeme lexeme' : List Char} {kind kind' : Kind}
    (h : Longest text kind lexeme) (h' : Longest text kind' lexeme') :
    kind = kind' ∧ lexeme = lexeme' := by
  refine ⟨h.matched.eq_of_front h'.matched h.front h'.front, ?_⟩
  have shorter := h'.longest kind lexeme h.matched h.front
  have longer := h.longest kind' lexeme' h'.matched h'.front
  exact (List.prefix_of_prefix_length_le h.front h'.front shorter).eq_of_length_le longer

theorem longest_of_front? {text lexeme : List Char} {kind : Kind}
    (h : front? text = some (kind, lexeme)) : Longest text kind lexeme := by
  have present := front?_ne_nil h
  unfold front? at h
  split at h
  · next kind' found =>
    cases h
    exact (cuts_punctuation found).toLongest present
  · repeat' split at h
    all_goals cases h
    · exact (cuts_numeral text).toLongest present
    · exact (cuts_identifier text).toLongest present
    · exact (cuts_operatorSign text).toLongest present

theorem unmatched_of_front? {text : List Char} (h : front? text = none) : Unmatched text := by
  unfold front? at h
  repeat' split at h
  all_goals cases h
  next unpunctuated number name operator =>
  have number := cuts_numeral text
  have name := cuts_identifier text
  have operator := cuts_operatorSign text
  simp_all only [ne_eq, not_not]
  rintro kind other matched
  cases kind with
  | number => exact number.unmatched matched
  | name => exact name.unmatched matched
  | operator => exact operator.unmatched matched
  | _ =>
    obtain rfl : other = [_] := matched
    rintro ⟨rest, rfl⟩
    cases unpunctuated

/-- What is found at the front is the longest token there. -/
theorem front?_eq_some_iff {text lexeme : List Char} {kind : Kind} :
    front? text = some (kind, lexeme) ↔ Longest text kind lexeme := by
  refine ⟨longest_of_front?, fun h => ?_⟩
  cases found : front? text with
  | none => exact absurd h.front (unmatched_of_front? found kind lexeme h.matched)
  | some token =>
    obtain ⟨rfl, rfl⟩ := h.unique (longest_of_front? found)
    rfl

theorem front?_eq_none_iff {text : List Char} : front? text = none ↔ Unmatched text := by
  refine ⟨unmatched_of_front?, fun h => ?_⟩
  cases found : front? text with
  | none => rfl
  | some token =>
    have longest := longest_of_front? found
    exact absurd longest.front (h _ _ longest.matched)

end Calculator.Token
