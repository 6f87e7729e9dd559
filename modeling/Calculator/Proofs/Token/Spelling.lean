import Calculator.Item
import Calculator.Proofs.Except
import Calculator.Token
import Mathlib.Data.List.Forall2
import Mathlib.Data.List.TakeWhile

namespace Calculator

open Token

/-- A token of this class and text stands for an item, in one place of a line or another. -/
def Item.SpelledBy (kind : Kind) (text : String) : Item → Prop
  | .literal n => kind = .number ∧ Number.ofText? text = some n
  | .name x => kind = .name ∧ text = x
  | .operator d => kind = .operator ∧ text = d.symbol
  | .call _ | .openParen => kind = .openParen
  | .closeParen => kind = .closeParen
  | .comma => kind = .comma

/-- The tokens stand for the items, one by one. -/
abbrev Item.Spelled (items : List Item) (tokens : List Token) : Prop :=
  List.Forall₂ (fun item token => item.SpelledBy token.kind token.text) items tokens

theorem Item.spelled_append {xs ys : List Item} {tokens : List Token} :
    Spelled (xs ++ ys) tokens → ∃ first later, Spelled xs first ∧ Spelled ys later ∧
      tokens = first ++ later := by
  intro h
  have front := List.forall₂_take_append tokens xs ys h.flip
  have back := List.forall₂_drop_append tokens xs ys h.flip
  exact ⟨_, _, front.flip, back.flip, (List.take_append_drop _ tokens).symm⟩

namespace Token

/-- A text that is cut into tokens that stand for the items. -/
inductive Spells : List Char → List Item → Prop
  | done : Spells [] []
  | blank {c : Char} {rest : List Char} {items : List Item} (h : isBlank c = true)
    (later : Spells rest items) : Spells (c :: rest) items
  | token {kind : Kind} {lexeme rest : List Char} {item : Item} {items : List Item}
    (longest : front? (lexeme ++ rest) = some (kind, lexeme))
    (spelled : item.SpelledBy kind (String.ofList lexeme)) (later : Spells rest items) :
    Spells (lexeme ++ rest) (item :: items)

section Longest

variable {rest : List Char}

/-- What may come behind a name or digits without making them longer. -/
def Ends (rest : List Char) : Prop := ∀ c ∈ rest.head?, isNameRest c = false ∧ c ≠ '.'

/-- What may come behind an operator without making it longer. -/
def Unpaired (rest : List Char) : Prop := ∀ c ∈ rest.head?, ∀ pair ∈ pairs, pair.2 ≠ c

/-- A letter or an underscore, and then letters, digits and underscores. -/
def IsName : List Char → Prop
  | [] => False
  | c :: r => isNameStart c = true ∧ ∀ d ∈ r, isNameRest d = true

theorem isNameRest_of_isNameStart {c : Char} (h : isNameStart c = true) : isNameRest c = true := by
  simp only [isNameStart, isNameRest, Char.isAlphanum, Bool.or_eq_true] at h ⊢
  exact h.imp_left .inl

theorem IsName.word {word : List Char} (h : IsName word) :
    word ≠ [] ∧ ∀ c ∈ word, isNameRest c = true := by
  match word with
  | c :: r =>
    exact ⟨List.cons_ne_nil c r, List.forall_mem_cons.mpr ⟨isNameRest_of_isNameStart h.1, h.2⟩⟩

theorem isNameRest_of_isDigit {c : Char} (h : c.isDigit = true) : isNameRest c = true := by
  simp [isNameRest, Char.isAlphanum, h]

/-- Names do not begin as numerals do. -/
theorem not_isDigit_of_isNameStart {c : Char} (h : isNameStart c = true) : c.isDigit = false := by
  apply Bool.eq_false_iff.mpr
  intro digit
  have low : c.val.toNat ≤ 57 := (Char.isDigit_iff_toNat.mp digit).2
  have high : 65 ≤ c.val.toNat := by
    rcases (Bool.or_eq_true _ _).mp h with letter | underscore
    · rcases (Bool.or_eq_true _ _).mp letter with upper | lower
      · exact UInt32.le_iff_toNat_le.mp (of_decide_eq_true upper).1
      · obtain ⟨least, -⟩ := (Bool.and_eq_true _ _).mp lower
        exact Nat.le_trans (by decide) (UInt32.le_iff_toNat_le.mp (of_decide_eq_true least))
    · obtain rfl : c = '_' := of_decide_eq_true underscore
      decide
  omega

/-- What cannot go on with a name is neither a digit nor the beginning of a name. -/
theorem plain_of_not_isNameRest {c : Char} (h : isNameRest c = false) :
    c.isDigit = false ∧ isNameStart c = false := by
  refine ⟨Bool.eq_false_iff.mpr fun digit => ?_, Bool.eq_false_iff.mpr fun starts => ?_⟩
  · simp [isNameRest_of_isDigit digit] at h
  · simp [isNameRest_of_isNameStart starts] at h

theorem ne_point_of_isNameStart {c : Char} (h : isNameStart c = true) : c ≠ '.' := by
  rintro rfl
  exact absurd h (by decide)

/-- Punctuation is settled by one character. -/
theorem punctuation_cons (c : Char) (rest : List Char) :
    punctuation (c :: rest) = punctuation [c] := by
  unfold punctuation
  split <;> split <;> simp_all

theorem punctuation_eq_none {c : Char} (h : isNameRest c = true) :
    punctuation (c :: rest) = none := by
  have other (d : Char) (hd : isNameRest d = false) : c ≠ d := by
    rintro rfl
    simp [h] at hd
  simp [punctuation, other '(' rfl, other ')' rfl, other ',' rfl]

theorem takeWhile_of_ends {p : Char → Bool} (hp : ∀ c, p c = true → isNameRest c = true)
    {word : List Char} (h : ∀ c ∈ word, p c = true) (ends : Ends rest) :
    (word ++ rest).takeWhile p = word ∧ (word ++ rest).dropWhile p = rest := by
  rw [List.takeWhile_append_of_pos h, List.dropWhile_append_of_pos h]
  cases rest with
  | nil => simp
  | cons c r =>
    have stop : p c = false := Bool.eq_false_iff.mpr fun more => by
      have := (ends c rfl).1
      simp [hp c more] at this
    simp [stop]

theorem front?_name {word : List Char} (h : IsName word) (ends : Ends rest) :
    front? (word ++ rest) = some (.name, word) := by
  match word with
  | c :: r =>
    obtain ⟨starts, later⟩ := h
    have digit := not_isDigit_of_isNameStart starts
    have point := ne_point_of_isNameStart starts
    have unnumbered : numeral (c :: (r ++ rest)) = [] := by
      simp [numeral, digit, point]
    have whole : identifier (c :: (r ++ rest)) = c :: r := by
      simp [identifier, starts, (takeWhile_of_ends (fun _ => id) later ends).1]
    rw [List.cons_append, front?, punctuation_eq_none (isNameRest_of_isNameStart starts)]
    simp [unnumbered, whole]

theorem front?_digits {digits : List Char} (present : digits ≠ [])
    (h : ∀ c ∈ digits, c.isDigit = true) (ends : Ends rest) :
    front? (digits ++ rest) = some (.number, digits) := by
  obtain ⟨front, back⟩ := takeWhile_of_ends (fun _ => isNameRest_of_isDigit) h ends
  have found : numeral (digits ++ rest) = digits := by
    rw [numeral, front, back]
    split
    · contradiction
    · next r _ => exact absurd rfl (ends '.' rfl).2
    · rfl
  obtain ⟨c, r, rfl⟩ := List.exists_cons_of_ne_nil present
  have none : punctuation (c :: r ++ rest) = none :=
    punctuation_eq_none (isNameRest_of_isDigit (h c List.mem_cons_self))
  rw [front?, none, found]
  simp

/-- Every operator of the standard table is a single sign or a pair. -/
theorem standard_symbol {d : Operator} (h : d ∈ OperatorTable.standard.definitions) :
    (∃ c ∈ singles, d.symbol.toList = [c]) ∨
      ∃ pair ∈ pairs, d.symbol.toList = [pair.1, pair.2] := by
  have signs : ∀ d ∈ OperatorTable.standard.definitions,
      operatorSign d.symbol.toList = d.symbol.toList ∧ d.symbol.toList ≠ [] := by decide
  obtain ⟨sign, present⟩ := signs d h
  generalize d.symbol.toList = text at sign present
  match text with
  | [c] =>
    have single : c ∈ singles := by simpa [operatorSign] using sign
    exact .inl ⟨c, single, rfl⟩
  | c :: e :: r =>
    rw [operatorSign] at sign
    split at sign
    · next paired =>
      obtain rfl : r = [] := by simpa using sign.symm
      exact .inr ⟨(c, e), paired, rfl⟩
    · split at sign <;> simp at sign

/-- No sign is a letter, a digit, a point or a parenthesis. -/
theorem sign_char {c : Char} (h : c ∈ singles ∨ ∃ pair ∈ pairs, pair.1 = c) :
    punctuation [c] = none ∧ isNameRest c = false ∧ c ≠ '.' := by
  have signs : ((singles ++ pairs.map Prod.fst).all fun c =>
      punctuation [c] = none ∧ isNameRest c = false ∧ c ≠ '.') = true := by decide
  have member : c ∈ singles ++ pairs.map Prod.fst := by simpa using h
  exact of_decide_eq_true (List.all_eq_true.mp signs c member)

theorem front?_sign {c : Char} (h : c ∈ singles ∨ ∃ pair ∈ pairs, pair.1 = c)
    (present : operatorSign (c :: rest) ≠ []) :
    front? (c :: rest) = some (.operator, operatorSign (c :: rest)) := by
  obtain ⟨unpunctuated, other, point⟩ := sign_char h
  obtain ⟨digit, letter⟩ := plain_of_not_isNameRest other
  rw [front?, punctuation_cons, unpunctuated]
  simp [numeral, digit, point, identifier, letter, present]

theorem front?_operator {d : Operator} (h : d ∈ OperatorTable.standard.definitions)
    (unpaired : Unpaired rest) :
    front? (d.symbol.toList ++ rest) = some (.operator, d.symbol.toList) := by
  rcases standard_symbol h with ⟨c, hc, symbol⟩ | ⟨⟨c, e⟩, hp, symbol⟩
  · have sign : operatorSign (c :: rest) = [c] := by
      cases rest with
      | nil => simp [operatorSign, hc]
      | cons e r =>
        have apart : (c, e) ∉ pairs := fun hp => unpaired e rfl _ hp rfl
        simp [operatorSign, apart, hc]
    rw [symbol, List.singleton_append, front?_sign (.inl hc) (by simp [sign]), sign]
  · have sign : operatorSign (c :: e :: rest) = [c, e] := by
      simp [operatorSign, hp]
    have first : ∃ pair ∈ pairs, pair.1 = c := ⟨(c, e), hp, rfl⟩
    rw [symbol, List.cons_append, List.singleton_append,
      front?_sign (.inr first) (by simp [sign]), sign]

/-- An operator ends what stands in front of it. -/
theorem ends_operator {d : Operator} (h : d ∈ OperatorTable.standard.definitions) :
    Ends (d.symbol.toList ++ rest) := by
  rcases standard_symbol h with ⟨c, hc, symbol⟩ | ⟨pair, hp, symbol⟩
  · simpa [Ends, symbol] using (sign_char (.inl hc)).2
  · simpa [Ends, symbol] using (sign_char (.inr ⟨pair, hp, rfl⟩)).2

/-- No pair of signs ends in a letter or digit. -/
theorem unpaired_word {word : List Char} (present : word ≠ [])
    (h : ∀ c ∈ word, isNameRest c = true) : Unpaired (word ++ rest) := by
  have seconds : ∀ pair ∈ pairs, isNameRest pair.2 = false := by decide
  obtain ⟨c, r, rfl⟩ := List.exists_cons_of_ne_nil present
  rintro d hd pair hp rfl
  obtain rfl : c = pair.2 := by simpa using hd
  simp [seconds pair hp] at h

theorem ends_cons {c : Char} (h : isNameRest c = false ∧ c ≠ '.') : Ends (c :: rest) := by
  rintro d hd
  obtain rfl : c = d := by simpa using hd
  exact h

theorem unpaired_cons {c : Char} (h : ∀ pair ∈ pairs, pair.2 ≠ c) : Unpaired (c :: rest) := by
  rintro d hd
  obtain rfl : c = d := by simpa using hd
  exact h

end Longest

section Spelling

variable {rest : List Char} {items : List Item}

theorem Spells.openParen (later : Spells rest items) : Spells ('(' :: rest) (.openParen :: items) :=
  show Spells (['('] ++ rest) _ from .token rfl rfl later

theorem Spells.call (arity : Nat) (later : Spells rest items) :
    Spells ('(' :: rest) (.call arity :: items) :=
  show Spells (['('] ++ rest) _ from .token rfl rfl later

theorem Spells.closeParen (later : Spells rest items) :
    Spells (')' :: rest) (.closeParen :: items) :=
  show Spells ([')'] ++ rest) _ from .token rfl rfl later

theorem Spells.comma (later : Spells rest items) : Spells (',' :: rest) (.comma :: items) :=
  show Spells ([','] ++ rest) _ from .token rfl rfl later

theorem Spells.operator {d : Operator} (h : d ∈ OperatorTable.standard.definitions)
    (unpaired : Unpaired rest) (later : Spells rest items) :
    Spells (d.symbol.toList ++ rest) (.operator d :: items) :=
  .token (front?_operator h unpaired) ⟨rfl, String.ofList_toList⟩ later

theorem Spells.name {x : String} (h : IsName x.toList) (ends : Ends rest)
    (later : Spells rest items) : Spells (x.toList ++ rest) (.name x :: items) :=
  .token (front?_name h ends) ⟨rfl, String.ofList_toList⟩ later

theorem Spells.literal {text : String} {n : Number} (present : text.toList ≠ [])
    (digits : ∀ c ∈ text.toList, c.isDigit = true) (read : Number.ofText? text = some n)
    (ends : Ends rest) (later : Spells rest items) :
    Spells (text.toList ++ rest) (.literal n :: items) :=
  .token (front?_digits present digits ends) ⟨rfl, by rw [String.ofList_toList, read]⟩ later

end Spelling

/-- A blank is no part of any token. -/
theorem blank_char {c : Char} (h : isBlank c = true) : punctuation [c] = none ∧
    isNameRest c = false ∧ c ≠ '.' ∧ c ∉ singles ∧ ∀ pair ∈ pairs, pair.1 ≠ c ∧ pair.2 ≠ c := by
  have plain : ([' ', '\t', '\r', '\n', '\x0c'].all fun c => punctuation [c] = none ∧
      isNameRest c = false ∧ c ≠ '.' ∧ c ∉ singles ∧
        ∀ pair ∈ pairs, pair.1 ≠ c ∧ pair.2 ≠ c) = true := by decide
  have member : c ∈ [' ', '\t', '\r', '\n', '\x0c'] := by
    simpa [isBlank, or_assoc] using h
  exact of_decide_eq_true (List.all_eq_true.mp plain c member)

/-- No token begins with a blank. -/
theorem front?_of_blank {c : Char} (h : isBlank c = true) (rest : List Char) :
    front? (c :: rest) = none := by
  obtain ⟨unpunctuated, other, point, single, unpaired⟩ := blank_char h
  obtain ⟨digit, letter⟩ := plain_of_not_isNameRest other
  have sign : operatorSign (c :: rest) = [] := by
    cases rest with
    | nil => simp [operatorSign, single]
    | cons e r =>
      have apart : (c, e) ∉ pairs := fun paired => (unpaired _ paired).1 rfl
      simp [operatorSign, apart, single]
  rw [front?, punctuation_cons, unpunctuated]
  simp [numeral, digit, point, identifier, letter, sign]

/-- Scanning takes the token at the front and goes on behind it. -/
theorem scanFrom_front? {kind : Kind} {lexeme rest : List Char}
    (longest : front? (lexeme ++ rest) = some (kind, lexeme)) (place : Nat) :
    scanFrom place (lexeme ++ rest) = (scanFrom (place + byteLength lexeme) rest).map
      (⟨kind, String.ofList lexeme, place, place + byteLength lexeme⟩ :: ·) := by
  obtain ⟨c, r, rfl⟩ := List.exists_cons_of_ne_nil (front?_ne_nil longest)
  rw [List.cons_append] at longest ⊢
  have word : ¬ isBlank c = true := fun blank => by
    simp [front?_of_blank blank] at longest
  have behind : (c :: (r ++ rest)).drop (c :: r).length = rest := List.drop_left
  rw [scanFrom, if_neg word]
  split
  · simp_all
  · next kind' lexeme' found =>
    obtain ⟨rfl, rfl⟩ := Prod.mk.inj (Option.some.inj (longest.symm.trans found))
    simp only [behind]
    cases scanFrom (place + byteLength (c :: r)) rest <;> rfl

/-- Scanning a text that spells items finds their tokens. -/
theorem Spells.scanFrom {text : List Char} {items : List Item} (h : Spells text items)
    (place : Nat) : ∃ tokens, scanFrom place text = .ok tokens ∧ Item.Spelled items tokens := by
  induction h generalizing place with
  | done => exact ⟨[], by rw [Token.scanFrom], .nil⟩
  | blank h later ih =>
    rw [Token.scanFrom, if_pos h]
    exact ih _
  | token longest spelled later ih =>
    obtain ⟨tokens, scanned, standing⟩ := ih _
    exact ⟨_, by rw [scanFrom_front? longest, scanned]; rfl, .cons spelled standing⟩

end Token

end Calculator
