import Calculator.Proofs.Token.Scanning

namespace Calculator

/-- An error at a place that many bytes further on. -/
def ReadError.moved (n : Nat) : ReadError → ReadError
  | .unrecognized c place => .unrecognized c (n + place)
  | .misplacedToken token place => .misplacedToken token (n + place)
  | .noExpression token place => .noExpression token (n + place)
  | .trailing token place => .trailing token (n + place)
  | e => e

namespace Token

/-- A token that many bytes further on. -/
def moved (n : Nat) (token : Token) : Token :=
  { token with start := n + token.start, stop := n + token.stop }

@[simp] theorem moved_kind (n : Nat) (token : Token) : (token.moved n).kind = token.kind := rfl

@[simp] theorem moved_text (n : Nat) (token : Token) : (token.moved n).text = token.text := rfl

/-- What scanning comes to, that many bytes further on. -/
def movedAll (n : Nat) : Except ReadError (List Token) → Except ReadError (List Token)
  | .ok tokens => .ok (tokens.map (moved n))
  | .error e => .error (e.moved n)

theorem byteLength_append (xs ys : List Char) :
    byteLength (xs ++ ys) = byteLength xs + byteLength ys := by
  simp only [byteLength_eq, offset_append]

/-- The tokens of a text do not depend on where it starts, but for their places. -/
theorem scanFrom_add (n place : Nat) (text : List Char) :
    scanFrom (n + place) text = movedAll n (scanFrom place text) := by
  induction place, text using scanFrom.induct with
  | case1 place =>
    rw [scanFrom, scanFrom]
    rfl
  | case2 place c r blank ih => rw [scanFrom, scanFrom, if_pos blank, if_pos blank, ← ih, Nat.add_assoc]
  | case3 place c r word none =>
    have word : isBlank c = false := Bool.eq_false_iff.mpr word
    have unmatched := front?_eq_none_iff.mp none
    rw [scanFrom_stuck word unmatched, scanFrom_stuck word unmatched]
    rfl
  | case4 place c r word kind lexeme found present stop ih =>
    obtain ⟨rest, whole⟩ := (front?_eq_some_iff.mp found).front
    rw [← whole] at found ih ⊢
    rw [List.drop_left] at ih
    rw [scanFrom_front? found, scanFrom_front? found, Nat.add_assoc, ih]
    cases scanFrom stop rest <;> rfl

/-- A character that no token goes on with. -/
def Separates (c : Char) : Prop :=
  isNameRest c = false ∧ c ≠ '.' ∧ ∀ pair ∈ pairs, pair.2 ≠ c

instance (c : Char) : Decidable (Separates c) :=
  inferInstanceAs (Decidable (isNameRest c = false ∧ c ≠ '.' ∧ ∀ pair ∈ pairs, pair.2 ≠ c))

theorem separates_of_isBlank {c : Char} (h : isBlank c = true) : Separates c := by
  obtain ⟨-, other, point, -, unpaired⟩ := blank_char h
  exact ⟨other, point, fun pair hp => (unpaired pair hp).2⟩

theorem separated_cons {c : Char} (h : Separates c) (rest : List Char) :
    ∀ d ∈ (c :: rest).head?, Separates d := by
  rintro d hd
  obtain rfl : c = d := by simpa using hd
  exact h

theorem Kind.Matches.not_separates {kind : Kind} {text : List Char} (h : kind.Matches text) :
    ∀ c ∈ text.tail, ¬ Separates c := by
  rintro c hc ⟨other, point, unpaired⟩
  cases kind with
  | number =>
    rcases Decimal.Numeral.char h c (List.mem_of_mem_tail hc) with digit | rfl
    · simp [isNameRest_of_isDigit digit] at other
    · exact point rfl
  | name => simp [(IsName.word h).2 c (List.mem_of_mem_tail hc)] at other
  | operator =>
    rcases h with ⟨d, -, rfl⟩ | ⟨pair, hp, rfl⟩
    · cases hc
    · exact unpaired pair hp (List.mem_singleton.mp hc).symm
  | _ =>
    obtain rfl := h
    cases hc

section Separated

variable {text rest : List Char} (separated : ∀ c ∈ rest.head?, Separates c)

include separated

theorem Kind.Matches.front_of_append {kind : Kind} {other : List Char} (h : kind.Matches other)
    (present : text ≠ []) (front : other <+: text ++ rest) : other <+: text := by
  rcases Nat.le_total other.length text.length with short | long
  · exact List.prefix_of_prefix_length_le front (List.prefix_append text rest) short
  · obtain ⟨more, rfl⟩ := List.prefix_of_prefix_length_le (List.prefix_append text rest) front long
    cases more with
    | nil => simp
    | cons c more =>
      obtain ⟨later, rfl⟩ := (List.prefix_append_right_inj text).mp front
      have behind : c ∈ (text ++ c :: more).tail := by
        rw [List.tail_append_of_ne_nil present]
        simp
      exact absurd (separated c rfl) (h.not_separates c behind)

theorem Longest.append {kind : Kind} {lexeme : List Char} (h : Longest text kind lexeme)
    (present : text ≠ []) : Longest (text ++ rest) kind lexeme where
  front := h.front.trans (List.prefix_append text rest)
  matched := h.matched
  longest kind' other matched front := h.longest kind' other matched
    (matched.front_of_append separated present front)

theorem Unmatched.append (h : Unmatched text) (present : text ≠ []) : Unmatched (text ++ rest) :=
  fun kind other matched front =>
    h kind other matched (matched.front_of_append separated present front)

/-- A line is scanned up to a separator in it, and then from there. -/
theorem scanFrom_append (place : Nat) : scanFrom place (text ++ rest) = do
    let first ← scanFrom place text
    let later ← scanFrom (place + byteLength text) rest
    return first ++ later := by
  induction place, text using scanFrom.induct with
  | case1 place =>
    rw [scanFrom]
    cases h : scanFrom place rest <;> simp [byteLength, h]
  | case2 place c r blank ih =>
    rw [List.cons_append, scanFrom, if_pos blank, ih, byteLength, ← Nat.add_assoc]
    conv_rhs => rw [scanFrom, if_pos blank]
  | case3 place c r word none =>
    have word : isBlank c = false := Bool.eq_false_iff.mpr word
    have unmatched := front?_eq_none_iff.mp none
    have further : Unmatched (c :: (r ++ rest)) :=
      unmatched.append separated (List.cons_ne_nil c r)
    rw [scanFrom_stuck word unmatched, List.cons_append, scanFrom_stuck word further]
    rfl
  | case4 place c r word kind lexeme found present stop ih =>
    have longest := front?_eq_some_iff.mp found
    obtain ⟨behind, whole⟩ := longest.front
    have further :=
      front?_eq_some_iff.mpr (longest.append separated (List.cons_ne_nil c r))
    rw [← whole] at found ih further ⊢
    rw [List.append_assoc] at further ⊢
    rw [List.drop_left] at ih
    have reached : place + byteLength (lexeme ++ behind) = stop + byteLength behind := by
      rw [byteLength_append, ← Nat.add_assoc]
    rw [scanFrom_front? found, scanFrom_front? further, ih, reached]
    cases scanFrom stop behind with
    | error e => rfl
    | ok first => cases scanFrom (stop + byteLength behind) rest <;> simp [Except.map]

end Separated

/-- Blanks behind a line change nothing. -/
theorem scanFrom_trailing {gap : List Char} (blank : ∀ c ∈ gap, isBlank c = true) (place : Nat)
    (text : List Char) : scanFrom place (text ++ gap) = scanFrom place text := by
  have separated : ∀ c ∈ gap.head?, Separates c := fun c hc =>
    separates_of_isBlank (blank c (List.mem_of_mem_head? hc))
  have nothing (place : Nat) : scanFrom place gap = .ok [] := by
    have skipped := scanFrom_blanks blank place []
    rwa [List.append_nil, scanFrom] at skipped
  rw [scanFrom_append separated, nothing]
  cases scanFrom place text <;> simp

end Token

end Calculator
