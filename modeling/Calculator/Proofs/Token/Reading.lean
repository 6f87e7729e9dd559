import Calculator.Derivation.Items
import Calculator.Proofs.Except
import Calculator.Proofs.Grammar.Enclosed
import Calculator.Proofs.Grammar.Turn

namespace Calculator.Token

/-- The number of arguments that come behind the opening parenthesis of a call. -/
def arity (back : List Token) : Nat :=
  if back.head?.any (·.kind = .closeParen) then 0 else directCommas 0 (inside 0 back) + 1

theorem arity_le (back : List Token) : arity back ≤ back.length + 1 := by
  unfold arity
  split
  · exact Nat.zero_le _
  · exact Nat.succ_le_succ (Nat.le_trans (directCommas_le 0 _) (length_inside_le 0 back))

/-- An opening parenthesis between these tokens. An argument list that ends in a comma is refused
with the number of the argument that is left out. -/
def openingIn (table : OperatorTable) (front back : List Token) : Except ReadError Item :=
  if endsInComma (inside 0 back) then
    .error (.emptyArgument ((front.getLast?.map text).getD "")
      ((arguments 0 (inside 0 back)).countP (!·.isEmpty) + 1))
  else if Turn.behind table front = .trailer then .ok (.call (arity back))
  else .ok .openParen

/-- The item that a token stands for between these tokens. -/
def itemIn (table : OperatorTable) (front : List Token) (token : Token) (back : List Token) :
    Except ReadError Item :=
  match token.kind with
  | .number | .name => Derivation.value token
  | .operator =>
    (table.find token.text ((Turn.behind table front).position table token.text)).map .operator
  | .openParen => openingIn table front back
  | .closeParen => .ok .closeParen
  | .comma => .ok .comma

/-- The items of tokens between others, one for each. -/
def itemsIn (table : OperatorTable) (front : List Token) :
    List Token → List Token → Except ReadError (List Item)
  | [], _ => .ok []
  | t :: ts, back => do
    let first ← t.itemIn table front (ts ++ back)
    let later ← itemsIn table (front ++ [t]) ts back
    return first :: later

/-- The last result, where a line begins with an operator that may stand between operands and not
before one. -/
def impliedItems (table : OperatorTable) (tokens : List Token) : List Item :=
  if tokens.head?.any fun t =>
      t.kind = .operator ∧ table.supports t.text .between ∧ ¬ table.supports t.text .before then
    [.name answerName]
  else []

section

variable {table : OperatorTable} {front tokens back : List Token}

theorem itemsIn_append (table : OperatorTable) (front xs ys back : List Token) :
    itemsIn table front (xs ++ ys) back = do
      let first ← itemsIn table front xs (ys ++ back)
      let later ← itemsIn table (front ++ xs) ys back
      return first ++ later := by
  induction xs generalizing front with
  | nil => cases h : itemsIn table front ys back <;> simp [itemsIn, h]
  | cons x xs ih => simp [itemsIn, ih]

theorem itemsIn_singleton (table : OperatorTable) (front back : List Token) (token : Token) :
    itemsIn table front [token] back = (token.itemIn table front back).map ([·]) := by
  simp only [itemsIn, List.nil_append]
  cases token.itemIn table front back <;> rfl

theorem length_itemsIn {items : List Item} (h : itemsIn table front tokens back = .ok items) :
    items.length = tokens.length := by
  induction tokens generalizing front items with
  | nil => simp [← Except.ok.inj h]
  | cons t ts ih =>
    obtain ⟨first, -, h⟩ := bind_eq_ok.mp h
    obtain ⟨later, hl, h⟩ := bind_eq_ok.mp h
    simp [← Except.ok.inj h, ih hl]

/-- Every token has its item at its own place. -/
theorem getElem?_itemsIn {items : List Item} (h : itemsIn table front tokens back = .ok items)
    {xs ys : List Token} {t : Token} (split : tokens = xs ++ t :: ys) :
    ∃ item, items[xs.length]? = some item ∧
      t.itemIn table (front ++ xs) (ys ++ back) = .ok item := by
  rw [split, itemsIn_append] at h
  obtain ⟨first, hf, h⟩ := bind_eq_ok.mp h
  obtain ⟨rest, hr, h⟩ := bind_eq_ok.mp h
  obtain ⟨item, found, hr⟩ := bind_eq_ok.mp hr
  obtain ⟨later, -, hr⟩ := bind_eq_ok.mp hr
  obtain rfl := Except.ok.inj h
  obtain rfl := Except.ok.inj hr
  have place := length_itemsIn hf
  exact ⟨item, by simp [← place], found⟩

/-- Every item is that of a token at its own place. -/
theorem exists_of_mem_itemsIn {items : List Item} (h : itemsIn table front tokens back = .ok items)
    {item : Item} (present : item ∈ items) :
    ∃ xs t ys, tokens = xs ++ t :: ys ∧
      t.itemIn table (front ++ xs) (ys ++ back) = .ok item := by
  induction tokens generalizing front items with
  | nil =>
    cases h
    cases present
  | cons t ts ih =>
    obtain ⟨first, here, h⟩ := bind_eq_ok.mp h
    obtain ⟨later, behind, h⟩ := bind_eq_ok.mp h
    obtain rfl := Except.ok.inj h
    rcases List.mem_cons.mp present with rfl | present
    · exact ⟨[], t, ts, rfl, by simpa using here⟩
    · obtain ⟨xs, t', ys, rfl, found⟩ := ih behind present
      exact ⟨t :: xs, t', ys, rfl, by simpa using found⟩

/-- The first token that has no item is the one that the error is about. -/
theorem itemsIn_eq_error {e : ReadError} (h : itemsIn table front tokens back = .error e) :
    ∃ xs t ys items, tokens = xs ++ t :: ys ∧
      itemsIn table front xs (t :: ys ++ back) = .ok items ∧
      t.itemIn table (front ++ xs) (ys ++ back) = .error e := by
  induction tokens generalizing front with
  | nil => cases h
  | cons t ts ih =>
    rw [itemsIn] at h
    cases here : t.itemIn table front (ts ++ back) with
    | error e' =>
      obtain rfl : e' = e := by simpa [here] using h
      exact ⟨[], t, ts, [], rfl, rfl, by simpa using here⟩
    | ok first =>
      have later : itemsIn table (front ++ [t]) ts back = .error e := by
        cases hl : itemsIn table (front ++ [t]) ts back <;> simp_all
      obtain ⟨xs, t', ys, items, rfl, before, failed⟩ := ih later
      refine ⟨t :: xs, t', ys, first :: items, rfl, ?_, by simpa using failed⟩
      simp_all [itemsIn]

end

end Calculator.Token
