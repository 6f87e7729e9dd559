import Calculator.Token

namespace Calculator.Token

/-- The tokens up to the parenthesis that closes one in front of them, and the closing ones of as
many more. -/
def inside (depth : Nat) : List Token → List Token
  | [] => []
  | t :: ts =>
    match t.kind, depth with
    | .openParen, depth => t :: inside (depth + 1) ts
    | .closeParen, 0 => []
    | .closeParen, depth + 1 => t :: inside depth ts
    | _, depth => t :: inside depth ts

/-- How many commas no parentheses enclose, this many being open in front. -/
def directCommas (depth : Nat) : List Token → Nat
  | [] => 0
  | t :: ts =>
    match t.kind, depth with
    | .openParen, depth => directCommas (depth + 1) ts
    | .closeParen, depth => directCommas (depth - 1) ts
    | .comma, 0 => directCommas 0 ts + 1
    | _, depth => directCommas depth ts

/-- The tokens, cut at the commas that no parentheses enclose. -/
def arguments (depth : Nat) : List Token → List (List Token)
  | [] => [[]]
  | t :: ts =>
    match t.kind, depth with
    | .openParen, depth => (arguments (depth + 1) ts).modifyHead (t :: ·)
    | .closeParen, depth => (arguments (depth - 1) ts).modifyHead (t :: ·)
    | .comma, 0 => [] :: arguments 0 ts
    | _, depth => (arguments depth ts).modifyHead (t :: ·)

theorem length_arguments (depth : Nat) (tokens : List Token) :
    (arguments depth tokens).length = directCommas depth tokens + 1 := by
  induction tokens generalizing depth with
  | nil => rfl
  | cons t ts ih =>
    unfold arguments directCommas
    split <;> simp [ih]

theorem length_inside_le (depth : Nat) (tokens : List Token) :
    (inside depth tokens).length ≤ tokens.length := by
  induction tokens generalizing depth with
  | nil => exact Nat.le_refl 0
  | cons t ts ih =>
    unfold inside
    split <;> simp [ih]

theorem directCommas_le (depth : Nat) (tokens : List Token) :
    directCommas depth tokens ≤ tokens.length := by
  induction tokens generalizing depth with
  | nil => exact Nat.le_refl 0
  | cons t ts ih =>
    unfold directCommas
    split <;> simp [ih, Nat.le_succ_of_le]

def endsInComma (tokens : List Token) : Bool := tokens.getLast?.any (·.kind = .comma)

/-- Every parenthesis has its partner. -/
inductive Balanced : List Token → Prop
  | nil : Balanced []
  | plain {t : Token} (opens : t.kind ≠ .openParen) (closes : t.kind ≠ .closeParen) : Balanced [t]
  | append {xs ys : List Token} (hx : Balanced xs) (hy : Balanced ys) : Balanced (xs ++ ys)
  | enclosed {o c : Token} {xs : List Token} (ho : o.kind = .openParen) (hx : Balanced xs)
    (hc : c.kind = .closeParen) : Balanced (o :: xs ++ [c])

/-- Every parenthesis has its partner and every comma is enclosed. -/
inductive Undivided : List Token → Prop
  | nil : Undivided []
  | plain {t : Token} (opens : t.kind ≠ .openParen) (closes : t.kind ≠ .closeParen)
    (divides : t.kind ≠ .comma) : Undivided [t]
  | append {xs ys : List Token} (hx : Undivided xs) (hy : Undivided ys) : Undivided (xs ++ ys)
  | enclosed {o c : Token} {xs : List Token} (ho : o.kind = .openParen) (hx : Balanced xs)
    (hc : c.kind = .closeParen) : Undivided (o :: xs ++ [c])

section Steps

variable {depth : Nat} {t : Token} {ts : List Token}

theorem inside_opening (h : t.kind = .openParen) :
    inside depth (t :: ts) = t :: inside (depth + 1) ts := by
  simp [inside, h]

theorem inside_closing (h : t.kind = .closeParen) : inside 0 (t :: ts) = [] := by
  simp [inside, h]

theorem inside_closing_succ (h : t.kind = .closeParen) :
    inside (depth + 1) (t :: ts) = t :: inside depth ts := by
  simp [inside, h]

theorem arguments_opening (h : t.kind = .openParen) :
    arguments depth (t :: ts) = (arguments (depth + 1) ts).modifyHead (t :: ·) := by
  simp [arguments, h]

theorem arguments_closing (h : t.kind = .closeParen) :
    arguments (depth + 1) (t :: ts) = (arguments depth ts).modifyHead (t :: ·) := by
  simp [arguments, h]

theorem arguments_comma (h : t.kind = .comma) : arguments 0 (t :: ts) = [] :: arguments 0 ts := by
  simp [arguments, h]

end Steps

section Enclosing

variable {xs ys : List Token}

theorem endsInComma_append (h : ys ≠ []) : endsInComma (xs ++ ys) = endsInComma ys := by
  obtain ⟨before, last, rfl⟩ := (List.eq_nil_or_concat ys).resolve_left h
  simp [endsInComma, ← List.append_assoc]

theorem Undivided.balanced (h : Undivided xs) : Balanced xs := by
  induction h with
  | nil => exact .nil
  | plain opens closes _ => exact .plain opens closes
  | append _ _ hx hy => exact hx.append hy
  | enclosed ho hx hc => exact hx.enclosed ho hc

theorem Undivided.not_endsInComma (h : Undivided xs) : endsInComma xs = false := by
  induction h with
  | nil => rfl
  | plain _ _ divides => simp [endsInComma, divides]
  | @append xs ys _ _ hx hy =>
    by_cases empty : ys = []
    · simpa [empty] using hx
    · rwa [endsInComma_append empty]
  | enclosed _ _ hc =>
    rw [endsInComma_append (List.cons_ne_nil _ _)]
    simp [endsInComma, hc]

theorem Undivided.endsInComma_append (h : Undivided xs) (ys : List Token) :
    endsInComma (xs ++ ys) = endsInComma ys := by
  by_cases empty : ys = []
  · simpa [empty, endsInComma] using h.not_endsInComma
  · exact Token.endsInComma_append empty

/-- What is balanced does not close a parenthesis in front of it. -/
theorem Balanced.inside_append (h : Balanced xs) (depth : Nat) (rest : List Token) :
    inside depth (xs ++ rest) = xs ++ inside depth rest := by
  induction h generalizing depth rest with
  | nil => rfl
  | @plain t opens closes =>
    cases hk : t.kind <;> simp_all [inside]
  | append _ _ hx hy => rw [List.append_assoc, hx, hy, List.append_assoc]
  | enclosed ho _ hc hx =>
    simp [inside_opening ho, hx, inside_closing_succ hc]

/-- A balanced list is what is inside the parentheses around it. -/
theorem Balanced.inside_enclosed (h : Balanced xs) {c : Token} (hc : c.kind = .closeParen)
    (rest : List Token) : inside 0 (xs ++ c :: rest) = xs := by
  rw [h.inside_append, inside_closing hc, List.append_nil]

/-- What stands in parentheses is part of one argument. -/
theorem Balanced.arguments_append (h : Balanced xs) (depth : Nat) (rest : List Token) :
    arguments (depth + 1) (xs ++ rest) = (arguments (depth + 1) rest).modifyHead (xs ++ ·) := by
  induction h generalizing depth rest with
  | nil => exact (congrFun List.modifyHead_id _).symm
  | @plain t opens closes =>
    cases hk : t.kind <;> simp_all [arguments]
  | append _ _ hx hy => simp [hx, hy, Function.comp_def]
  | enclosed ho _ hc hx =>
    simp [arguments_opening ho, hx, arguments_closing hc, Function.comp_def]

/-- A list whose commas are all enclosed is part of one argument. -/
theorem Undivided.arguments_append (h : Undivided xs) (rest : List Token) :
    arguments 0 (xs ++ rest) = (arguments 0 rest).modifyHead (xs ++ ·) := by
  induction h generalizing rest with
  | nil => exact (congrFun List.modifyHead_id _).symm
  | @plain t opens closes divides =>
    cases hk : t.kind <;> simp_all [arguments]
  | append _ _ hx hy => simp [hx, hy, Function.comp_def]
  | enclosed ho hx hc =>
    simp [arguments_opening ho, hx.arguments_append, arguments_closing hc, Function.comp_def]

end Enclosing

section Partners

variable {xs front back : List Token} {t : Token}

/-- An element of two lists, one after the other, is in the first or in the second. -/
theorem append_eq_around {xs ys : List Token} (h : xs ++ ys = front ++ t :: back) :
    (∃ later, xs = front ++ t :: later ∧ back = later ++ ys) ∨
      ∃ before, ys = before ++ t :: back ∧ front = xs ++ before := by
  rcases List.append_eq_append_iff.mp h with ⟨before, rfl, rest⟩ | ⟨later, rfl, rest⟩
  · exact .inr ⟨before, rest, rfl⟩
  · cases later with
    | nil => exact .inr ⟨[], rest.symm, by simp⟩
    | cons z later =>
      obtain ⟨rfl, rfl⟩ := List.cons.inj rest
      exact .inl ⟨later, rfl, rfl⟩

/-- In a balanced list every opening parenthesis is closed. -/
theorem Balanced.closed (h : Balanced xs) (split : xs = front ++ t :: back)
    (ht : t.kind = .openParen) :
    ∃ inner c later, back = inner ++ c :: later ∧ Balanced inner ∧ c.kind = .closeParen := by
  induction h generalizing front back with
  | nil => simp at split
  | plain opens _ =>
    obtain ⟨-, rfl, -⟩ : front = [] ∧ t = _ ∧ back = [] := by
      simpa [List.singleton_eq_append_iff] using split
    contradiction
  | @append _ ys _ _ ihx ihy =>
    rcases append_eq_around split with ⟨later, hx, rfl⟩ | ⟨before, hy, rfl⟩
    · obtain ⟨inner, c, later, rfl, hi, hc⟩ := ihx hx
      exact ⟨inner, c, later ++ ys, by simp, hi, hc⟩
    · exact ihy hy
  | @enclosed o c xs _ hx hc ih =>
    rcases append_eq_around split with ⟨later, hx', rfl⟩ | ⟨before, last, rfl⟩
    · rcases List.cons_eq_append_iff.mp hx' with ⟨rfl, same⟩ | ⟨front, rfl, rest⟩
      · obtain ⟨rfl, rfl⟩ := List.cons.inj same
        exact ⟨_, c, [], rfl, hx, hc⟩
      · obtain ⟨inner, c', later, rfl, hi, hc'⟩ := ih rest
        exact ⟨inner, c', later ++ [c], by simp, hi, hc'⟩
    · obtain ⟨-, rfl, -⟩ : before = [] ∧ t = c ∧ back = [] := by
        simpa [List.singleton_eq_append_iff] using last
      simp [ht] at hc

/-- In a balanced list every closing parenthesis has been opened. -/
theorem Balanced.opened (h : Balanced xs) (split : xs = front ++ t :: back)
    (ht : t.kind = .closeParen) :
    ∃ before o inner, front = before ++ o :: inner ∧ Balanced inner ∧ o.kind = .openParen := by
  induction h generalizing front back with
  | nil => simp at split
  | plain _ closes =>
    obtain ⟨-, rfl, -⟩ : front = [] ∧ t = _ ∧ back = [] := by
      simpa [List.singleton_eq_append_iff] using split
    contradiction
  | @append xs _ _ _ ihx ihy =>
    rcases append_eq_around split with ⟨later, hx, rfl⟩ | ⟨before, hy, rfl⟩
    · exact ihx hx
    · obtain ⟨before, o, inner, rfl, hi, ho⟩ := ihy hy
      exact ⟨xs ++ before, o, inner, by simp, hi, ho⟩
  | @enclosed o c xs ho hx hc ih =>
    rcases append_eq_around split with ⟨later, hx', rfl⟩ | ⟨before, last, rfl⟩
    · rcases List.cons_eq_append_iff.mp hx' with ⟨rfl, same⟩ | ⟨front, rfl, rest⟩
      · obtain ⟨rfl, rfl⟩ := List.cons.inj same
        simp [ht] at ho
      · obtain ⟨before, o', inner, rfl, hi, ho'⟩ := ih rest
        exact ⟨o :: before, o', inner, by simp, hi, ho'⟩
    · obtain ⟨rfl, rfl, rfl⟩ : before = [] ∧ t = c ∧ back = [] := by
        simpa [List.singleton_eq_append_iff] using last
      exact ⟨[], o, xs, by simp, hx, ho⟩

end Partners

end Calculator.Token
