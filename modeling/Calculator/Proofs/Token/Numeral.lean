import Calculator.Number
import Calculator.Token
import Mathlib.Data.List.TakeWhile

namespace Calculator

namespace Decimal

/-- Digits, at least one in all, with at most one point among them. -/
inductive Numeral : List Char → Prop
  | whole {digits : List Char} (present : digits ≠ []) (h : ∀ c ∈ digits, c.isDigit = true) :
    Numeral digits
  | pointed {digits fraction : List Char} (present : digits ≠ [] ∨ fraction ≠ [])
    (hd : ∀ c ∈ digits, c.isDigit = true) (hf : ∀ c ∈ fraction, c.isDigit = true) :
    Numeral (digits ++ '.' :: fraction)

theorem takeWhile_digits {digits : List Char} (h : ∀ c ∈ digits, c.isDigit = true) :
    digits.takeWhile Char.isDigit = digits ∧ digits.dropWhile Char.isDigit = [] :=
  ⟨List.takeWhile_eq_self_iff.mpr h, List.dropWhile_eq_nil_iff.mpr h⟩

theorem takeWhile_pointed {digits : List Char} (h : ∀ c ∈ digits, c.isDigit = true)
    (fraction : List Char) :
    (digits ++ '.' :: fraction).takeWhile Char.isDigit = digits ∧
      (digits ++ '.' :: fraction).dropWhile Char.isDigit = '.' :: fraction := by
  rw [List.takeWhile_append_of_pos h, List.dropWhile_append_of_pos h]
  simp

/-- A numeral begins with a digit or a point. -/
theorem Numeral.head {text : List Char} (h : Numeral text) :
    ∃ c rest, text = c :: rest ∧ (c.isDigit = true ∨ c = '.') := by
  cases h with
  | whole present h =>
    obtain ⟨c, rest, rfl⟩ := List.exists_cons_of_ne_nil present
    exact ⟨c, rest, rfl, .inl (h c List.mem_cons_self)⟩
  | @pointed digits fraction present hd hf =>
    cases digits with
    | nil => exact ⟨'.', fraction, rfl, .inr rfl⟩
    | cons c rest => exact ⟨c, _, rfl, .inl (hd c List.mem_cons_self)⟩

/-- A numeral has no characters but digits and a point. -/
theorem Numeral.char {text : List Char} (h : Numeral text) :
    ∀ c ∈ text, c.isDigit = true ∨ c = '.' := by
  intro c hc
  cases h with
  | whole present digits => exact .inl (digits c hc)
  | pointed present hd hf =>
    rcases List.mem_append.mp hc with front | back
    · exact .inl (hd c front)
    · rcases List.mem_cons.mp back with rfl | back
      · exact .inr rfl
      · exact .inl (hf c back)

/-- No letter and no sign is a digit or a point. -/
theorem numeral_char {c : Char} (h : c.isDigit = true ∨ c = '.') :
    c.toLower = c ∧ c ≠ 'i' ∧ c ≠ 'n' ∧ c ≠ '-' ∧ c ≠ '+' := by
  have bound : 46 ≤ c.val.toNat ∧ c.val.toNat ≤ 57 := by
    rcases h with h | rfl
    · obtain ⟨least, most⟩ := Char.isDigit_iff_toNat.mp h
      exact ⟨Nat.le_trans (by decide) least, most⟩
    · decide
  have ne (d : Char) (hd : d.val.toNat < 46 ∨ 57 < d.val.toNat) : c ≠ d := by
    rintro rfl
    omega
  refine ⟨dif_neg ?_, ne _ (by decide), ne _ (by decide), ne _ (by decide), ne _ (by decide)⟩
  intro upper
  have low := UInt32.le_iff_toNat_le.mp upper.1
  have : 'A'.val.toNat = 65 := rfl
  omega

/-- A numeral has no sign and is no word. -/
theorem Numeral.plain {text : List Char} (h : Numeral text) :
    unsign text = (false, text) ∧ text.map Char.toLower ≠ "inf".toList ∧
      text.map Char.toLower ≠ "infinity".toList ∧ text.map Char.toLower ≠ "nan".toList := by
  obtain ⟨c, rest, rfl, first⟩ := h.head
  obtain ⟨lower, i, n, minus, plus⟩ := numeral_char first
  refine ⟨?_, ?_, ?_, ?_⟩
  · unfold unsign
    split <;> simp_all
  all_goals
    intro word
    have same := congrArg List.head? word
    simp [lower, i, n] at same

/-- How many characters stand behind the point. -/
def places (text : List Char) : ℕ := (text.dropWhile (· ≠ '.')).tail.length

theorem ne_point {c : Char} (h : c.isDigit = true) : c ≠ '.' := by
  rintro rfl
  cases h

theorem filter_digits {digits : List Char} (h : ∀ c ∈ digits, c.isDigit = true) :
    digits.filter Char.isDigit = digits ∧ places digits = 0 := by
  have pointless : digits.dropWhile (· ≠ '.') = [] :=
    List.dropWhile_eq_nil_iff.mpr fun c hc => decide_eq_true (ne_point (h c hc))
  exact ⟨List.filter_eq_self.mpr h, by rw [places, pointless]; rfl⟩

theorem filter_pointed {digits fraction : List Char} (hd : ∀ c ∈ digits, c.isDigit = true)
    (hf : ∀ c ∈ fraction, c.isDigit = true) :
    (digits ++ '.' :: fraction).filter Char.isDigit = digits ++ fraction ∧
      places (digits ++ '.' :: fraction) = fraction.length := by
  have whole : ∀ c ∈ digits, decide (c ≠ '.') = true := fun c hc =>
    decide_eq_true (ne_point (hd c hc))
  have point : Char.isDigit '.' = false := rfl
  refine ⟨?_, ?_⟩
  · rw [List.filter_append, List.filter_cons, point, (filter_digits hd).1, (filter_digits hf).1]
    rfl
  · rw [places, List.dropWhile_append_of_pos whole]
    rfl

/-- A numeral is read as the nearest floating-point number to its digits, moved behind the point by
as many places as there are digits there. -/
theorem Numeral.read {text : List Char} (h : Numeral text) :
    read? text = some (nearest (value (text.filter Char.isDigit)) (-places text)) := by
  obtain ⟨unsigned, inf, infinity, nan⟩ := h.plain
  simp only [read?, readMagnitude?, unsigned, inf, infinity, nan, or_self, if_false]
  cases h with
  | whole present h =>
    obtain ⟨front, back⟩ := takeWhile_digits h
    obtain ⟨all, none⟩ := filter_digits h
    simp [front, back, present, power?, all, none, signed]
  | @pointed digits fraction present hd hf =>
    obtain ⟨front, back⟩ := takeWhile_pointed hd fraction
    obtain ⟨front', back'⟩ := takeWhile_digits hf
    obtain ⟨all, behind⟩ := filter_pointed hd hf
    have someDigit : ¬ (digits = [] ∧ fraction = []) := fun none =>
      present.elim (· none.1) (· none.2)
    simp [front, back, front', back', someDigit, power?, all, behind, signed]

end Decimal

open Decimal

theorem Number.ofText_numeral {text : String} (h : Numeral text.toList) :
    ∃ n, ofText? text = some n := by
  unfold ofText?
  simp only [h.read]
  split
  · exact ⟨_, rfl⟩
  · exact ⟨_, rfl⟩

namespace Token

theorem numeral_eq_nil_or (text : List Char) : numeral text = [] ∨ Numeral (numeral text) := by
  have digits (text : List Char) : ∀ c ∈ text.takeWhile Char.isDigit, c.isDigit = true :=
    List.all_eq_true.mp List.all_takeWhile
  have given := digits text
  unfold numeral
  split
  · next r _ _ =>
    split
    · exact .inl rfl
    · next present =>
      have none (c : Char) (h : c ∈ []) : c.isDigit = true := by cases h
      have pointed := Numeral.pointed (.inr present) none (digits r)
      exact .inr pointed
  · next r _ nonempty => exact .inr (.pointed (.inl nonempty) given (digits r))
  · by_cases h : text.takeWhile Char.isDigit = []
    · exact .inl h
    · exact .inr (.whole h given)

end Token

end Calculator
