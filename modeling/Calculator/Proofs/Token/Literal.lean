import Calculator.Proofs.Number
import Calculator.Proofs.Token.Joining
import Mathlib.Data.Nat.Digits.Defs

namespace Calculator

namespace Decimal

/-- What the digits of a text stand for, the last of them for ones, the one before it for tens. -/
def positional (text : List Char) : ℕ :=
  Nat.ofDigits 10 ((text.filter Char.isDigit).reverse.map digit)

/-- Reading from the first digit on comes to what the places of the digits come to. -/
theorem value_filter_isDigit (text : List Char) :
    value (text.filter Char.isDigit) = positional text := by
  rw [positional, Nat.ofDigits_eq_foldr, List.foldr_map, List.foldr_reverse, value]
  simp only [Nat.cast_id, Nat.add_comm]

end Decimal

open Decimal

namespace Number

variable {text : String}

/-- Digits alone are read as a whole number if 64 bits hold it. -/
theorem ofText?_of_pointless (h : Numeral text.toList) (pointless : '.' ∉ text.toList) :
    ofText? text = ((whole64? (positional text.toList)).map integer).or
      ((read? text.toList).map real) := by
  rw [ofText?]
  generalize text.toList = digits at h pointless
  cases h with
  | whole present all =>
    rw [← value_filter_isDigit, (filter_digits all).1, ← ofDigits?_eq all]
    simp only [if_pos (And.intro present (List.all_eq_true.mpr all))]
    cases ofDigits? digits with
    | none => rfl
    | some n => rfl
  | pointed => exact absurd (List.mem_append_right _ List.mem_cons_self) pointless

/-- With a point they are read as a floating-point number. -/
theorem ofText?_of_point (point : '.' ∈ text.toList) :
    ofText? text = (read? text.toList).map real := by
  have other : ¬ (text.toList ≠ [] ∧ text.toList.all Char.isDigit = true) := fun digits =>
    ne_point (List.all_eq_true.mp digits.2 _ point) rfl
  simp only [ofText?, if_neg other]

theorem ofText?_integer (h : Numeral text.toList) (pointless : '.' ∉ text.toList)
    (inside : positional text.toList ≤ Int64.maxValue.toInt) :
    ∃ n : Int64, n.toInt = positional text.toList ∧ ofText? text = some (integer n) := by
  rw [Int64.toInt_maxValue] at inside
  obtain ⟨n, held⟩ := exists_whole64? (n := positional text.toList) (by omega)
  refine ⟨n, whole64?_eq_some_iff.mp held, ?_⟩
  rw [ofText?_of_pointless h pointless, held]
  rfl

theorem ofText?_real (h : Numeral text.toList)
    (other : '.' ∈ text.toList ∨ Int64.maxValue.toInt < positional text.toList) :
    ofText? text = some (real (nearest (positional text.toList) (-places text.toList))) := by
  have found : (read? text.toList).map real =
      some (real (nearest (positional text.toList) (-places text.toList))) := by
    rw [h.read, value_filter_isDigit]
    rfl
  by_cases point : '.' ∈ text.toList
  · rw [ofText?_of_point point, found]
  · have beyond := other.resolve_left point
    rw [Int64.toInt_maxValue] at beyond
    have outside : whole64? (positional text.toList) = none :=
      whole64?_eq_none_iff.mpr (by omega)
    rw [ofText?_of_pointless h point, outside, found]
    rfl

end Number

namespace Token

/-- A text that scanning can find as a number. -/
def Scannable (text : String) : Prop :=
  ∃ line tokens, scan line = .ok tokens ∧ ∃ token ∈ tokens, token.kind = .number ∧ token.text = text

/-- These texts are the numerals: each is all of a line of its own. -/
theorem scannable_iff {text : String} : Scannable text ↔ Numeral text.toList := by
  constructor
  · rintro ⟨line, tokens, scanned, token, found, number, rfl⟩
    have matched := matches_of_scan scanned token found
    rwa [number] at matched
  · intro numeral
    have matched : Kind.number.Matches text.toList := numeral
    exact ⟨text, _, scan_text matched, _, List.mem_singleton_self _, rfl, rfl⟩

/-- Every such text can be read. -/
theorem Scannable.read {text : String} (h : Scannable text) :
    ∃ n, Number.ofText? text = some n :=
  Number.ofText_numeral (scannable_iff.mp h)

/-- The text of a number that scanning finds is always read. It comes to a whole number exactly where
there is no point and what the digits stand for is not beyond 64 bits, and to no other whole number
than that. In all other cases it comes to a floating-point number, rounded once from the digits and
the places behind the point. -/
theorem literal_of_scannable {text : String} (h : Scannable text) :
    (∃ n, Number.ofText? text = some n) ∧
    (∀ n : Int64, Number.ofText? text = some (.integer n) ↔ '.' ∉ text.toList ∧
      positional text.toList ≤ Int64.maxValue.toInt ∧ n.toInt = positional text.toList) ∧
    ∀ x : Float, Number.ofText? text = some (.real x) ↔
      ('.' ∈ text.toList ∨ Int64.maxValue.toInt < positional text.toList) ∧
      x = nearest (positional text.toList) (-places text.toList) := by
  have numeral := scannable_iff.mp h
  refine ⟨h.read, ?_⟩
  by_cases whole : '.' ∉ text.toList ∧ positional text.toList ≤ Int64.maxValue.toInt
  · obtain ⟨pointless, inside⟩ := whole
    obtain ⟨k, value, read⟩ := Number.ofText?_integer numeral pointless inside
    rw [read]
    refine ⟨fun n => ?_, fun x => ?_⟩
    · have same : k = n ↔ n.toInt = positional text.toList := by
        rw [← value, eq_comm, Int64.toInt_inj]
      simp [same, pointless, inside]
    · simp [pointless, inside]
  · have other : '.' ∈ text.toList ∨ Int64.maxValue.toInt < positional text.toList := by
      rwa [not_and_or, not_not, not_le] at whole
    have read := Number.ofText?_real numeral other
    rw [read]
    refine ⟨fun n => ?_, fun x => ?_⟩
    · simp [← and_assoc, whole]
    · simp [other, eq_comm]

/-- The greatest number is a whole one, also with zeros in front; the next one is not. -/
theorem literal_of_scannable_greatest :
    Scannable "009223372036854775807" ∧
      Number.ofText? "009223372036854775807" = some (.integer Int64.maxValue) ∧
      Scannable "009223372036854775808" ∧
      ∃ x, Number.ofText? "009223372036854775808" = some (.real x) := by
  have digits (text : String) (h : text.toList ≠ [] ∧ text.toList.all Char.isDigit = true) :
      Scannable text :=
    scannable_iff.mpr (.whole h.1 (List.all_eq_true.mp h.2))
  have greatest := digits "009223372036854775807" (by decide)
  have next := digits "009223372036854775808" (by decide)
  refine ⟨greatest, ?_, next, ?_⟩
  · exact ((literal_of_scannable greatest).2.1 _).mpr (by decide)
  · exact ⟨_, ((literal_of_scannable next).2.2 _).mpr ⟨.inr (by decide), rfl⟩⟩

end Token

end Calculator
