import Calculator.Proofs.Arithmetic.Division
import Calculator.Proofs.Arithmetic.Product
import Calculator.Proofs.Except
import Calculator.Proofs.Exact

namespace Calculator

open Exact (Stop)

/-- Whether 64 bits hold a whole number. -/
def Exact.Fits (n : Int) : Prop := -2 ^ 63 ≤ n ∧ n < 2 ^ 63

/-- The number is whole and has this value. -/
def Number.Is (x : Number) (n : Int) : Prop := ∃ k : Int64, x = .integer k ∧ k.toInt = n

/-- A computation with 64 bits follows an exact one: it finds what stands for the exact result, or
overflows where that does not fit, and fails as the exact one fails. Where that has come to a
negative exponent nothing is said. -/
inductive Follows {α β : Type} (symbol : String) (stands : α → β → Prop) (fits : β → Prop) :
    Except RunError α → Except Stop β → Prop
  | value {a : α} {b : β} (h : stands a b) : Follows symbol stands fits (.ok a) (.ok b)
  | overflow {b : β} (h : ¬ fits b) : Follows symbol stands fits (.error (.overflow symbol)) (.ok b)
  | fault (cause : RunError) : Follows symbol stands fits (.error cause) (.error (.fault cause))
  | negative (x : Except RunError α) : Follows symbol stands fits x (.error .negativeExponent)

theorem Number.Is.fits {x : Number} {n : Int} (h : x.Is n) : Exact.Fits n := by
  obtain ⟨k, -, rfl⟩ := h
  exact ⟨k.le_toInt, k.toInt_lt⟩

theorem Number.is_integer (k : Int64) : (integer k).Is k.toInt := ⟨k, rfl, rfl⟩

theorem Number.exact_of_fits (symbol : String) {n : Int} (h : Exact.Fits n) :
    ∃ x, exact symbol n = .ok x ∧ x.Is n := by
  have inside : Int64.minValue.toInt ≤ n ∧ n ≤ Int64.maxValue.toInt := by
    obtain ⟨least, most⟩ := h
    rw [Int64.toInt_minValue, Int64.toInt_maxValue]
    omega
  refine ⟨.integer (Int64.ofInt n), ?_, _, rfl, Int64.toInt_ofInt_of_le h.1 h.2⟩
  rw [exact, whole64?, if_pos inside]
  rfl

theorem Number.exact_of_not_fits (symbol : String) {n : Int} (h : ¬ Exact.Fits n) :
    exact symbol n = .error (.overflow symbol) := by
  have outside : ¬ (Int64.minValue.toInt ≤ n ∧ n ≤ Int64.maxValue.toInt) := by
    rw [Int64.toInt_minValue, Int64.toInt_maxValue]
    rintro ⟨least, most⟩
    exact h ⟨least, by omega⟩
  rw [exact, whole64?, if_neg outside]
  rfl

/-- An exact whole result is found, or overflows where 64 bits do not hold it. -/
theorem Number.follows_exact (symbol : String) (n : Int) :
    Follows symbol Number.Is Exact.Fits (exact symbol n) (.ok n) := by
  by_cases h : Exact.Fits n
  · obtain ⟨x, found, is⟩ := exact_of_fits symbol h
    rw [found]
    exact .value is
  · rw [exact_of_not_fits symbol h]
    exact .overflow h

theorem Number.is_ofBool {b : Bool} {p : Prop} [Decidable p] (h : b = true ↔ p) :
    (ofBool b).Is (Exact.truth p) := by
  cases b with
  | false => exact ⟨0, rfl, by simp [Exact.truth, ← h]⟩
  | true => exact ⟨1, rfl, by simp [Exact.truth, ← h]⟩

theorem Number.holds_integer (k : Int64) : (integer k).holds = true ↔ k.toInt ≠ 0 := by
  simp [holds, ← Int64.toInt_inj]

theorem Number.isZero_integer (k : Int64) : (integer k).isZero = true ↔ k.toInt = 0 := by
  simp [isZero, holds, ← Int64.toInt_inj]

theorem Unary.follows (symbol : String) (u : Unary) {x : Number} {n : Int} (h : x.Is n) :
    Follows symbol Number.Is Exact.Fits (u.apply symbol x) (Exact.unary n u) := by
  obtain ⟨k, rfl, rfl⟩ := h
  cases u with
  | negate => exact Number.follows_exact symbol _
  | not =>
    refine .value (Number.is_ofBool ?_)
    simpa using not_congr (Number.holds_integer k)
  | factorial =>
    simp only [apply, applyFactorial, Number.count?, Exact.unary]
    by_cases negative : k.toInt < 0
    · rw [if_neg (by omega), if_pos negative]
      exact .fault _
    · rw [if_pos (by omega), if_neg negative]
      dsimp only
      rw [factorial?_eq]
      exact Number.follows_exact symbol _

theorem Power.follows_whole (symbol : String) (b : Int64) {e : Int64} (count : 0 ≤ e.toInt) :
    Follows symbol Number.Is Exact.Fits (whole symbol b e) (.ok (b.toInt ^ e.toInt.toNat)) := by
  rw [whole, whole?_eq b count]
  exact Number.follows_exact symbol _

theorem Comparison.follows (c : Comparison) {x y : Number} {a b : Int} (hx : x.Is a) (hy : y.Is b) :
    (c.apply x y).Is (Exact.compares a b c) := by
  obtain ⟨k, rfl, rfl⟩ := hx
  obtain ⟨l, rfl, rfl⟩ := hy
  cases c <;> refine Number.is_ofBool ?_ <;>
    simp [admits, Number.order?, Int.compare_eq_lt, Int.compare_eq_gt] <;> omega

theorem Binary.follows (symbol : String) {op : Binary} (whole : op ≠ .divide) {x y : Number}
    {a b : Int} (hx : x.Is a) (hy : y.Is b) :
    Follows symbol Number.Is Exact.Fits (op.apply symbol x y) (Exact.binary symbol a b op) := by
  obtain ⟨k, rfl, rfl⟩ := hx
  obtain ⟨l, rfl, rfl⟩ := hy
  cases op with
  | add | subtract | multiply => exact Number.follows_exact symbol _
  | divide => contradiction
  | floorDivide | modulo =>
    simp only [apply, divided, Exact.binary]
    by_cases zero : l.toInt = 0
    · rw [if_pos ((Number.isZero_integer l).mpr zero), if_pos zero]
      exact .fault _
    · rw [if_neg (mt (Number.isZero_integer l).mp zero), if_neg zero]
      first
        | rw [combine, floorQuotient?_eq zero]
        | rw [combine, floorLeft?_eq zero]
      exact Number.follows_exact symbol _
  | power =>
    simp only [apply, Exact.binary]
    by_cases negative : l.toInt < 0
    · rw [if_pos negative]
      exact .negative _
    · have count : 0 ≤ l.toInt := by omega
      rw [if_neg negative, Power.apply, Power.applyBy_of_count Float.pow symbol k count]
      exact Power.follows_whole symbol k count
  | compare c => exact .value (c.follows (Number.is_integer k) (Number.is_integer l))
  | and | or =>
    refine .value (Number.is_ofBool ?_)
    simp [Number.holds_integer]

end Calculator
