import Calculator.Function
import Calculator.Proofs.Binary64.Whole

namespace Calculator

open Binary64

/-- A number is negative as a floating-point number if its value is negative. -/
theorem Number.exists_neg_toReal {x : Number} {q : ℚ} (value : x.value? = some q) (h : q < 0) :
    ∃ p < 0, (ofFloat x.toReal).value? = some p := by
  cases x with
  | real y => exact ⟨q, h, value⟩
  | integer n =>
    obtain ⟨k, found, rounded⟩ := exists_rounded n
    have negative : n.toInt < 0 := by
      have same : (n.toInt : ℚ) = q := Option.some.inj value
      exact_mod_cast same.symm ▸ h
    have sign := rounded.sign
    rw [Int.sign_eq_neg_one_of_neg negative, Int.sign_eq_neg_one_iff_neg] at sign
    exact ⟨k, by exact_mod_cast sign, found⟩

/-- A whole number is odd once it is rounded if it is odd and not beyond `2 ^ 53`. -/
theorem Number.exists_odd_iff {n : Int64} :
    (∃ k, exactInteger? (nearestReal n) = some k ∧ Odd k.toInt) ↔
      Odd n.toInt ∧ n.toInt.natAbs ≤ 2 ^ 53 := by
  obtain ⟨i, value, rounded⟩ := exists_rounded n
  constructor
  · rintro ⟨k, found, odd⟩
    have same : (k.toInt : ℚ) = i :=
      Option.some.inj ((exactInteger?_eq_some_iff.mp found).symm.trans value)
    obtain rfl : k.toInt = i := by exact_mod_cast same
    have small : n.toInt.natAbs ≤ 2 ^ 53 := by
      by_contra large
      exact Int.not_even_iff_odd.mpr odd (rounded.even (not_le.mp large))
    exact ⟨rounded.kept small ▸ odd, small⟩
  · rintro ⟨odd, small⟩
    exact ⟨n, exactInteger?_eq_some_iff.mpr (value?_nearestReal_of_le small), odd⟩

namespace Function

section Negative

variable {x : Number} {q : ℚ} {n : Int64} (value : x.value? = some q) (h : q < 0) (present : n ≠ 0)

include value h present

/-- What a root of a negative number comes to is settled by the degree once it is rounded. -/
theorem run_root_of_neg : root.run [x, .integer n] =
    match Number.exactInteger? (Number.nearestReal n) with
    | some k =>
      if k.toInt % 2 = 0 then .error (.domain "nthroot" x.text)
      else .ok (.real (-(-x.toReal).pow (1 / Number.nearestReal n)))
    | none => .error (.domain "nthroot" x.text) := by
  obtain ⟨p, negative, real⟩ := Number.exists_neg_toReal value h
  obtain ⟨k, degree, rounded⟩ := Number.exists_rounded n
  have divisor : ¬ (Number.nearestReal n == 0) = true := by
    rw [beq_zero_iff degree, Int.cast_eq_zero, ← Int.sign_eq_zero_iff_zero, rounded.sign,
      Int.sign_eq_zero_iff_zero]
    exact fun zero => present (Int64.toInt_inj.mp zero)
  have below : ¬ 0 ≤ x.toReal := (zero_le_iff real).not.mpr (not_le.mpr negative)
  have run : root.run [x, .integer n] =
      if Number.nearestReal n == 0 then .error (.divisionByZero "nthroot")
      else if 0 ≤ x.toReal then .ok (.real (x.toReal.pow (1 / Number.nearestReal n)))
      else _ := rfl
  rw [run, if_neg divisor, if_neg below]
  rfl

theorem run_root_of_odd (odd : Odd n.toInt ∧ n.toInt.natAbs ≤ 2 ^ 53) :
    root.run [x, .integer n] = .ok (.real (-(-x.toReal).pow (1 / Number.nearestReal n))) := by
  obtain ⟨k, found, odd⟩ := Number.exists_odd_iff.mpr odd
  have remainder : ¬ k.toInt % 2 = 0 := by
    rw [Int.odd_iff.mp odd]
    decide
  rw [run_root_of_neg value h present, found]
  exact if_neg remainder

theorem run_root_of_not_odd (other : ¬ (Odd n.toInt ∧ n.toInt.natAbs ≤ 2 ^ 53)) :
    root.run [x, .integer n] = .error (.domain "nthroot" x.text) := by
  rw [run_root_of_neg value h present]
  cases found : Number.exactInteger? (Number.nearestReal n) with
  | none => rfl
  | some k =>
    have even : k.toInt % 2 = 0 := by
      by_contra remainder
      have odd : Odd k.toInt := Int.odd_iff.mpr (by omega)
      exact other (Number.exists_odd_iff.mp ⟨k, found, odd⟩)
    exact if_pos even

/-- A negative number has a root of an odd degree up to `2 ^ 53` in size, and no other. -/
theorem root_of_neg :
    (root.run [x, .integer n] = .error (.domain "nthroot" x.text) ↔
      Even n.toInt ∨ 2 ^ 53 < n.toInt.natAbs) ∧
    ((∃ y, root.run [x, .integer n] = .ok (.real y)) ↔
      Odd n.toInt ∧ n.toInt.natAbs ≤ 2 ^ 53) := by
  have opposite : Even n.toInt ∨ 2 ^ 53 < n.toInt.natAbs ↔
      ¬ (Odd n.toInt ∧ n.toInt.natAbs ≤ 2 ^ 53) := by
    rw [not_and_or, Int.not_odd_iff_even, not_le]
  rw [opposite]
  by_cases odd : Odd n.toInt ∧ n.toInt.natAbs ≤ 2 ^ 53
  · have found := run_root_of_odd value h present odd
    rw [found]
    exact ⟨iff_of_false nofun (not_not.mpr odd), iff_of_true ⟨_, rfl⟩ odd⟩
  · have refused := run_root_of_not_odd value h present odd
    rw [refused]
    exact ⟨iff_of_true rfl odd, iff_of_false nofun odd⟩

end Negative

/-- There is a third root of `-8`, and none of degree `9007199254740993`, which is odd. -/
theorem root_of_neg_eight :
    (Number.integer (-8)).value? = some (-8) ∧ (-8 : ℚ) < 0 ∧ (3 : Int64) ≠ 0 ∧
      (9007199254740993 : Int64) ≠ 0 ∧
      (∃ y, root.run [.integer (-8), .integer 3] = .ok (.real y)) ∧
      root.run [.integer (-8), .integer 9007199254740993] =
        .error (.domain "nthroot" (Number.integer (-8)).text) := by
  have value : (Number.integer (-8)).value? = some (-8) := rfl
  have negative : (-8 : ℚ) < 0 := by norm_num
  have third : (3 : Int64) ≠ 0 := by decide
  have far : (9007199254740993 : Int64) ≠ 0 := by decide
  refine ⟨value, negative, third, far, ?_, ?_⟩
  · exact (root_of_neg value negative third).2.mpr ⟨by decide, by decide⟩
  · exact (root_of_neg value negative far).1.mpr (.inr (by decide))

/-- An odd degree does not always have a root of a negative number. -/
theorem not_root_of_neg_iff_odd : ¬ ∀ (x : Number) (q : ℚ) (n : Int64), x.value? = some q → q < 0 →
    n ≠ 0 → (root.run [x, .integer n] = .error (.domain "nthroot" x.text) ↔ Even n.toInt) ∧
      ((∃ y, root.run [x, .integer n] = .ok (.real y)) ↔ Odd n.toInt) := by
  intro always
  have value : (Number.integer (-1)).value? = some (-1) := rfl
  have negative : (-1 : ℚ) < 0 := by norm_num
  have present : (9007199254740993 : Int64) ≠ 0 := by decide
  have odd : ¬ Even (Int64.toInt 9007199254740993) := by decide
  have refused := run_root_of_not_odd value negative present fun small =>
    absurd small.2 (by decide)
  exact odd ((always _ _ _ value negative present).1.mp refused)

end Function

end Calculator
