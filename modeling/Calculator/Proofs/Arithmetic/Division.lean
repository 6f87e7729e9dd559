import Calculator.Arithmetic
import Calculator.Proofs.Binary64.Value
import Mathlib.Data.Rat.Floor

namespace Calculator

namespace Binary

theorem cutUp_iff {left b : Int64} :
    cutUp left b = true ↔ left.toInt ≠ 0 ∧ ¬ (left.toInt < 0 ↔ b.toInt < 0) := by
  have zero : left = 0 ↔ left.toInt = 0 := Int64.toInt_inj.symm
  have negative (n : Int64) : n < 0 ↔ n.toInt < 0 := Int64.lt_iff_toInt_lt
  simp [cutUp, zero, negative]

section Cut

variable {a b : ℤ}

theorem natAbs_tmod_lt (present : b ≠ 0) : (a.tmod b).natAbs < b.natAbs := by
  rw [Int.natAbs_tmod]
  exact Nat.mod_lt _ (Int.natAbs_pos.mpr present)

/-- A division that is cut up is one off the division rounded down. -/
theorem floored_of_cutUp (present : b ≠ 0) (some_left : a.tmod b ≠ 0)
    (up : ¬ (a.tmod b < 0 ↔ b < 0)) :
    a.fdiv b = a.tdiv b - 1 ∧ a.fmod b = a.tmod b + b := by
  have near := natAbs_tmod_lt (a := a) present
  have whole : a.tmod b + b + b * (a.tdiv b - 1) = a := by
    linear_combination Int.tdiv_mul_add_tmod a b
  rcases Int.lt_or_gt_of_ne present with negative | positive
  · exact (Int.fdiv_fmod_unique' negative).mpr ⟨whole, by omega, by omega⟩
  · exact (Int.fdiv_fmod_unique positive).mpr ⟨whole, by omega, by omega⟩

/-- A division that is not cut up is rounded down. -/
theorem floored_of_not_cutUp (present : b ≠ 0)
    (down : ¬ (a.tmod b ≠ 0 ∧ ¬ (a.tmod b < 0 ↔ b < 0))) :
    a.fdiv b = a.tdiv b ∧ a.fmod b = a.tmod b := by
  have near := natAbs_tmod_lt (a := a) present
  have whole : a.tmod b + b * a.tdiv b = a := by
    linear_combination Int.tdiv_mul_add_tmod a b
  rcases Int.lt_or_gt_of_ne present with negative | positive
  · exact (Int.fdiv_fmod_unique' negative).mpr ⟨whole, by omega, by omega⟩
  · exact (Int.fdiv_fmod_unique positive).mpr ⟨whole, by omega, by omega⟩

end Cut

section Whole

variable {a b : Int64}

/-- Quotients that leave something are in range: they are smaller than the dividend. -/
theorem exists_tdiv (present : b.toInt ≠ 0) (some_left : a.toInt.tmod b.toInt ≠ 0) :
    ∃ q, compute64? Int.tdiv a b = some q := by
  have least := a.le_toInt
  have most := a.toInt_lt
  have size : (a.toInt.tdiv b.toInt).natAbs = a.toInt.natAbs / b.toInt.natAbs :=
    Int.natAbs_tdiv _ _
  have smaller : (a.toInt.tdiv b.toInt).natAbs < a.toInt.natAbs := by
    have divides : b.toInt.natAbs ≠ 1 := fun unit => some_left (by
      rw [← Int.natAbs_eq_zero, Int.natAbs_tmod, unit, Nat.mod_one])
    have dividend : a.toInt.natAbs ≠ 0 := fun zero => some_left (by
      rw [Int.natAbs_eq_zero.mp zero, Int.zero_tmod])
    rw [size]
    exact Nat.div_lt_self (by omega) (by omega)
  refine exists_whole64? ⟨?_, ?_⟩ <;> omega

theorem floorQuotient?_eq (present : b.toInt ≠ 0) :
    floorQuotient? a b = whole64? (a.toInt.fdiv b.toInt) := by
  by_cases up : cutUp (a % b) b = true
  · obtain ⟨some_left, sides⟩ := cutUp_iff.mp up
    rw [Int64.toInt_mod] at some_left sides
    obtain ⟨q, found⟩ := exists_tdiv present some_left
    have value : q.toInt = a.toInt.tdiv b.toInt := whole64?_eq_some_iff.mp found
    rw [floorQuotient?, found, (floored_of_cutUp present some_left sides).1, ← value]
    exact if_pos up
  · have down := mt cutUp_iff.mpr up
    rw [Int64.toInt_mod] at down
    rw [floorQuotient?, (floored_of_not_cutUp present down).1]
    simp only [if_neg up]
    exact Option.bind_fun_some _

theorem floorLeft?_eq (present : b.toInt ≠ 0) :
    floorLeft? a b = whole64? (a.toInt.fmod b.toInt) := by
  by_cases up : cutUp (a % b) b = true
  · obtain ⟨some_left, sides⟩ := cutUp_iff.mp up
    rw [Int64.toInt_mod] at some_left sides
    rw [(floored_of_cutUp present some_left sides).2, ← Int64.toInt_mod]
    exact if_pos up
  · have down := mt cutUp_iff.mpr up
    rw [Int64.toInt_mod] at down
    rw [(floored_of_not_cutUp present down).2, ← Int64.toInt_mod, whole64?_toInt]
    exact if_neg up

end Whole

section Range

variable {a b : ℤ}

theorem fdiv_fmod_of_pos (positive : 0 < b) :
    a.fmod b + b * a.fdiv b = a ∧ 0 ≤ a.fmod b ∧ a.fmod b < b :=
  (Int.fdiv_fmod_unique positive).mp ⟨rfl, rfl⟩

theorem fdiv_fmod_of_neg (negative : b < 0) :
    a.fmod b + b * a.fdiv b = a ∧ b < a.fmod b ∧ a.fmod b ≤ 0 :=
  (Int.fdiv_fmod_unique' negative).mp ⟨rfl, rfl⟩

/-- What is left is smaller than the divisor. -/
theorem fmod_inside (present : b ≠ 0) (inside : -2 ^ 63 ≤ b ∧ b < 2 ^ 63) :
    -2 ^ 63 ≤ a.fmod b ∧ a.fmod b < 2 ^ 63 := by
  rcases lt_or_gt_of_ne present with negative | positive
  · obtain ⟨-, above, below⟩ := fdiv_fmod_of_neg (a := a) negative
    omega
  · obtain ⟨-, above, below⟩ := fdiv_fmod_of_pos (a := a) positive
    omega

/-- The quotient of the least number by minus one is the only one that is out of range. -/
theorem fdiv_inside (inside : -2 ^ 63 ≤ a ∧ a < 2 ^ 63) (present : b ≠ 0)
    (other : ¬ (a = -2 ^ 63 ∧ b = -1)) : -2 ^ 63 ≤ a.fdiv b ∧ a.fdiv b < 2 ^ 63 := by
  obtain ⟨least, most⟩ := inside
  rcases lt_or_gt_of_ne present with negative | positive
  · obtain ⟨whole, above, below⟩ := fdiv_fmod_of_neg (a := a) negative
    refine ⟨?_, ?_⟩
    · by_contra low
      nlinarith
    · by_contra high
      have : b = -1 := by nlinarith
      have : a = -2 ^ 63 := by nlinarith
      omega
  · obtain ⟨whole, above, below⟩ := fdiv_fmod_of_pos (a := a) positive
    refine ⟨?_, ?_⟩
    · by_contra low
      nlinarith
    · by_contra high
      nlinarith

/-- The quotient rounded down is the floor of the exact one. -/
theorem fdiv_eq_floor (present : b ≠ 0) : a.fdiv b = ⌊(a : ℚ) / b⌋ := by
  refine (Int.floor_eq_iff.mpr ?_).symm
  rcases lt_or_gt_of_ne present with negative | positive
  · obtain ⟨whole, above, below⟩ := fdiv_fmod_of_neg (a := a) negative
    have divisor : (b : ℚ) < 0 := by exact_mod_cast negative
    rw [le_div_iff_of_neg divisor, div_lt_iff_of_neg divisor]
    norm_cast
    refine ⟨?_, ?_⟩ <;> linarith
  · obtain ⟨whole, above, below⟩ := fdiv_fmod_of_pos (a := a) positive
    have divisor : (0 : ℚ) < b := by exact_mod_cast positive
    rw [le_div_iff₀ divisor, div_lt_iff₀ divisor]
    norm_cast
    refine ⟨?_, ?_⟩ <;> linarith

end Range

theorem divided_of_present (symbol : String) {r : Int64} (present : r ≠ 0)
    (quotient : Except RunError Number) : divided symbol (.integer r) quotient = quotient :=
  if_neg (by simp [Number.isZero, Number.holds, present])

/-- Quotient and remainder belong together: the quotient is rounded down and the remainder, which is
always found, lies between zero and the divisor. -/
theorem apply_floored (symbol symbol' : String) (l : Int64) {r : Int64} (present : r ≠ 0) :
    ∃ m : Int64, apply symbol .modulo (.integer l) (.integer r) = .ok (.integer m) ∧
      (0 < r.toInt → 0 ≤ m.toInt ∧ m.toInt < r.toInt) ∧
      (r.toInt < 0 → r.toInt < m.toInt ∧ m.toInt ≤ 0) ∧
      (l = Int64.minValue ∧ r = -1 →
        apply symbol' .floorDivide (.integer l) (.integer r) = .error (.overflow symbol')) ∧
      (¬ (l = Int64.minValue ∧ r = -1) →
        ∃ q : Int64, apply symbol' .floorDivide (.integer l) (.integer r) = .ok (.integer q) ∧
          q.toInt = ⌊(l.toInt : ℚ) / r.toInt⌋ ∧ l.toInt = q.toInt * r.toInt + m.toInt) := by
  have divisor : r.toInt ≠ 0 := fun zero => present (Int64.toInt_inj.mp zero)
  obtain ⟨m, left⟩ := exists_whole64? (fmod_inside (a := l.toInt) divisor ⟨r.le_toInt, r.toInt_lt⟩)
  have rest : m.toInt = l.toInt.fmod r.toInt := whole64?_eq_some_iff.mp left
  refine ⟨m, ?_⟩
  rw [rest]
  refine ⟨?_, fun positive => (fdiv_fmod_of_pos positive).2,
    fun negative => (fdiv_fmod_of_neg negative).2, ?_, fun other => ?_⟩
  · rw [apply, divided_of_present symbol present, combine, floorLeft?_eq divisor, left]
    rfl
  · rintro ⟨rfl, rfl⟩
    rw [apply, divided_of_present symbol' present, combine, floorQuotient?_eq divisor]
    rfl
  · have inside := fdiv_inside ⟨l.le_toInt, l.toInt_lt⟩ divisor fun same =>
      other ⟨Int64.toInt_inj.mp same.1, Int64.toInt_inj.mp same.2⟩
    obtain ⟨q, found⟩ := exists_whole64? inside
    have quotient : q.toInt = l.toInt.fdiv r.toInt := whole64?_eq_some_iff.mp found
    rw [apply, divided_of_present symbol' present, combine, floorQuotient?_eq divisor, found]
    refine ⟨q, rfl, ?_, ?_⟩
    · rw [quotient, fdiv_eq_floor divisor]
    · rw [quotient, mul_comm, Int.mul_fdiv_add_fmod]

/-- `7` by `-2`: what is left is not positive, and there is a quotient. -/
theorem apply_floored_seven : (-2 : Int64) ≠ 0 ∧
    ∃ m q : Int64, apply "%" .modulo (.integer 7) (.integer (-2)) = .ok (.integer m) ∧
      (-2 < m.toInt ∧ m.toInt ≤ 0) ∧
      apply "//" .floorDivide (.integer 7) (.integer (-2)) = .ok (.integer q) ∧
      7 = q.toInt * (-2) + m.toInt := by
  have present : (-2 : Int64) ≠ 0 := by decide
  obtain ⟨m, left, -, between, -, divides⟩ := apply_floored "%" "//" 7 present
  obtain ⟨q, quotient, -, whole⟩ := divides (by decide)
  exact ⟨present, m, q, left, between (by decide), quotient, whole⟩

end Binary

end Calculator
