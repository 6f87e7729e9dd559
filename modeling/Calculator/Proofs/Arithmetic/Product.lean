import Calculator.Arithmetic
import Calculator.Proofs.Arithmetic.Squaring
import Mathlib.Data.Nat.Factorial.Basic

namespace Calculator.Unary

/-- Multiplying by counts one by one finds their exact product, unless that is out of range. As no
count is less than one, a product on the way is out of range only if the last one is. -/
theorem productFrom?_eq {product : Int64} {next : ℕ} (positive : 0 < product.toInt)
    (present : 0 < next) (left : ℕ) :
    productFrom? product next left = whole64? (product.toInt * next.ascFactorial left) := by
  induction left generalizing product next with
  | zero => rw [productFrom?, Nat.ascFactorial_zero, Nat.cast_one, mul_one, whole64?_toInt]
  | succ left ih =>
    have first : next.ascFactorial (left + 1) = next * (next + 1).ascFactorial left := by
      rw [Nat.ascFactorial_succ, Nat.succ_ascFactorial]
    have later : 0 < (((next + 1).ascFactorial left : ℕ) : ℤ) := by
      exact_mod_cast Nat.ascFactorial_pos next left
    rw [productFrom?, first, Nat.cast_mul, ← mul_assoc]
    cases counted : whole64? next with
    | none =>
      rw [mul_comm product.toInt, mul_assoc]
      exact (whole64?_mul_of_pos counted (mul_pos positive later)).symm
    | some factor =>
      have factor_eq : factor.toInt = next := whole64?_eq_some_iff.mp counted
      change (whole64? (product.toInt * factor.toInt)).bind (productFrom? · (next + 1) left) = _
      rw [factor_eq]
      cases multiplied : whole64? (product.toInt * next) with
      | none => exact (whole64?_mul_of_pos multiplied later).symm
      | some product' =>
        have product_eq : product'.toInt = product.toInt * next :=
          whole64?_eq_some_iff.mp multiplied
        have positive' : 0 < product'.toInt := by
          rw [product_eq]
          exact mul_pos positive (by exact_mod_cast present)
        rw [Option.bind_some, ih positive' next.succ_pos, product_eq]

/-- The loop finds the factorial, or gives up because 64 bits do not hold it. -/
theorem factorial?_eq (n : ℕ) : factorial? n = whole64? n.factorial := by
  have one : (1 : Int64).toInt = 1 := rfl
  have positive : 0 < (1 : Int64).toInt := Int.one_pos
  have product : Nat.ascFactorial 2 (n - 1) = n.factorial := by
    have shifted := Nat.factorial_mul_ascFactorial 1 (n - 1)
    rw [Nat.factorial_one, one_mul] at shifted
    rw [shifted]
    cases n with
    | zero => rfl
    | succ n => rw [Nat.add_sub_cancel, Nat.add_comm]
  rw [factorial?, productFrom?_eq positive Nat.two_pos, one, one_mul, product]

end Calculator.Unary
