import Calculator.Arithmetic.Power
import Calculator.Proofs.Binary64.Value

namespace Calculator

theorem whole64?_zero : whole64? 0 = some 0 := rfl

/-- What is out of range is no nearer to it as a factor. -/
theorem whole64?_mul_of_pos {n c : ℤ} (outside : whole64? n = none) (positive : 0 < c) :
    whole64? (n * c) = none := by
  rw [whole64?_eq_none_iff] at outside ⊢
  rintro ⟨least, most⟩
  refine outside ⟨?_, ?_⟩
  · by_contra low
    nlinarith
  · by_contra high
    nlinarith

/-- `2 ^ 63` is no square, so a square that is out of range is larger. -/
theorem lt_square_of_none {b : ℤ} (outside : whole64? (b * b) = none) : 2 ^ 63 < b * b := by
  rw [whole64?_eq_none_iff, ← Int.natAbs_mul_self' b] at outside
  rw [← Int.natAbs_mul_self' b]
  generalize b.natAbs = n at outside ⊢
  have least : 3037000500 ≤ n := by
    by_contra small
    have : n * n ≤ 3037000499 * 3037000499 := Nat.mul_self_le_mul_self (by omega)
    omega
  have : 3037000500 * 3037000500 ≤ n * n := Nat.mul_self_le_mul_self least
  omega

/-- A square that is out of range leaves every multiple of it out of range. -/
theorem whole64?_square_mul {b c : ℤ} (outside : whole64? (b * b) = none) (present : c ≠ 0) :
    whole64? (b * b * c) = none := by
  have large := lt_square_of_none outside
  rw [whole64?_eq_none_iff]
  rintro ⟨least, most⟩
  rcases lt_or_gt_of_ne present with negative | positive
  · nlinarith
  · nlinarith

namespace Power

theorem leftover?_eq (product base : Int64) (e : ℕ) :
    leftover? product base e = whole64? (product.toInt * base.toInt ^ (e % 2)) := by
  rcases Nat.mod_two_eq_zero_or_one e with even | odd
  · rw [leftover?, even, if_neg zero_ne_one, pow_zero, mul_one, whole64?_toInt]
  · rw [leftover?, odd, if_pos rfl, pow_one]
    rfl

/-- Squaring goes on with the square of the base and half of the exponent. -/
theorem mul_pow_halved (a b : ℤ) (e : ℕ) : a * b ^ e = a * b ^ (e % 2) * (b * b) ^ (e / 2) := by
  rw [mul_assoc, ← sq, ← pow_mul, ← pow_add, Nat.mod_add_div]

/-- Squaring finds the exact product, unless that is out of range. -/
theorem squaring?_eq {product base : Int64} {e : ℕ} (kept : product.toInt = 0 → base.toInt = 0) :
    squaring? product base e = whole64? (product.toInt * base.toInt ^ e) := by
  induction e using Nat.strongRecOn generalizing product base with
  | ind e ih =>
    rw [squaring?]
    by_cases none_left : e = 0
    · rw [if_pos none_left, none_left, pow_zero, mul_one, whole64?_toInt]
    by_cases last : e = 1
    · rw [if_neg none_left, if_pos last, leftover?_eq, last]
    rw [if_neg none_left, if_neg last, leftover?_eq, mul_pow_halved _ _ e]
    cases taken : whole64? (product.toInt * base.toInt ^ (e % 2)) with
    | none =>
      have present : base.toInt ≠ 0 := by
        intro zero
        rcases Nat.mod_two_eq_zero_or_one e with even | odd
        · rw [even, pow_zero, mul_one, whole64?_toInt] at taken
          cases taken
        · rw [odd, pow_one, zero, mul_zero, whole64?_zero] at taken
          cases taken
      exact (whole64?_mul_of_pos taken (pow_pos (mul_self_pos.mpr present) _)).symm
    | some product' =>
      have value : product'.toInt = _ := whole64?_eq_some_iff.mp taken
      have kept' : product'.toInt = 0 → base.toInt = 0 := by
        rw [value, mul_eq_zero]
        rintro (zero | zero)
        · exact kept zero
        · exact eq_zero_of_pow_eq_zero zero
      rw [← value]
      change (whole64? (base.toInt * base.toInt)).bind (squaring? product' · (e / 2)) = _
      cases squared : whole64? (base.toInt * base.toInt) with
      | none =>
        have present : base.toInt ≠ 0 := by
          intro zero
          rw [zero, mul_zero, whole64?_zero] at squared
          cases squared
        obtain ⟨k, hk⟩ := Nat.exists_eq_succ_of_ne_zero (show e / 2 ≠ 0 by omega)
        have cofactor : product'.toInt * (base.toInt * base.toInt) ^ k ≠ 0 :=
          mul_ne_zero (mt kept' present) (pow_ne_zero _ (mul_self_ne_zero.mpr present))
        rw [hk, pow_succ', mul_left_comm]
        exact (whole64?_square_mul squared cofactor).symm
      | some base' =>
        have square : base'.toInt = _ := whole64?_eq_some_iff.mp squared
        rw [Option.bind_some, ih (e / 2) (by omega), square]
        intro zero
        rw [square, kept' zero, mul_zero]

/-- A base greater than one in size has no power in range from the exponent 64 on. -/
theorem whole64?_pow_of_large {b : ℤ} (large : 2 ≤ b.natAbs) {e : ℕ} (h : 64 ≤ e) :
    whole64? (b ^ e) = none := by
  have least : 2 ^ 64 ≤ (b ^ e).natAbs := by
    calc 2 ^ 64 ≤ 2 ^ e := Nat.pow_le_pow_right (by omega) h
      _ ≤ b.natAbs ^ e := Nat.pow_le_pow_left large e
      _ = (b ^ e).natAbs := (Int.natAbs_pow b e).symm
  rw [whole64?_eq_none_iff]
  rintro ⟨above, below⟩
  omega

theorem ofUnit?_eq (b : Int64) {e : Int64} {n : ℕ} (value : e.toInt = n) (far : 64 ≤ n) :
    ofUnit? b e = whole64? (b.toInt ^ n) := by
  rw [ofUnit?, value]
  split
  · next same =>
    rcases same with rfl | rfl
    · exact (congrArg whole64? (zero_pow (by omega))).symm
    · exact (congrArg whole64? (one_pow n)).symm
  · next other =>
    split
    · next same =>
      subst same
      change _ = whole64? ((-1) ^ n)
      rcases Nat.even_or_odd n with even | odd
      · rw [even.neg_one_pow, if_pos (by exact_mod_cast Nat.even_iff.mp even)]
        rfl
      · have left : ¬ (n : ℤ) % 2 = 0 := by
          have := Nat.odd_iff.mp odd
          omega
        rw [odd.neg_one_pow, if_neg left]
        rfl
    · next distinct =>
      have large : 2 ≤ b.toInt.natAbs := by
        have zero : b.toInt ≠ 0 := fun h => other (.inl (Int64.toInt_inj.mp h))
        have one : b.toInt ≠ 1 := fun h => other (.inr (Int64.toInt_inj.mp h))
        have minus : b.toInt ≠ -1 := fun h => distinct (Int64.toInt_inj.mp h)
        omega
      exact (whole64?_pow_of_large large far).symm

/-- Both ways a power is the exact one, unless that is out of range. -/
theorem whole?_eq (b : Int64) {e : Int64} (count : 0 ≤ e.toInt) :
    whole? b e = whole64? (b.toInt ^ e.toInt.toNat) := by
  obtain ⟨n, hn⟩ := Int.eq_ofNat_of_zero_le count
  rw [whole?, Number.count32?, hn, Int.toNat_natCast]
  by_cases narrow : 0 ≤ (n : ℤ) ∧ (n : ℤ) < Nat.pow 2 32
  · rw [if_pos narrow]
    have one : (1 : Int64).toInt = 1 := rfl
    have found : squaring? 1 b n = _ := squaring?_eq nofun
    rwa [one, one_mul] at found
  · have wide : Nat.pow 2 32 = 4294967296 := rfl
    rw [if_neg narrow]
    exact ofUnit?_eq b hn (by omega)

theorem applyBy_of_count (pow : Float → Float → Float) (symbol : String) (b : Int64) {e : Int64}
    (count : 0 ≤ e.toInt) :
    applyBy pow symbol (.integer b) (.integer e) = whole symbol b e := by
  have positive : ¬ (Number.integer e).toReal < 0 := Number.not_nearestReal_neg count
  rw [applyBy, if_neg (by simp [positive])]
  exact if_pos count

/-- Powers of whole numbers are exact as far as 64 bits hold them and overflow beyond, whatever the
size of the exponent. -/
theorem apply_whole (symbol : String) (b : Int64) {e : Int64} (count : 0 ≤ e.toInt) :
    let power := b.toInt ^ e.toInt.toNat
    (-2 ^ 63 ≤ power ∧ power < 2 ^ 63 → ∃ n : Int64, n.toInt = power ∧
      apply symbol (.integer b) (.integer e) = .ok (.integer n)) ∧
    (¬ (-2 ^ 63 ≤ power ∧ power < 2 ^ 63) →
      apply symbol (.integer b) (.integer e) = .error (.overflow symbol)) := by
  intro power
  have found : apply symbol (.integer b) (.integer e) =
      Number.checked symbol (whole64? power) := by
    rw [apply, applyBy_of_count Float.pow symbol b count, whole, whole?_eq b count]
  rw [found]
  refine ⟨fun inside => ?_, fun outside => ?_⟩
  · obtain ⟨n, held⟩ := exists_whole64? inside
    rw [held]
    exact ⟨n, whole64?_eq_some_iff.mp held, rfl⟩
  · rw [whole64?_eq_none_iff.mpr outside]
    rfl

/-- Squaring `-2` as often as `63` can be halved stays in range, and the power is the least number;
`2 ^ 63` is out of range. -/
theorem apply_whole_least : 0 ≤ (63 : Int64).toInt ∧
    (∃ n : Int64, n.toInt = -2 ^ 63 ∧
      apply "^" (.integer (-2)) (.integer 63) = .ok (.integer n)) ∧
    apply "^" (.integer 2) (.integer 63) = .error (.overflow "^") := by
  have count : 0 ≤ (63 : Int64).toInt := by decide
  exact ⟨count, (apply_whole "^" (-2) count).1 (by decide),
    (apply_whole "^" 2 count).2 (by decide)⟩

end Power

end Calculator
