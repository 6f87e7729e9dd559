import Calculator.Proofs.Binary64.Whole
import Calculator.Proofs.Exact.Arithmetic

namespace Calculator

open Binary64

theorem Number.Is.value? {x : Number} {n : ℤ} (h : x.Is n) : x.value? = some (n : ℚ) := by
  obtain ⟨k, rfl, rfl⟩ := h
  rfl

namespace Power

/-- Minus one to a whole exponent goes by the parity of the exponent. -/
def FollowsParity (pow : Float → Float → Float) : Prop :=
  ∀ (e : Float) (k : ℤ), (ofFloat e).value? = some (k : ℚ) → pow (-1) e = if Even k then 1 else -1

theorem whole_of_fits (symbol : String) {b e : Int64} (count : 0 ≤ e.toInt)
    (fits : Exact.Fits (b.toInt ^ e.toInt.toNat)) :
    ∃ x, whole symbol b e = .ok x ∧ x.Is (b.toInt ^ e.toInt.toNat) := by
  have follows := follows_whole symbol b count
  generalize whole symbol b e = outcome at follows
  cases follows with
  | value is => exact ⟨_, rfl, is⟩
  | overflow outside => exact absurd fits outside

theorem fits_neg_one_pow (e : ℕ) : Exact.Fits ((-1) ^ e) := by
  rw [Exact.Fits]
  rcases neg_one_pow_eq_or ℤ e with one | other <;> omega

section NegOne

variable (pow : Float → Float → Float) (symbol : String) {e : Int64}

theorem applyBy_neg_one_of_nonneg (h : 0 ≤ e.toInt) :
    ∃ x, applyBy pow symbol (.integer (-1)) (.integer e) = .ok x ∧
      x.value? = some (if Even e.toInt then 1 else -1) := by
  obtain ⟨k, hk⟩ := Int.eq_ofNat_of_zero_le h
  obtain ⟨x, found, is⟩ := whole_of_fits (b := -1) symbol h (fits_neg_one_pow _)
  refine ⟨x, (applyBy_of_count pow symbol (-1) h).trans found, ?_⟩
  have base : (-1 : Int64).toInt = -1 := rfl
  rw [is.value?, hk, Int.toNat_natCast, base]
  by_cases even : Even k
  · simp [even]
  · simp [even, (Nat.not_even_iff_odd.mp even).neg_one_pow]

/-- The power of a negative exponent goes by the parity of the exponent once it is rounded. -/
theorem applyBy_neg_one_of_neg (parity : FollowsParity pow) (h : e.toInt < 0) :
    ∃ k : ℤ, Rounded e.toInt k ∧ applyBy pow symbol (.integer (-1)) (.integer e) =
      .ok (.real (if Even k then 1 else -1)) := by
  obtain ⟨k, value, rounded⟩ := Number.exists_rounded e
  have unit : (Number.integer (-1)).isZero = false := rfl
  have found := parity _ k value
  have whole : (ofFloat (Number.nearestReal e)).whole? = some k := whole?_eq_some_iff.mpr value
  refine ⟨k, rounded, ?_⟩
  rw [applyBy, unit, Bool.false_and, if_neg Bool.false_ne_true]
  simp only [not_le.mpr h, if_false]
  rw [real, Number.toReal, Number.toReal]
  simp only [whole, Option.isNone_some, Bool.and_false, Bool.false_eq_true, if_false]
  exact congrArg (fun y => Except.ok (Number.real y)) found

end NegOne

theorem value?_one : (Number.real 1).value? = some 1 ∧ (Number.real (-1)).value? = some (-1) := by
  have one := Number.value?_nearestReal_of_le (n := 1) (by decide)
  have other := Number.value?_nearestReal_of_le (n := -1) (by decide)
  exact ⟨one, other⟩

/-- Powers of minus one go by the parity of the exponent, but for negative exponents beyond `2 ^ 53`:
rounded, they are all even. -/
theorem applyBy_neg_one (pow : Float → Float → Float) (parity : FollowsParity pow) (symbol : String)
    (e : Int64) : ∃ x, applyBy pow symbol (.integer (-1)) (.integer e) = .ok x ∧
      x.value? = some (if Even e.toInt ∨ e.toInt < -2 ^ 53 then 1 else -1) := by
  rcases lt_or_ge e.toInt 0 with negative | count
  · obtain ⟨k, rounded, found⟩ := applyBy_neg_one_of_neg pow symbol parity negative
    have even : Even k ↔ Even e.toInt ∨ e.toInt < -2 ^ 53 := by
      rcases Nat.lt_or_ge (2 ^ 53) e.toInt.natAbs with large | small
      · exact iff_of_true (rounded.even large) (.inr (by omega))
      · have near : ¬ e.toInt < -2 ^ 53 := by omega
        rw [rounded.kept small, or_iff_left near]
    refine ⟨_, found, ?_⟩
    simp only [← even]
    split
    · exact value?_one.1
    · exact value?_one.2
  · obtain ⟨x, found, value⟩ := applyBy_neg_one_of_nonneg pow symbol count
    have far : ¬ e.toInt < -2 ^ 53 := by omega
    refine ⟨x, found, ?_⟩
    rw [value]
    simp only [far, or_false]

/-- Minus one to a whole exponent; to any other there is no power. -/
def parityPower (_ e : Float) : Float :=
  match (ofFloat e).whole? with
  | some k => if Even k then 1 else -1
  | none => 0 / 0

theorem followsParity_parityPower : FollowsParity parityPower := by
  intro e k value
  rw [parityPower, whole?_eq_some_iff.mpr value]

/-- `-9007199254740993` is odd, and the nearest floating-point number is even. -/
theorem applyBy_neg_one_rounded :
    FollowsParity parityPower ∧
      (∃ x, applyBy parityPower "^" (.integer (-1)) (.integer (-3)) = .ok x ∧
        x.value? = some (-1)) ∧
      ∃ x, applyBy parityPower "^" (.integer (-1)) (.integer (-9007199254740993)) = .ok x ∧
        x.value? = some 1 :=
  ⟨followsParity_parityPower,
    applyBy_neg_one parityPower followsParity_parityPower "^" (-3),
    applyBy_neg_one parityPower followsParity_parityPower "^" (-9007199254740993)⟩

/-- Powers of minus one do not go by the parity of every exponent. -/
theorem not_applyBy_neg_one : ¬ ∀ (pow : Float → Float → Float) (_ : FollowsParity pow)
    (symbol : String) (e : Int64), ∃ x, applyBy pow symbol (.integer (-1)) (.integer e) = .ok x ∧
      x.value? = some (if Even e.toInt then 1 else -1) := by
  intro always
  have odd : ¬ Even (Int64.toInt (-9007199254740993)) := by decide
  obtain ⟨x, found, value⟩ :=
    always parityPower followsParity_parityPower "^" (-9007199254740993)
  obtain ⟨k, rounded, power⟩ := applyBy_neg_one_of_neg parityPower "^" followsParity_parityPower
    (e := -9007199254740993) (by decide)
  rw [power, if_pos (rounded.even (by decide))] at found
  obtain rfl : Number.real 1 = x := Except.ok.inj found
  rw [value?_one.1, if_neg odd] at value
  norm_num at value

end Power

end Calculator
