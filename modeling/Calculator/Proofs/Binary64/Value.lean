import Calculator.Proofs.Binary64.Sign
import Calculator.Proofs.Number

namespace Calculator

namespace Binary64

open Float.Model

/-- The value of a finite number. -/
def value? : Binary64 → Option ℚ
  | .finite negative m e => some ((if negative then -1 else 1) * (m * 2 ^ e))
  | _ => none

theorem wholeMagnitude?_eq_some_iff {m k : ℕ} {e : ℤ} :
    wholeMagnitude? m e = some k ↔ (m : ℚ) * 2 ^ e = k := by
  unfold wholeMagnitude?
  split
  · next up =>
    obtain ⟨s, rfl⟩ := Int.eq_ofNat_of_zero_le up
    rw [Option.some_inj, zpow_natCast, Int.toNat_natCast]
    exact_mod_cast Iff.rfl
  · next down =>
    obtain ⟨s, hs⟩ := Int.eq_ofNat_of_zero_le (Int.neg_nonneg.mpr (Int.le_of_not_le down))
    obtain rfl : e = -s := by omega
    have unit : (2 : ℚ) ^ s ≠ 0 := by positivity
    have value : (m : ℚ) * 2 ^ (-s : ℤ) = k ↔ m = k * 2 ^ s := by
      rw [zpow_neg, zpow_natCast, ← div_eq_mul_inv, div_eq_iff unit]
      exact_mod_cast Iff.rfl
    have size : (0 : ℕ) < 2 ^ s := by positivity
    rw [value, neg_neg, Int.toNat_natCast, Nat.pow_eq]
    split
    · next whole =>
      rw [Option.some_inj, Nat.div_eq_iff_eq_mul_left size (Nat.dvd_of_mod_eq_zero whole)]
    · next fraction =>
      refine iff_of_false nofun ?_
      rintro rfl
      exact fraction (Nat.mul_mod_left k _)

theorem whole?_finite (negative : Bool) (m : ℕ) (e : ℤ) :
    (finite negative m e).whole? =
      (wholeMagnitude? m e).map fun k : ℕ => if negative then -(k : ℤ) else k := by
  rw [whole?]
  cases wholeMagnitude? m e <;> rfl

/-- A number equals a whole number if that is its value. -/
theorem whole?_eq_some_iff {b : Binary64} {n : ℤ} : b.whole? = some n ↔ b.value? = some (n : ℚ) := by
  cases b with
  | nan | infinite => exact iff_of_false nofun nofun
  | finite negative m e =>
    have size : (0 : ℚ) ≤ m * 2 ^ e := by positivity
    simp only [whole?_finite, value?, Option.map_eq_some_iff, wholeMagnitude?_eq_some_iff, Option.some_inj]
    constructor
    · rintro ⟨k, value, rfl⟩
      cases negative <;> simp [value]
    · intro value
      cases negative with
      | false =>
        rw [if_neg Bool.false_ne_true, one_mul] at value
        rw [value] at size ⊢
        obtain ⟨k, rfl⟩ := Int.eq_ofNat_of_zero_le (Int.cast_nonneg_iff.mp size)
        exact ⟨k, rfl, rfl⟩
      | true =>
        rw [if_pos rfl, neg_one_mul, neg_eq_iff_eq_neg] at value
        rw [value, ← Int.cast_neg] at size
        obtain ⟨k, hk⟩ := Int.eq_ofNat_of_zero_le (Int.cast_nonneg_iff.mp size)
        refine ⟨k, ?_, ?_⟩
        · rw [value, ← Int.cast_neg, hk]
          rfl
        · rw [if_pos rfl, ← hk, neg_neg]

section Zero

variable {x : Float} {q : ℚ} (h : (ofFloat x).value? = some q)

include h

/-- A finite number is on the side of zero on which its value is. -/
theorem compare_zero :
    x.toModel.unpack.compare (.zero .positive) = some (compare q 0) ∧
      UnpackedFloat.compare (.zero .positive) x.toModel.unpack = some (compare 0 q) := by
  rw [ofFloat] at h
  generalize x.toModel.unpack = u at h
  cases u with
  | notANumber | infinity => cases h
  | zero sign =>
    obtain rfl : q = 0 := by simpa [value?] using h.symm
    exact ⟨rfl, rfl⟩
  | finite sign m e hm =>
    have size : (0 : ℚ) < m * 2 ^ e := by positivity
    cases sign with
    | positive =>
      obtain rfl : q = m * 2 ^ e := by simpa [value?] using h.symm
      rw [compare_gt_iff_gt.mpr size, compare_lt_iff_lt.mpr size]
      exact ⟨rfl, rfl⟩
    | negative =>
      obtain rfl : q = -(m * 2 ^ e) := by simpa [value?] using h.symm
      rw [compare_lt_iff_lt.mpr (neg_neg_iff_pos.mpr size),
        compare_gt_iff_gt.mpr (neg_neg_iff_pos.mpr size)]
      exact ⟨rfl, rfl⟩

theorem zero_le_iff : 0 ≤ x ↔ 0 ≤ q := by
  have compared : 0 ≤ x ↔ UnpackedFloat.le (.zero .positive) x.toModel.unpack = true :=
    decide_eq_true_iff
  rw [compared, UnpackedFloat.le, (compare_zero h).2, ← compare_le_iff_le (a := (0 : ℚ))]
  cases compare 0 q <;> decide

theorem beq_zero_iff : (x == 0) = true ↔ q = 0 := by
  have compared : (x == 0) = UnpackedFloat.beq x.toModel.unpack (.zero .positive) := rfl
  rw [compared, UnpackedFloat.beq, (compare_zero h).1, ← compare_eq_iff_eq (b := (0 : ℚ))]
  cases compare q 0 <;> decide

end Zero

end Binary64

namespace Number

/-- The value of a number, if it is finite. -/
def value? : Number → Option ℚ
  | .integer n => some n.toInt
  | .real x => (Binary64.ofFloat x).value?

theorem exactInteger?_eq_some_iff {x : Float} {k : Int64} :
    exactInteger? x = some k ↔ (real x).value? = some (k.toInt : ℚ) := by
  simp only [exactInteger?, Option.bind_eq_some_iff, Binary64.whole?_eq_some_iff,
    whole64?_eq_some_iff, value?, exists_eq_right']

theorem exactCount?_eq_some_iff {x : Float} {n : ℕ} :
    exactCount? x = some n ↔ (real x).value? = some (n : ℚ) ∧ n ≤ greatestCount := by
  simp only [exactCount?, Option.bind_eq_some_iff, Binary64.whole?_eq_some_iff, value?]
  constructor
  · rintro ⟨k, value, found⟩
    split at found
    · next inside =>
      obtain ⟨m, rfl⟩ := Int.eq_ofNat_of_zero_le inside.1
      cases found
      exact ⟨value, Int.ofNat_le.mp inside.2⟩
    · cases found
  · rintro ⟨value, inside⟩
    refine ⟨n, value, ?_⟩
    rw [if_pos ⟨Int.natCast_nonneg n, Int.ofNat_le.mpr inside⟩, Int.toNat_natCast]

end Number

end Calculator
