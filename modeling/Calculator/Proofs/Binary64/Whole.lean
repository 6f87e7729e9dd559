import Calculator.Proofs.Binary64.Rounding

namespace Calculator

namespace Binary64

open Float.Model
open Float.Model.UnpackedFloat (roundWithAccuracy)

theorem unpack_one : Float.exactlyRepresentablePowersOfTen[0].toModel.unpack =
    .finite .positive (2 ^ 52) (-52) (by norm_num) := rfl

theorem Normal.exponent_lt {m : ℕ} {e k : ℤ} (h : Normal m e) (small : (m : ℚ) * 2 ^ e < 2 ^ k) :
    52 + e < k := by
  have least : (2 : ℚ) ^ (52 : ℤ) ≤ m := by exact_mod_cast h.least
  have below : (2 : ℚ) ^ (52 + e) < 2 ^ k := by
    rw [zpow_add₀ two_ne_zero]
    exact (mul_le_mul_of_nonneg_right least (by positivity)).trans_lt small
  exact (zpow_lt_zpow_iff_right₀ one_lt_two).mp below

theorem Stands.mul_one {x : Float} {size : ℚ} (h : Stands .positive size x.toModel.unpack)
    (small : size < 2 ^ 64) :
    Stands .positive size (x * Float.exactlyRepresentablePowersOfTen[0]).toModel.unpack := by
  obtain ⟨m, e, pos, unpacked, normal, rfl⟩ := h
  have high := normal.exponent_lt (k := 64) (by exact_mod_cast small)
  have product : UnpackedFloat.mul .binary64 x.toModel.unpack
      Float.exactlyRepresentablePowersOfTen[0].toModel.unpack =
        roundWithAccuracy .binary64 .positive (m * 2 ^ 52) (e - (52 : ℕ)) .exact := by
    rw [unpacked, unpack_one]
    rfl
  have stands := stands_roundWithAccuracy_mul .positive normal (by omega) 52
  rw [← product] at stands
  exact stands.unpack_pack

theorem stands_unpacked_ofNat {n : ℕ} (pos : 0 < n) (small : n < 2 ^ 53) :
    Stands .positive n (UnpackedFloat.ofNat .binary64 n) := by
  obtain ⟨k, hk⟩ : ∃ k, n.log2 + k = 52 :=
    ⟨52 - n.log2, by have := (Nat.log2_lt pos.ne').mpr small; omega⟩
  have bits : (n * 2 ^ k).log2 = 52 := by rw [log2_mul_two_pow pos.ne', hk]
  obtain ⟨least, most⟩ := (Nat.log2_eq_iff (by positivity)).mp bits
  have normal : Normal (n * 2 ^ k) (-k) := ⟨least, most, by omega, by omega⟩
  have positive : compare (n : ℤ) 0 = .gt := compare_gt_iff_gt.mpr (by exact_mod_cast pos)
  have target : Format.binary64.targetExponent (totalExponent n 0) = -k := by
    simp [Format.targetExponent, totalExponent, Format.mantissaBits, Format.minExponent]
    omega
  have rounded : UnpackedFloat.ofNat .binary64 n =
      roundWithAccuracy .binary64 .positive (n * 2 ^ k * 2 ^ 0) (-k - (0 : ℕ)) .exact := by
    have amount : (0 - -(k : ℤ)).toNat = k := by omega
    simp only [UnpackedFloat.ofNat, UnpackedFloat.ofInt, UnpackedFloat.normalize, positive,
      UnpackedFloat.round, Int.toNat_natCast, target, UnpackedFloat.decreaseExponent, amount,
      Nat.shiftLeft_eq]
    simp
  have size : ((n * 2 ^ k : ℕ) : ℚ) * 2 ^ (-(k : ℤ)) = n := by
    push_cast
    rw [zpow_neg, zpow_natCast]
    exact mul_inv_cancel_right₀ (by positivity) _
  have stands := stands_roundWithAccuracy_mul .positive normal (by omega) 0
  rwa [← rounded, size] at stands

/-- A count below `2 ^ 53` keeps its value. -/
theorem stands_ofNat_of_lt {n : ℕ} (pos : 0 < n) (small : n < 2 ^ 53) :
    Stands .positive n (Float.ofNat n).toModel.unpack := by
  show Stands .positive n (Float.ofScientific n false 0).toModel.unpack
  -- a count this small goes through 64 bits and is then multiplied by ten to the zeroth
  rw [Float.ofScientific, dif_pos ⟨small, by norm_num⟩]
  have same : n.toUInt64.toNat = n := by
    simp
    omega
  have stands : Stands .positive n n.toUInt64.toFloat.toModel.unpack := by
    have exact : Stands .positive n (UnpackedFloat.ofNat .binary64 n.toUInt64.toNat) := by
      rw [same]
      exact stands_unpacked_ofNat pos small
    exact exact.unpack_pack
  exact stands.mul_one (by exact_mod_cast small.trans (by norm_num))

/-- A greater count is rounded to 53 bits. -/
theorem stands_ofNat_of_ge {n : ℕ} (large : 2 ^ 53 ≤ n) (inside : n < 2 ^ 64) :
    ∃ r : ℕ, Nearest ((n : ℚ) / 2 ^ (n.log2 - 52)) r ∧
      Stands .positive (r * 2 ^ (n.log2 - 52)) (Float.ofNat n).toModel.unpack := by
  have bits : 53 ≤ n.log2 := (Nat.le_log2 (by omega)).mpr large
  have few : n.log2 < 64 := (Nat.log2_lt (by omega)).mpr inside
  obtain ⟨s, hs⟩ : ∃ s, n.log2 = 52 + s := ⟨n.log2 - 52, by omega⟩
  -- 53 zeros are put behind the significand before it is cut, and are cut off again
  have wide : 2 ^ 52 ≤ n * 2 ^ 53 := by omega
  have shift : (n * 2 ^ 53).log2 - 52 = 53 + s := by
    rw [log2_mul_two_pow (by omega), hs]
    omega
  have cut : ((n * 2 ^ 53 : ℕ) : ℚ) / 2 ^ (53 + s) = n / 2 ^ s := by
    rw [Nat.cast_mul, Nat.cast_pow, Nat.cast_ofNat, pow_add, ← div_div,
      mul_div_cancel_right₀ _ (by positivity)]
  have unit : (-53 : ℤ) + (53 + s : ℕ) = s := by omega
  have unpacked : UnpackedFloat.ofScientific .binary64 n 0 =
      roundWithAccuracy .binary64 .positive (n * 2 ^ 53) (-53) .exact := by
    rw [UnpackedFloat.ofScientific, dif_neg (by omega), if_neg (by norm_num),
      if_neg (by simp), if_pos le_rfl]
    simp [UnpackedFloat.mul, Nat.shiftLeft_eq, Format.mantissaBits]
    rfl
  obtain ⟨r, nearest, stands⟩ := stands_roundWithAccuracy .positive wide (e := -53)
    (by rw [shift]; omega) (by rw [shift]; omega)
  rw [shift, cut] at nearest
  rw [shift, unit, zpow_natCast, ← unpacked] at stands
  rw [hs, Nat.add_sub_cancel_left]
  refine ⟨r, nearest, ?_⟩
  show Stands .positive _ (Float.ofScientific n false 0).toModel.unpack
  rw [Float.ofScientific, dif_neg (by omega)]
  exact stands.unpack_pack

/-- A positive count is rounded to the nearest with 53 significant bits. -/
theorem stands_ofNat {n : ℕ} (pos : 0 < n) (inside : n < 2 ^ 64) :
    ∃ r : ℕ, Nearest ((n : ℚ) / 2 ^ (n.log2 - 52)) r ∧
      Stands .positive (r * 2 ^ (n.log2 - 52)) (Float.ofNat n).toModel.unpack := by
  rcases Nat.lt_or_ge n (2 ^ 53) with small | large
  · have bits : n.log2 - 52 = 0 := by
      have := (Nat.log2_lt pos.ne').mpr small
      omega
    have stands := stands_ofNat_of_lt pos small
    refine ⟨n, ?_, ?_⟩
    · rw [bits, pow_zero, div_one]
      exact nearest_self n
    · rwa [bits, pow_zero, mul_one]
  · exact stands_ofNat_of_ge large inside

/-- What becomes of a whole number that is rounded to 53 bits. -/
structure Rounded (n k : ℤ) : Prop where
  sign : k.sign = n.sign
  kept : n.natAbs ≤ 2 ^ 53 → k = n
  even : 2 ^ 53 < n.natAbs → Even k

theorem Nearest.sign_eq {n r : ℤ} {s : ℕ} (h : Nearest ((n : ℚ) / 2 ^ s) r)
    (size : n ≠ 0 → (2 ^ s : ℤ) ≤ n.natAbs) : r.sign = n.sign := by
  have unit : (0 : ℚ) < 2 ^ s := by positivity
  rcases lt_trichotomy n 0 with negative | rfl | positive
  · have below : (n : ℚ) / 2 ^ s ≤ (-1 : ℤ) := by
      rw [div_le_iff₀ unit]
      have := size negative.ne
      exact_mod_cast (by omega : n ≤ -1 * 2 ^ s)
    have := h.ge_of_ge below
    rw [Int.sign_eq_neg_one_of_neg negative, Int.sign_eq_neg_one_of_neg (by omega)]
  · rw [h.eq_of_eq (n := 0) (by simp)]
  · have above : ((1 : ℤ) : ℚ) ≤ n / 2 ^ s := by
      rw [le_div_iff₀ unit]
      have := size positive.ne'
      exact_mod_cast (by omega : 1 * 2 ^ s ≤ n)
    have := h.le_of_le above
    rw [Int.sign_eq_one_of_pos positive, Int.sign_eq_one_of_pos (by omega)]

theorem Nearest.eq_of_dvd {n r : ℤ} {s : ℕ} (h : Nearest ((n : ℚ) / 2 ^ s) r)
    (whole : (2 ^ s : ℤ) ∣ n) : r * 2 ^ s = n := by
  obtain ⟨k, rfl⟩ := whole
  have same : r = k := h.eq_of_eq (by
    push_cast
    exact mul_div_cancel_left₀ _ (by positivity))
  rw [same, mul_comm]

/-- Only zeros are cut off from a number up to `2 ^ 53`. -/
theorem two_pow_dvd_of_le {n : ℤ} (small : n.natAbs ≤ 2 ^ 53) :
    (2 ^ (n.natAbs.log2 - 52) : ℤ) ∣ n := by
  rcases small.eq_or_lt with edge | inside
  · rw [edge, Nat.log2_two_pow]
    omega
  · have bits : n.natAbs.log2 - 52 = 0 := by
      rcases Nat.eq_zero_or_pos n.natAbs with none | some
      · rw [none]
        rfl
      · have := (Nat.log2_lt some.ne').mpr inside
        omega
    rw [bits]
    exact one_dvd n

theorem Nearest.rounded {n r : ℤ} (h : Nearest ((n : ℚ) / 2 ^ (n.natAbs.log2 - 52)) r) :
    Rounded n (r * 2 ^ (n.natAbs.log2 - 52)) where
  sign := by
    have size (present : n ≠ 0) : (2 ^ (n.natAbs.log2 - 52) : ℤ) ≤ n.natAbs := by
      have least : 2 ^ (n.natAbs.log2 - 52) ≤ n.natAbs :=
        (Nat.pow_le_pow_right two_pos (by omega)).trans (Nat.log2_self_le (by omega))
      exact_mod_cast least
    have scale : (0 : ℤ) < 2 ^ (n.natAbs.log2 - 52) := by positivity
    rw [Int.sign_mul, Int.sign_eq_one_of_pos scale, mul_one, h.sign_eq size]
  kept small := h.eq_of_dvd (two_pow_dvd_of_le small)
  even large := by
    have bits : 53 ≤ n.natAbs.log2 := (Nat.le_log2 (by omega)).mpr large.le
    exact (even_two.pow_of_ne_zero (by omega)).mul_left r

end Binary64

namespace Number

open Binary64

/-- The floating-point number for a whole number is the nearest with 53 significant bits. -/
theorem value?_nearestReal (n : Int64) :
    ∃ r : ℤ, Nearest ((n.toInt : ℚ) / 2 ^ (n.toInt.natAbs.log2 - 52)) r ∧
      (real (nearestReal n)).value? = some ((r * 2 ^ (n.toInt.natAbs.log2 - 52) : ℤ) : ℚ) := by
  have low := n.le_toInt
  have high := n.toInt_lt
  rw [nearestReal]
  generalize n.toInt = i at low high
  cases i with
  | ofNat k =>
    obtain rfl | pos := Nat.eq_zero_or_pos k
    · refine ⟨0, ?_, ?_⟩
      · simpa using nearest_self 0
      · have zero : ofFloat (Float.ofInt (Int.ofNat 0)) = .finite false 0 0 := rfl
        rw [value?, zero]
        simp [Binary64.value?]
    · obtain ⟨r, nearest, stands⟩ := stands_ofNat pos (by simp at high; omega)
      refine ⟨r, nearest, ?_⟩
      rw [value?, Float.ofInt, stands.value?_of_positive]
      push_cast
      rfl
  | negSucc k =>
    obtain ⟨r, nearest, stands⟩ := stands_ofNat k.succ_pos (by omega)
    refine ⟨-r, ?_, ?_⟩
    · have opposite := nearest.neg
      rw [← neg_div] at opposite
      exact_mod_cast opposite
    · have value : (ofFloat (Float.ofInt (Int.negSucc k))).value? = _ :=
        stands.neg.value?_of_negative
      rw [value?, value]
      push_cast
      rw [neg_mul]
      rfl

theorem exists_rounded (n : Int64) :
    ∃ k : ℤ, (real (nearestReal n)).value? = some (k : ℚ) ∧ Rounded n.toInt k := by
  obtain ⟨r, nearest, value⟩ := value?_nearestReal n
  exact ⟨_, value, nearest.rounded⟩

/-- Up to `2 ^ 53` a whole number keeps its value. -/
theorem value?_nearestReal_of_le {n : Int64} (h : n.toInt.natAbs ≤ 2 ^ 53) :
    (real (nearestReal n)).value? = some (n.toInt : ℚ) := by
  obtain ⟨k, value, rounded⟩ := exists_rounded n
  rw [value, rounded.kept h]

end Number

end Calculator
