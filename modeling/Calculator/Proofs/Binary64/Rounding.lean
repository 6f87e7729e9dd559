import Calculator.Proofs.Binary64.Value

namespace Calculator

namespace Binary64

open Float.Model
open Float.Model.UnpackedFloat (Accuracy ExtendedMantissa Sign packComponents roundWithAccuracy
  shiftToExponent shiftToTargetExponent unpackSign_packComponents)

/-- The nearest whole number, and of two as near the even one. -/
def Nearest (x : ℚ) (r : ℤ) : Prop := |x - r| ≤ 1 / 2 ∧ (|x - r| = 1 / 2 → Even r)

namespace Nearest

variable {x : ℚ} {r : ℤ} (h : Nearest x r)

include h

theorem le_of_le {a : ℤ} (least : a ≤ x) : a ≤ r := by
  have near := (abs_le.mp h.1).2
  have below : (a : ℚ) < r + 1 := by linarith
  exact Int.lt_add_one_iff.mp (by exact_mod_cast below)

theorem ge_of_ge {b : ℤ} (most : x ≤ b) : r ≤ b := by
  have near := (abs_le.mp h.1).1
  have below : (r : ℚ) < b + 1 := by linarith
  exact Int.lt_add_one_iff.mp (by exact_mod_cast below)

/-- A whole number is itself the nearest. -/
theorem eq_of_eq {n : ℤ} (whole : x = n) : r = n :=
  le_antisymm (h.ge_of_ge whole.le) (h.le_of_le whole.ge)

theorem neg : Nearest (-x) (-r) := by
  have distance : |(-x) - ((-r : ℤ) : ℚ)| = |x - r| := by
    rw [Int.cast_neg, neg_sub_neg, abs_sub_comm]
  rw [Nearest, distance, even_neg]
  exact h

end Nearest

theorem nearest_self (n : ℤ) : Nearest n n := by
  rw [Nearest, sub_self, abs_zero]
  norm_num

/-- How far above a significand a number of this accuracy lies. -/
def Lies : Accuracy → ℚ → Prop
  | .exact, above => above = 0
  | .inexact .lt, above => 0 < above ∧ above < 1 / 2
  | .inexact .eq, above => above = 1 / 2
  | .inexact .gt, above => 1 / 2 < above ∧ above < 1

/-- What is left of a number when its significand is cut off and two bits tell the rest. -/
def Holds (cut : ExtendedMantissa) (x : ℚ) : Prop := Lies cut.accuracy (x - cut.mantissa)

section Cut

variable {cut : ExtendedMantissa} {x : ℚ}

theorem Holds.shiftRightOne (h : Holds cut x) : Holds cut.shiftRightOne (x / 2) := by
  obtain ⟨m, round, sticky⟩ := cut
  -- the last bit becomes the round bit, and the round bit joins the sticky one
  obtain ⟨k, rfl | rfl⟩ := Nat.even_or_odd' m
  · have half : 2 * k / 2 = k := by omega
    cases round <;> cases sticky <;>
      simp [Holds, Lies, ExtendedMantissa.accuracy, ExtendedMantissa.shiftRightOne, half] at h ⊢ <;>
      first | linarith | constructor <;> linarith
  · have half : (2 * k + 1) / 2 = k := by omega
    cases round <;> cases sticky <;>
      simp [Holds, Lies, ExtendedMantissa.accuracy, ExtendedMantissa.shiftRightOne, half] at h ⊢ <;>
      first | linarith | constructor <;> linarith

theorem Holds.shiftRight (h : Holds cut x) (a : ℕ) : Holds (cut >>> a) (x / 2 ^ a) := by
  induction a with
  | zero =>
    rw [pow_zero, div_one]
    exact h
  | succ a ih =>
    rw [pow_succ, ← div_div]
    exact ih.shiftRightOne

/-- Rounding takes the nearest significand. -/
theorem Holds.nearest (h : Holds cut x) : Nearest x cut.roundedMantissa := by
  rw [ExtendedMantissa.roundedMantissa]
  rw [Holds] at h
  generalize cut.accuracy = accuracy at h
  generalize cut.mantissa = m at h
  match accuracy with
  | .exact =>
    obtain rfl : x = (m : ℤ) := sub_eq_zero.mp h
    exact nearest_self m
  | .inexact .lt =>
    obtain ⟨above, below⟩ := h
    have size : |x - (m : ℤ)| = x - m := by
      rw [Int.cast_natCast, abs_of_pos above]
    rw [Accuracy.roundToNearestEven, Nearest, size]
    exact ⟨below.le, fun tie => absurd tie below.ne⟩
  | .inexact .eq =>
    have tie : x - m = 1 / 2 := h
    rw [Accuracy.roundToNearestEven]
    refine ⟨?_, fun _ => ?_⟩
    · rcases Nat.mod_two_eq_zero_or_one m with even | odd
      · rw [even, add_zero, Int.cast_natCast, tie]
        norm_num
      · have up : x - ((m + 1 : ℕ) : ℤ) = -(1 / 2) := by
          push_cast
          linarith
        rw [odd, up]
        norm_num
    · rw [Int.even_coe_nat, Nat.even_iff]
      omega
  | .inexact .gt =>
    obtain ⟨above, below⟩ := h
    have size : |x - (m + 1 : ℕ)| = m + 1 - x := by
      push_cast
      rw [abs_of_neg (by linarith)]
      ring
    rw [Accuracy.roundToNearestEven, Nearest, Int.cast_natCast, size]
    exact ⟨by linarith, fun tie => absurd tie (by linarith)⟩

end Cut

/-- A significand of 53 bits, with an exponent that 11 bits hold. -/
structure Normal (m : ℕ) (e : ℤ) : Prop where
  least : 2 ^ 52 ≤ m
  most : m < 2 ^ 53
  low : -1074 ≤ e
  high : e ≤ 971

/-- A float of this sign and magnitude, with all its significant bits. -/
def Stands (sign : Sign) (size : ℚ) (u : UnpackedFloat) : Prop :=
  ∃ m e pos, u = .finite sign m e pos ∧ Normal m e ∧ (m : ℚ) * 2 ^ e = size

section Packing

variable {sign : Sign} {m : ℕ} {e : ℤ}

theorem Normal.log2 (h : Normal m e) : m.log2 = 52 :=
  (Nat.log2_eq_iff (by have := h.least; omega)).mpr ⟨h.least, h.most⟩

/-- The leading bit of a significand is not stored. -/
theorem Normal.leading (h : Normal m e) : (1#1 ++ BitVec.ofNat 52 m).toNat = m := by
  have rest : (BitVec.ofNat 52 m).toNat = m - 2 ^ 52 := by
    rw [BitVec.toNat_ofNat]
    have := h.least
    have := h.most
    omega
  rw [BitVec.toNat_append, ← Nat.shiftLeft_add_eq_or_of_lt (BitVec.ofNat 52 m).isLt, rest]
  have := h.least
  simp [Nat.shiftLeft_eq]
  omega

theorem Normal.unpack_pack (h : Normal m e) (pos : 0 < m) :
    (Float.Model.pack (.finite sign m e pos)).unpack = .finite sign m e pos := by
  obtain ⟨b, hb⟩ : ∃ b : ℕ, e = b - 1075 := ⟨(e + 1075).toNat, by have := h.low; omega⟩
  have present : 1 ≤ b := by have := h.low; omega
  have inside : b ≤ 2046 := by have := h.high; omega
  have bias : Format.binary64.exponentBias = 1023 := rfl
  have bits : 52 + 1 = Format.binary64.mantissaBits := rfl
  have stored : (e + (1023 : ℕ) + (52 : ℕ)).toNat = b := by omega
  have back : (BitVec.ofNat 11 b).toNat = b := by
    rw [BitVec.toNat_ofNat]
    omega
  have other {c : BitVec 11} (hc : b ≠ c.toNat) : BitVec.ofNat 11 b ≠ c := by
    rintro rfl
    exact hc back.symm
  have top : (-1#11).toNat = 2047 := rfl
  have finite : BitVec.ofNat 11 b ≠ -1#11 := other (by omega)
  have whole : BitVec.ofNat 11 b ≠ 0#11 := other (by simp; omega)
  have packed : UnpackedFloat.pack .binary64 (.finite sign m e pos) =
      packComponents .binary64 sign (BitVec.ofNat 11 b) (BitVec.ofNat 52 m) := by
    simp only [UnpackedFloat.pack, h.log2, bias]
    rw [if_pos bits, stored, if_neg (by omega)]
  have same : Sign.ofBitVec sign.toBitVec = sign := by cases sign <;> rfl
  show UnpackedFloat.unpack .binary64 (UnpackedFloat.pack .binary64 (.finite sign m e pos)) = _
  rw [packed]
  simp only [UnpackedFloat.unpack, UnpackedFloat.unpackMantissa_packComponents,
    UnpackedFloat.unpackExponent_packComponents, unpackSign_packComponents, finite, whole, same,
    h.leading, back, if_false]
  congr 1
  rw [hb]
  rfl

end Packing

section Shifting

variable {m : ℕ} {e : ℤ} (wide : 2 ^ 52 ≤ m) (low : -1074 ≤ e + (m.log2 - 52 : ℕ))

include wide low

/-- Shifting leaves 53 bits of a significand that has no fewer. -/
theorem shiftToTargetExponent_wide : shiftToTargetExponent .binary64 m e .exact =
    (ExtendedMantissa.mk m false false >>> (m.log2 - 52), e + (m.log2 - 52 : ℕ)) := by
  have long : 52 ≤ m.log2 := (Nat.le_log2 (by omega)).mpr wide
  have target : Format.binary64.targetExponent (totalExponent m e) = e + (m.log2 - 52 : ℕ) := by
    simp [Format.targetExponent, totalExponent, Format.mantissaBits, Format.minExponent]
    omega
  have amount : (e + (m.log2 - 52 : ℕ) - e).toNat = m.log2 - 52 := by omega
  rw [shiftToTargetExponent, target, shiftToExponent, amount]
  rfl

end Shifting

/-- The float of a significand and an exponent. -/
def assembled (sign : Sign) (cut : ExtendedMantissa × ℤ) : UnpackedFloat :=
  if h : cut.1.mantissa = 0 then .zero sign
  else .finite sign cut.1.mantissa cut.2 (Nat.pos_of_ne_zero h)

theorem stands_assembled (sign : Sign) {m : ℕ} {e : ℤ} (h : Normal m e) (round sticky : Bool) :
    Stands sign (m * 2 ^ e) (assembled sign (⟨m, round, sticky⟩, e)) := by
  have present : m ≠ 0 := by have := h.least; omega
  rw [assembled, dif_neg present]
  exact ⟨m, e, _, rfl, h, rfl⟩

/-- Rounding may have carried into a 54th bit, and then the significand is shifted once more. -/
theorem stands_carried (sign : Sign) {m : ℕ} {e : ℤ} (least : 2 ^ 52 ≤ m) (most : m ≤ 2 ^ 53)
    (low : -1074 ≤ e) (high : e ≤ 970) :
    Stands sign (m * 2 ^ e) (assembled sign (shiftToTargetExponent .binary64 m e .exact)) := by
  rcases most.lt_or_eq with small | rfl
  · have normal : Normal m e := ⟨least, small, low, by omega⟩
    have kept : shiftToTargetExponent .binary64 m e .exact = (⟨m, false, false⟩, e) := by
      rw [shiftToTargetExponent_wide least (by rw [normal.log2]; omega), normal.log2]
      exact Prod.ext rfl (Int.add_zero e)
    rw [kept]
    exact stands_assembled sign normal false false
  · have normal : Normal (2 ^ 52) (e + 1) := ⟨by norm_num, by norm_num, by omega, by omega⟩
    have shifted : shiftToTargetExponent .binary64 (2 ^ 53) e .exact =
        (⟨2 ^ 52, false, false⟩, e + 1) := by
      rw [shiftToTargetExponent_wide least (by rw [Nat.log2_two_pow]; omega), Nat.log2_two_pow]
      rfl
    have size : ((2 ^ 53 : ℕ) : ℚ) * 2 ^ e = (2 ^ 52 : ℕ) * 2 ^ (e + 1) := by
      rw [zpow_add_one₀ two_ne_zero]
      push_cast
      ring
    rw [shifted, size]
    exact stands_assembled sign normal false false

/-- A significand that has no fewer than 53 bits is rounded to the nearest that has as many. -/
theorem stands_roundWithAccuracy (sign : Sign) {m : ℕ} {e : ℤ} (wide : 2 ^ 52 ≤ m)
    (low : -1074 ≤ e + (m.log2 - 52 : ℕ)) (high : e + (m.log2 - 52 : ℕ) ≤ 970) :
    ∃ r : ℕ, Nearest ((m : ℚ) / 2 ^ (m.log2 - 52)) r ∧ Stands sign
      (r * 2 ^ (e + (m.log2 - 52 : ℕ))) (roundWithAccuracy .binary64 sign m e .exact) := by
  have long : 52 ≤ m.log2 := (Nat.le_log2 (by omega)).mpr wide
  obtain ⟨a, ha⟩ : ∃ a, m.log2 = 52 + a := ⟨m.log2 - 52, by omega⟩
  have shifted := shiftToTargetExponent_wide wide low
  have exact : Holds ⟨m, false, false⟩ m := sub_self _
  have nearest := (exact.shiftRight (m.log2 - 52)).nearest
  have amount : m.log2 - 52 = a := by omega
  rw [amount] at shifted nearest low high ⊢
  refine ⟨_, nearest, ?_⟩
  have least : (2 : ℚ) ^ 52 ≤ m / 2 ^ a := by
    rw [le_div_iff₀ (by positivity), ← pow_add, ← ha]
    exact_mod_cast Nat.log2_self_le (by omega)
  have most : (m : ℚ) / 2 ^ a < 2 ^ 53 := by
    have next : 53 + a = m.log2 + 1 := by omega
    rw [div_lt_iff₀ (by positivity), ← pow_add, next]
    exact_mod_cast Nat.lt_log2_self
  have above := nearest.le_of_le (a := 2 ^ 52) (by exact_mod_cast least)
  have below := nearest.ge_of_ge (b := 2 ^ 53) (by exact_mod_cast most.le)
  have carried := stands_carried sign (by exact_mod_cast above) (by exact_mod_cast below) low high
  have rounded : roundWithAccuracy .binary64 sign m e .exact = assembled sign
      (shiftToTargetExponent .binary64 (shiftToTargetExponent .binary64 m e .exact).1.roundedMantissa
        (shiftToTargetExponent .binary64 m e .exact).2 .exact) := rfl
  rw [rounded, shifted]
  exact carried

theorem log2_mul_two_pow {m : ℕ} (present : m ≠ 0) (a : ℕ) : (m * 2 ^ a).log2 = m.log2 + a := by
  induction a with
  | zero => simp
  | succ a ih =>
    have more : m * 2 ^ a ≠ 0 := Nat.mul_ne_zero present (by positivity)
    rw [pow_succ, ← Nat.mul_assoc, Nat.mul_comm _ 2, Nat.log2_two_mul more, ih, Nat.add_assoc]

/-- Nothing is lost of a significand that only zeros make longer. -/
theorem stands_roundWithAccuracy_mul (sign : Sign) {m : ℕ} {e : ℤ} (h : Normal m e)
    (high : e ≤ 970) (a : ℕ) :
    Stands sign (m * 2 ^ e) (roundWithAccuracy .binary64 sign (m * 2 ^ a) (e - a) .exact) := by
  have wide : 2 ^ 52 ≤ m * 2 ^ a := h.least.trans (Nat.le_mul_of_pos_right m (by positivity))
  have bits : (m * 2 ^ a).log2 - 52 = a := by
    rw [log2_mul_two_pow (by have := h.least; omega), h.log2, Nat.add_sub_cancel_left]
  have low := h.low
  obtain ⟨r, nearest, stands⟩ := stands_roundWithAccuracy sign wide (e := e - a)
    (by rw [bits]; omega) (by rw [bits]; omega)
  rw [bits] at nearest stands
  have cut : ((m * 2 ^ a : ℕ) : ℚ) / 2 ^ a = (m : ℤ) := by
    push_cast
    exact mul_div_cancel_right₀ _ (by positivity)
  obtain rfl : r = m := by exact_mod_cast nearest.eq_of_eq cut
  rwa [Int.sub_add_cancel] at stands

section Stands

variable {sign : Sign} {size : ℚ} {u : UnpackedFloat}

theorem Stands.unpack_pack (h : Stands sign size u) :
    Stands sign size (Float.Model.pack u).unpack := by
  obtain ⟨m, e, pos, rfl, normal, value⟩ := h
  exact ⟨m, e, pos, normal.unpack_pack pos, normal, value⟩

variable {x : Float}

theorem Stands.value?_of_positive (h : Stands .positive size x.toModel.unpack) :
    (ofFloat x).value? = some size := by
  obtain ⟨m, e, pos, unpacked, -, rfl⟩ := h
  rw [ofFloat, unpacked]
  exact congrArg some (one_mul _)

theorem Stands.value?_of_negative (h : Stands .negative size x.toModel.unpack) :
    (ofFloat x).value? = some (-size) := by
  obtain ⟨m, e, pos, unpacked, -, rfl⟩ := h
  rw [ofFloat, unpacked]
  exact congrArg some (neg_one_mul _)

theorem Stands.neg (h : Stands .positive size x.toModel.unpack) :
    Stands .negative size (-x).toModel.unpack := by
  obtain ⟨m, e, pos, unpacked, normal, value⟩ := h
  have opposite : Stands .negative size x.toModel.unpack.neg := by
    rw [unpacked]
    exact ⟨m, e, pos, rfl, normal, value⟩
  exact opposite.unpack_pack

end Stands

end Binary64

end Calculator
