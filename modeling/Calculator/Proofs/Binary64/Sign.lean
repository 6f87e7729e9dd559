import Calculator.Number
import Mathlib

namespace Calculator

namespace Binary64

open Float.Model
open Float.Model.UnpackedFloat (Accuracy Sign packComponents roundWithAccuracy unpackSign
  unpackSign_packComponents)

/-- No sign but a positive one. -/
def Unsigned : UnpackedFloat → Prop
  | .infinity sign | .zero sign | .finite sign .. => sign = .positive
  | .notANumber => True

theorem unsigned_roundWithAccuracy (spec : Format) (m : Nat) (e : Int) (accuracy : Accuracy) :
    Unsigned (roundWithAccuracy spec .positive m e accuracy) := by
  simp only [roundWithAccuracy]
  split <;> rfl

theorem unsigned_mul (spec : Format) {x y : UnpackedFloat} (hx : Unsigned x) (hy : Unsigned y) :
    Unsigned (UnpackedFloat.mul spec x y) := by
  cases x <;> cases y <;> cases hx <;> cases hy <;>
    first
    | trivial
    | rfl
    | exact unsigned_roundWithAccuracy _ _ _ _

theorem unsigned_ofNat (spec : Format) (n : Nat) : Unsigned (UnpackedFloat.ofNat spec n) := by
  simp only [UnpackedFloat.ofNat, UnpackedFloat.ofInt, UnpackedFloat.normalize]
  split
  · next negative =>
    have below : (n : Int) < 0 := Int.compare_eq_lt.mp negative
    omega
  · rfl
  · exact unsigned_roundWithAccuracy _ _ _ _

theorem unsigned_ofScientific (spec : Format) (m : Nat) (e : Int) (h : 0 ≤ e) :
    Unsigned (UnpackedFloat.ofScientific spec m e) := by
  unfold UnpackedFloat.ofScientific
  split
  · rfl
  · split
    · rfl
    · split
      · rfl
      · exact unsigned_mul spec rfl rfl

theorem unsigned_unpack (spec : Format) (e : BitVec spec.exponentBits)
    (m : BitVec spec.mantissaBitsWithoutImplicit) :
    Unsigned (UnpackedFloat.unpack spec (packComponents spec .positive e m)) := by
  have positive : Sign.ofBitVec (unpackSign (packComponents spec .positive e m)) = .positive := by
    rw [unpackSign_packComponents]
    rfl
  simp only [UnpackedFloat.unpack, positive]
  repeat' split
  all_goals trivial

/-- Packing keeps the sign. -/
theorem unsigned_pack (spec : Format) {x : UnpackedFloat} (h : Unsigned x) :
    Unsigned (UnpackedFloat.unpack spec (UnpackedFloat.pack spec x)) := by
  cases x with
  | notANumber => exact unsigned_unpack spec _ _
  | infinity sign | zero sign =>
    obtain rfl : sign = .positive := h
    exact unsigned_unpack spec _ _
  | finite sign m e hm =>
    obtain rfl : sign = .positive := h
    simp only [UnpackedFloat.pack]
    repeat' split
    all_goals exact unsigned_unpack spec _ _

/-- No sign but a positive one, as it is stored. -/
def Signless (x : Float) : Prop := Unsigned x.toModel.unpack

theorem signless_pack {x : UnpackedFloat} (h : Unsigned x) : Signless (.ofModel (.pack x)) :=
  unsigned_pack _ h

theorem signless_mul {x y : Float} (hx : Signless x) (hy : Signless y) : Signless (x * y) :=
  signless_pack (unsigned_mul _ hx hy)

theorem signless_one : Signless Float.exactlyRepresentablePowersOfTen[0] := by
  show Unsigned (UnpackedFloat.unpack _ _)
  rfl

theorem signless_ofNat (n : Nat) : Signless (Float.ofNat n) := by
  show Signless (Float.ofScientific n false 0)
  unfold Float.ofScientific
  split
  · exact signless_mul (signless_pack (unsigned_ofNat _ _)) signless_one
  · exact signless_pack (unsigned_ofScientific _ _ _ (Int.le_refl 0))

theorem unpack_zero : (0 : Float).toModel.unpack = .zero .positive := rfl

theorem not_neg_of_signless {x : Float} (h : Signless x) : ¬ x < 0 := by
  intro below
  have model : x.toModel < (0 : Float).toModel := of_decide_eq_true below
  have compared : UnpackedFloat.lt x.toModel.unpack (0 : Float).toModel.unpack = true := model
  rw [unpack_zero] at compared
  rw [Signless] at h
  generalize x.toModel.unpack = u at h compared
  cases u with
  | notANumber => cases compared
  | infinity sign | zero sign | finite sign =>
    obtain rfl : sign = .positive := h
    cases compared

end Binary64

/-- A whole number that is not negative is not negative as a floating-point number either. -/
theorem Number.not_nearestReal_neg {n : Int64} (h : 0 ≤ n.toInt) :
    ¬ nearestReal n < 0 := by
  obtain ⟨k, hk⟩ := Int.eq_ofNat_of_zero_le h
  rw [nearestReal, hk]
  exact Binary64.not_neg_of_signless (Binary64.signless_ofNat k)

end Calculator
