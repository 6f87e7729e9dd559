import Calculator.Arithmetic.Power
import Mathlib.Algebra.Ring.Int.Defs

namespace Calculator

theorem whole64?_toInt (i : Int64) : whole64? i.toInt = some i := by
  have inside : Int64.minValue.toInt ≤ i.toInt ∧ i.toInt ≤ Int64.maxValue.toInt :=
    ⟨i.minValue_le_toInt, i.toInt_le⟩
  rw [whole64?, if_pos inside, Int64.ofInt_toInt]

theorem whole64?_eq_some_iff {n : ℤ} {k : Int64} : whole64? n = some k ↔ k.toInt = n := by
  constructor
  · unfold whole64?
    split
    · next inside =>
      rw [Int64.toInt_minValue, Int64.toInt_maxValue] at inside
      rintro ⟨⟩
      exact Int64.toInt_ofInt_of_le inside.1 (by omega)
    · rintro ⟨⟩
  · rintro rfl
    exact whole64?_toInt k

theorem whole64?_eq_none_iff {n : ℤ} : whole64? n = none ↔ ¬ (-2 ^ 63 ≤ n ∧ n < 2 ^ 63) := by
  have most : n < 2 ^ 63 ↔ n ≤ Int64.maxValue.toInt := by
    rw [Int64.toInt_maxValue]
    omega
  rw [whole64?, most, ← Int64.toInt_minValue, ite_eq_right_iff]
  exact imp_congr_right fun _ => iff_of_false (Option.some_ne_none _) not_false

theorem exists_whole64? {n : ℤ} (inside : -2 ^ 63 ≤ n ∧ n < 2 ^ 63) :
    ∃ k, whole64? n = some k := by
  cases found : whole64? n with
  | none => exact absurd inside (whole64?_eq_none_iff.mp found)
  | some k => exact ⟨k, rfl⟩

namespace Decimal

theorem digit_le {c : Char} (h : c.isDigit = true) : digit c ≤ 9 :=
  Nat.sub_le_sub_right (Char.isDigit_iff_toNat.mp h).2 _

/-- More digits behind those that were read do not make the number smaller. -/
theorem le_ofDigitChars (digits : List Char) (n : ℕ) : n ≤ Nat.ofDigitChars 10 digits n := by
  rw [Nat.ofDigitChars_eq_ofDigitChars_zero]
  have shifted : n ≤ 10 ^ digits.length * n := Nat.le_mul_of_pos_left n (Nat.pow_pos (by decide))
  omega

end Decimal

namespace Number

section Reading

open Decimal

variable {k : Int64} {n : ℕ}

/-- One digit more is read if 64 bits hold what it comes to. The product is in range if the sum is. -/
theorem appendDigit?_eq (read : k.toInt = n) {c : Char} (h : c.isDigit = true) :
    appendDigit? k c = whole64? (10 * n + digit c : ℕ) := by
  have small := digit_le h
  have ten : (10 : Int64).toInt = 10 := rfl
  have product : compute64? (· * ·) k 10 = whole64? (10 * n : ℕ) := by
    rw [compute64?, read, ten, Int.mul_comm, Int.natCast_mul]
    rfl
  rw [appendDigit?, product]
  cases shifted : whole64? (10 * n : ℕ) with
  | none =>
    rw [whole64?_eq_none_iff] at shifted
    exact (whole64?_eq_none_iff.mpr (by omega)).symm
  | some k' =>
    have tens : k'.toInt = (10 * n : ℕ) := whole64?_eq_some_iff.mp shifted
    have ones : (Int64.ofNat (digit c)).toInt = digit c := Int64.toInt_ofNat_of_lt (by omega)
    change whole64? (k'.toInt + (Int64.ofNat (digit c)).toInt) = _
    rw [tens, ones, Int.natCast_add]

/-- Digits behind a number are read if 64 bits hold what they come to all together. -/
theorem foldlM_appendDigit? {digits : List Char} (h : ∀ c ∈ digits, c.isDigit = true)
    (read : k.toInt = n) :
    digits.foldlM appendDigit? k = whole64? (Nat.ofDigitChars 10 digits n) := by
  induction digits generalizing k n with
  | nil =>
    rw [List.foldlM_nil, Nat.ofDigitChars_nil, ← read, whole64?_toInt]
    rfl
  | cons c digits ih =>
    obtain ⟨first, later⟩ := List.forall_mem_cons.mp h
    have longer : Nat.ofDigitChars 10 (c :: digits) n =
        Nat.ofDigitChars 10 digits (10 * n + digit c) := Nat.ofDigitChars_cons
    rw [List.foldlM_cons, appendDigit?_eq read first, longer]
    cases next : whole64? (10 * n + digit c : ℕ) with
    | none =>
      have above := le_ofDigitChars digits (10 * n + digit c)
      rw [whole64?_eq_none_iff] at next
      exact (whole64?_eq_none_iff.mpr (by omega)).symm
    | some k' => exact ih later (whole64?_eq_some_iff.mp next)

/-- Digits come to their value if 64 bits hold it, however many they are. -/
theorem ofDigits?_eq {digits : List Char} (h : ∀ c ∈ digits, c.isDigit = true) :
    ofDigits? digits = whole64? (value digits) :=
  foldlM_appendDigit? h rfl

end Reading

theorem exact_toInt (symbol : String) (i : Int64) : exact symbol i.toInt = .ok (.integer i) := by
  rw [exact, whole64?_toInt]
  rfl

/-- A whole number that is not negative is printed by its digits alone, and read back from them. -/
theorem text_digits {i : Int64} (h : 0 ≤ i.toInt) :
    (integer i).text.toList ≠ [] ∧ (∀ c ∈ (integer i).text.toList, c.isDigit = true) ∧
      ofText? (integer i).text = some (integer i) := by
  obtain ⟨n, hn⟩ := Int.eq_ofNat_of_zero_le h
  have digits : (integer i).text.toList = Nat.toDigits 10 n := by
    rw [text, hn]
    exact Nat.toList_repr
  have present : Nat.toDigits 10 n ≠ [] := Nat.toDigits_ne_nil
  have all : ∀ c ∈ Nat.toDigits 10 n, c.isDigit = true := fun c hc =>
    Nat.isDigit_of_mem_toDigits (by decide) (by decide) hc
  have value : Decimal.value (Nat.toDigits 10 n) = n :=
    Nat.ofDigitChars_toDigits (by decide) (by decide)
  rw [ofText?, digits]
  refine ⟨present, all, ?_⟩
  rw [if_pos ⟨present, List.all_eq_true.mpr all⟩, ofDigits?_eq all, value, ← hn, whole64?_toInt]

/-- A negative number but the least is printed as a minus and the text of its opposite, which is
positive. -/
theorem text_of_neg {i : Int64} (h : i.toInt < 0) (least : i ≠ Int64.minValue) :
    (-i).toInt = -i.toInt ∧ (integer i).text = "-" ++ (integer (-i)).text := by
  have above : i.toInt ≠ -2 ^ 63 := fun same => least (Int64.toInt_inj.mp same)
  have opposite : (-i).toInt = -i.toInt := by
    have low := i.le_toInt
    rw [Int64.toInt_neg]
    exact Int.bmod_eq_of_le (by omega) (by omega)
  refine ⟨opposite, ?_⟩
  obtain ⟨n, hn⟩ := Int.eq_negSucc_of_lt_zero h
  rw [text, text, opposite, hn]
  rfl

end Number

end Calculator
