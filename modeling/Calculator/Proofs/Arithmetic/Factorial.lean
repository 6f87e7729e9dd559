import Calculator.Proofs.Binary64.Whole
import Calculator.Proofs.Exact.Arithmetic

namespace Calculator

/-- The number is a count, and not a floating-point number too great to be told from its
neighbours. -/
def Number.Counts (x : Number) (n : ℕ) : Prop :=
  x.value? = some (n : ℚ) ∧ ∀ y, x = .real y → n ≤ greatestCount

namespace Number

theorem count?_eq_some_iff {x : Number} {n : ℕ} : x.count? = some n ↔ x.Counts n := by
  cases x with
  | integer i =>
    have same : (integer i).value? = some (n : ℚ) ↔ i.toInt = n := by
      rw [value?, Option.some_inj]
      exact_mod_cast Iff.rfl
    rw [Counts, same, count?]
    constructor
    · intro found
      split at found
      · cases found
        exact ⟨by omega, by simp⟩
      · cases found
    · rintro ⟨value, -⟩
      rw [if_pos (by omega), value, Int.toNat_natCast]
  | real y =>
    rw [count?, exactCount?_eq_some_iff, Counts]
    refine and_congr_right fun _ => ⟨?_, fun bounded => bounded y rfl⟩
    rintro bounded _ ⟨⟩
    exact bounded

theorem Counts.unique {x : Number} {m n : ℕ} (hm : x.Counts m) (hn : x.Counts n) : m = n := by
  have same : (m : ℚ) = n := Option.some.inj (hm.1.symm.trans hn.1)
  exact_mod_cast same

theorem Is.unique {x y : Number} {n : ℤ} (hx : x.Is n) (hy : y.Is n) : x = y := by
  obtain ⟨i, rfl, hi⟩ := hx
  obtain ⟨j, rfl, hj⟩ := hy
  rw [Int64.toInt_inj.mp (hi.trans hj.symm)]

end Number

namespace Unary

variable (symbol : String) {x : Number} {n : ℕ}

theorem factorial_of_no_count (h : ∀ n, ¬ x.Counts n) :
    factorial.apply symbol x = .error (.invalidFactorial x.text) := by
  have none : x.count? = none := Option.eq_none_iff_forall_ne_some.mpr fun n found =>
    h n (Number.count?_eq_some_iff.mp found)
  rw [apply, applyFactorial, none]

theorem factorial_of_counts (h : x.Counts n) :
    factorial.apply symbol x = Number.exact symbol n.factorial := by
  rw [apply, applyFactorial, Number.count?_eq_some_iff.mpr h]
  exact congrArg (Number.checked symbol) (factorial?_eq n)

theorem factorial_of_le (h : x.Counts n) (small : n ≤ 20) :
    ∃ y, factorial.apply symbol x = .ok y ∧ y.Is n.factorial := by
  have fits : Exact.Fits n.factorial := by
    have bound : n.factorial ≤ Nat.factorial 20 := Nat.factorial_le small
    have most : Nat.factorial 20 < 2 ^ 63 := by decide
    exact ⟨by omega, by omega⟩
  rw [factorial_of_counts symbol h]
  exact Number.exact_of_fits symbol fits

theorem factorial_of_lt (h : x.Counts n) (large : 20 < n) :
    factorial.apply symbol x = .error (.overflow symbol) := by
  have outside : ¬ Exact.Fits n.factorial := by
    have least : 2 ^ 63 ≤ Nat.factorial 21 := by decide
    have bound : Nat.factorial 21 ≤ n.factorial := Nat.factorial_le large
    rintro ⟨-, most⟩
    omega
  rw [factorial_of_counts symbol h]
  exact Number.exact_of_not_fits symbol outside

end Unary

namespace Operation

/-- The outcome of a factorial is settled by what the operand counts as: nothing, a count with a
factorial in range, or a greater one. -/
structure SortsFactorials (counts : Number → ℕ → Prop) (symbol : String) : Prop where
  invalid : ∀ x : Number, applyUnary symbol (.unary .factorial) x = .error (.invalidFactorial x.text) ↔
    ∀ n, ¬ counts x n
  exact : ∀ x y : Number, applyUnary symbol (.unary .factorial) x = .ok y ↔
    ∃ n ≤ 20, counts x n ∧ y.Is n.factorial
  overflow : ∀ x : Number, applyUnary symbol (.unary .factorial) x = .error (.overflow symbol) ↔
    ∃ n, 20 < n ∧ counts x n

/-- Two factorials end alike, or refuse their operands each by its own text. -/
def SameFactorial (first second : Except RunError Number) : Prop :=
  first = second ∨
    ∃ s t, first = .error (.invalidFactorial s) ∧ second = .error (.invalidFactorial t)

/-- What the operand counts as is told by the outcome. -/
theorem factorial_cases (symbol : String) (x : Number) :
    (∀ n, ¬ x.Counts n) ∧
        applyUnary symbol (.unary .factorial) x = .error (.invalidFactorial x.text) ∨
      (∃ n ≤ 20, x.Counts n ∧
        ∃ y, applyUnary symbol (.unary .factorial) x = .ok y ∧ y.Is n.factorial) ∨
      ∃ n, 20 < n ∧ x.Counts n ∧
        applyUnary symbol (.unary .factorial) x = .error (.overflow symbol) := by
  by_cases counted : ∃ n, x.Counts n
  · obtain ⟨n, h⟩ := counted
    rcases Nat.lt_or_ge 20 n with large | small
    · exact .inr (.inr ⟨n, large, h, Unary.factorial_of_lt symbol h large⟩)
    · exact .inr (.inl ⟨n, small, h, Unary.factorial_of_le symbol h small⟩)
  · have none : ∀ n, ¬ x.Counts n := fun n h => counted ⟨n, h⟩
    exact .inl ⟨none, Unary.factorial_of_no_count symbol none⟩

theorem sortsFactorials (symbol : String) : SortsFactorials Number.Counts symbol where
  invalid x := by
    rcases factorial_cases symbol x with ⟨none, found⟩ | ⟨n, -, h, y, found, -⟩ | ⟨n, -, h, found⟩
    · exact iff_of_true found none
    · exact iff_of_false (by rw [found]; nofun) fun none => none n h
    · exact iff_of_false (by rw [found]; nofun) fun none => none n h
  exact x y := by
    rcases factorial_cases symbol x with
      ⟨none, found⟩ | ⟨n, small, h, z, found, is⟩ | ⟨n, large, h, found⟩
    · exact iff_of_false (by rw [found]; nofun) fun ⟨n, _, h, _⟩ => none n h
    · rw [found]
      constructor
      · rintro ⟨⟩
        exact ⟨n, small, h, is⟩
      · rintro ⟨m, -, hm, other⟩
        obtain rfl := h.unique hm
        rw [is.unique other]
    · refine iff_of_false (by rw [found]; nofun) ?_
      rintro ⟨m, small, hm, -⟩
      exact absurd small (by rw [hm.unique h]; omega)
  overflow x := by
    rcases factorial_cases symbol x with
      ⟨none, found⟩ | ⟨n, small, h, y, found, -⟩ | ⟨n, large, h, found⟩
    · exact iff_of_false (by rw [found]; nofun) fun ⟨n, _, h⟩ => none n h
    · refine iff_of_false (by rw [found]; nofun) ?_
      rintro ⟨m, large, hm⟩
      exact absurd small (by rw [h.unique hm]; omega)
    · exact iff_of_true found ⟨n, large, h⟩

theorem sameFactorial_of_counts (symbol : String) {x y : Number}
    (same : ∀ n, x.Counts n ↔ y.Counts n) :
    SameFactorial (applyUnary symbol (.unary .factorial) x)
      (applyUnary symbol (.unary .factorial) y) := by
  rcases factorial_cases symbol x with
    ⟨none, found⟩ | ⟨n, small, h, z, found, is⟩ | ⟨n, large, h, found⟩
  · have other := Unary.factorial_of_no_count symbol fun n h => none n ((same n).mpr h)
    exact .inr ⟨_, _, found, other⟩
  · obtain ⟨z', other, is'⟩ := Unary.factorial_of_le symbol ((same n).mp h) small
    rw [is'.unique is] at other
    exact .inl (found.trans other.symm)
  · exact .inl (found.trans (Unary.factorial_of_lt symbol ((same n).mp h) large).symm)

/-- Factorials are sorted by what their operands count as, and up to `2 ^ 53 - 1` a whole number and
a floating-point number of its value have the same. -/
theorem factorial_sorted (symbol : String) : SortsFactorials Number.Counts symbol ∧
    ∀ (i : Int64) (z : Float), (Number.real z).value? = some (i.toInt : ℚ) →
      i.toInt ≤ Number.greatestCount →
      SameFactorial (applyUnary symbol (.unary .factorial) (.integer i))
        (applyUnary symbol (.unary .factorial) (.real z)) := by
  refine ⟨sortsFactorials symbol, fun i z value bounded => ?_⟩
  refine sameFactorial_of_counts symbol fun n => ?_
  have whole : (Number.integer i).value? = some (i.toInt : ℚ) := rfl
  rw [Number.Counts, Number.Counts, whole, value]
  refine and_congr_right fun same => iff_of_true nofun ?_
  rintro _ ⟨⟩
  have equal : i.toInt = n := by exact_mod_cast Option.some.inj same
  omega

/-- `4` and `4.0` have the same factorial. -/
theorem factorial_sorted_four :
    (Number.real 4).value? = some ((Int64.toInt 4 : ℤ) : ℚ) ∧ Int64.toInt 4 ≤ Number.greatestCount ∧
      SameFactorial (applyUnary "!" (.unary .factorial) (.integer 4))
        (applyUnary "!" (.unary .factorial) (.real 4)) ∧
      applyUnary "!" (.unary .factorial) (.real 4) = .ok (.integer 24) := by
  obtain ⟨sorts, same⟩ := factorial_sorted "!"
  have value := Number.value?_nearestReal_of_le (n := 4) (by decide)
  have bounded : Int64.toInt 4 ≤ Number.greatestCount := by decide
  have counts : (Number.real 4).Counts 4 := ⟨value, fun _ _ => by decide⟩
  refine ⟨value, bounded, same 4 4 value bounded, ?_⟩
  exact (sorts.exact _ _).mpr ⟨4, by decide, counts, 24, rfl, by decide⟩

/-- `9007199254740992.0` is a count and is refused as if it were none, where the whole number of the
same value overflows. -/
theorem not_sortsFactorials_value :
    ¬ ∀ symbol, SortsFactorials (fun x n => x.value? = some (n : ℚ)) symbol := by
  intro always
  have value : (Number.real 9007199254740992).value? = some ((2 ^ 53 : ℕ) : ℚ) :=
    Number.value?_nearestReal_of_le (n := 9007199254740992) (by decide)
  have none (n : ℕ) : ¬ (Number.real 9007199254740992).Counts n := by
    rintro ⟨same, bounded⟩
    have equal : 2 ^ 53 = n := by exact_mod_cast Option.some.inj (value.symm.trans same)
    have := bounded _ rfl
    rw [← equal] at this
    exact absurd this (by decide)
  have refused : applyUnary "!" (.unary .factorial) (.real 9007199254740992) = _ :=
    Unary.factorial_of_no_count "!" none
  exact ((always "!").invalid _).mp refused _ value

end Operation

end Calculator
