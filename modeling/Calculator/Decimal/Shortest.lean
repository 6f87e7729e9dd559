namespace Calculator.Decimal

/-- A whole number of units of a power of ten. -/
structure Scaled where
  digits : Nat
  exponent : Int
deriving DecidableEq, Repr

/-- The reals that round to one binary value, in units of `2 ^ exponent`. -/
structure Interval where
  low : Nat
  value : Nat
  high : Nat
  exponent : Int
  closed : Bool
deriving DecidableEq, Repr

/-- The interval of `m * 2 ^ e` reaches half way to its neighbours. The neighbour below a power of
two is nearer, except at the least exponent. An end belongs to the interval when ties go to the
even significand `m`. -/
def Interval.of (m : Nat) (e : Int) : Interval where
  low := 4 * m - (if m = Nat.pow 2 52 ∧ -1074 < e then 1 else 2)
  value := 4 * m
  high := 4 * m + 2
  exponent := e - 2
  closed := m % 2 = 0

namespace Interval

/-- Factors `a` and `b` with `d * 10 ^ k ≤ c * 2 ^ q ↔ d * a ≤ c * b`. -/
def factors (k q : Int) : Nat × Nat :=
  (Nat.pow 10 k.toNat * Nat.pow 2 (-q).toNat, Nat.pow 10 (-k).toNat * Nat.pow 2 q.toNat)

def contains (i : Interval) (k : Int) (d : Nat) : Bool :=
  let (a, b) := factors k i.exponent
  if i.closed then i.low * b ≤ d * a && d * a ≤ i.high * b
  else i.low * b < d * a && d * a < i.high * b

/-- The multiple of `10 ^ k` in the interval that is nearest to the value; half way goes up. -/
def nearest? (i : Interval) (k : Int) : Option Nat :=
  let (a, b) := factors k i.exponent
  let below := i.value * b / a
  let above := below + 1
  match i.contains k below, i.contains k above with
  | true, true =>
    if above * a - i.value * b ≤ i.value * b - below * a then some above else some below
  | true, false => some below
  | false, true => some above
  | false, false => none

/-- A power of ten above the value: `0.30103` is the decimal logarithm of two. -/
def ceiling (i : Interval) : Int :=
  let bits : Int := i.high.log2 + 1 + i.exponent
  if 0 ≤ bits then bits * 31 / 100 + 1 else bits * 30 / 100 + 1

/-- The first grid with a hit, going down from a power of ten above the value. Seventeen digits
always suffice, and the start is at most a dozen powers too high. -/
def shortest (i : Interval) : Scaled :=
  ((List.range 48).findSome? fun (n : Nat) =>
    (i.nearest? (i.ceiling - n)).map fun d => ⟨d, i.ceiling - n⟩).getD ⟨0, 0⟩

end Interval

end Calculator.Decimal
