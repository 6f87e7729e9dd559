namespace Calculator

/-- A floating-point number taken apart: `finite negative m e` stands for `± m * 2 ^ e`. -/
inductive Binary64 where
  | nan
  | infinite (negative : Bool)
  | finite (negative : Bool) (significand : Nat) (exponent : Int)
deriving DecidableEq, Repr

namespace Binary64

def ofFloat (x : Float) : Binary64 :=
  match x.toModel.unpack with
  | .notANumber => .nan
  | .infinity sign => .infinite (sign matches .negative)
  | .zero sign => .finite (sign matches .negative) 0 0
  | .finite sign m e _ => .finite (sign matches .negative) m e

/-- The whole number `m * 2 ^ e`, unless a fraction is left. -/
def wholeMagnitude? (m : Nat) (e : Int) : Option Nat :=
  if 0 ≤ e then some (m * Nat.pow 2 e.toNat)
  else if m % Nat.pow 2 (-e).toNat = 0 then some (m / Nat.pow 2 (-e).toNat)
  else none

/-- The whole number that a value equals, if it is finite and has no fraction. -/
def whole? : Binary64 → Option Int
  | .finite negative m e => (wholeMagnitude? m e).map fun n => if negative then -n else n
  | _ => none

/-- The remainder of `x` by `y` when the quotient is cut toward zero. It is exact and carries the
sign of `x`: on the finer of the two exponents it is a remainder of whole numbers, and smaller
than one of the significands. -/
def remainder (x y : Float) : Float :=
  match ofFloat x, ofFloat y with
  | .finite .., .infinite _ => x
  | .finite negative m e, .finite _ n f =>
    if n = 0 then 0 / 0
    else
      let low := min e f
      let left := (m <<< (e - low).toNat) % (n <<< (f - low).toNat)
      let magnitude := (Float.ofNat left).scaleB low
      if negative then -magnitude else magnitude
  | _, _ => 0 / 0

end Binary64

end Calculator
