namespace Calculator.Decimal

def digit (c : Char) : Nat := c.toNat - '0'.toNat

/-- The value of a run of decimal digits. -/
def value (digits : List Char) : Nat := digits.foldl (fun n c => 10 * n + digit c) 0

def signed (negative : Bool) (x : Float) : Float := if negative then -x else x

/-- Takes a leading sign off. -/
def unsign : List Char → Bool × List Char
  | '-' :: r => (true, r)
  | '+' :: r => (false, r)
  | r => (false, r)

/-- The power of ten behind the digits: nothing, or a mark, an optional sign and digits. -/
def power? : List Char → Option Int
  | [] => some 0
  | c :: r =>
    let (negative, digits) := unsign r
    if (c = 'e' ∨ c = 'E') ∧ digits ≠ [] ∧ digits.all Char.isDigit then
      some (if negative then -(value digits : Int) else value digits)
    else none

/-- The nearest floating-point number to `m * 10 ^ e`. -/
def nearest (m : Nat) (e : Int) : Float := Float.ofScientific m (e < 0) e.natAbs

/-- Reads a text without sign. -/
def readMagnitude? (text : List Char) : Option Float :=
  let word := text.map Char.toLower
  if word = "inf".toList ∨ word = "infinity".toList then some (1 / 0)
  else if word = "nan".toList then some (0 / 0)
  else
    let whole := text.takeWhile Char.isDigit
    let behind := text.dropWhile Char.isDigit
    let (fraction, tail) := match behind with
      | '.' :: r => (r.takeWhile Char.isDigit, r.dropWhile Char.isDigit)
      | _ => ([], behind)
    if whole = [] ∧ fraction = [] then none
    else (power? tail).map fun e => nearest (value (whole ++ fraction)) (e - fraction.length)

/-- Reads an optional sign and a word, or digits with at most one point and an optional power of ten.
The value is rounded once. -/
def read? (text : List Char) : Option Float :=
  let (negative, magnitude) := unsign text
  (readMagnitude? magnitude).map (signed negative)

end Calculator.Decimal
