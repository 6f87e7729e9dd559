import Calculator.Binary64
import Calculator.Decimal.Shortest

namespace Calculator.Decimal

/-- The decisions of a way to write floating-point numbers. -/
structure Layout where
  /-- Leading digits from `10 ^ least` to `10 ^ most` are set positionally. -/
  least : Int
  most : Int
  /-- Follows a whole number that is set positionally. -/
  wholeMark : String
  exponentMark : String
  minus : String
  infinity : String
  notANumber : String

namespace Layout

def zeros (n : Nat) : String := String.ofList (List.replicate n '0')

/-- Sets digits positionally, the last of them worth `10 ^ k`. -/
def positional (l : Layout) (digits : List Char) (k : Int) : String :=
  if 0 ≤ k then String.ofList digits ++ zeros k.toNat ++ l.wholeMark
  else
    let places := (-k).toNat
    let whole := digits.length - places
    if whole = 0 then "0." ++ zeros (places - digits.length) ++ String.ofList digits
    else String.ofList (digits.take whole) ++ "." ++ String.ofList (digits.drop whole)

/-- Sets one digit, the others as a fraction, and the power of ten of the first. -/
def scientific (l : Layout) (digits : List Char) (power : Int) : String :=
  let fraction := if digits.length ≤ 1 then "" else "." ++ String.ofList (digits.drop 1)
  String.ofList (digits.take 1) ++ fraction ++ l.exponentMark ++ toString power

def magnitude (l : Layout) (m : Nat) (e : Int) : String :=
  if m = 0 then l.positional ['0'] 0
  else
    let short := (Interval.of m e).shortest
    let digits := Nat.toDigits 10 short.digits
    let power := short.exponent + digits.length - 1
    if l.least ≤ power ∧ power ≤ l.most then l.positional digits short.exponent
    else l.scientific digits power

def sign (l : Layout) (negative : Bool) : String := if negative then l.minus else ""

def write (l : Layout) : Binary64 → String
  | .nan => l.notANumber
  | .infinite negative => l.sign negative ++ l.infinity
  | .finite negative m e => l.sign negative ++ l.magnitude m e

end Layout

end Calculator.Decimal
