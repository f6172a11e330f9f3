import Tidy.Number.Double

/-!
# Shortest decimals

A double is written with the fewest digits that read back as the same double,
and of those with the ones nearest to it.
-/

namespace Tidy.Double

def fraction (mantissa : Nat) (exponent : Int) : Nat × Nat :=
  if 0 ≤ exponent then (mantissa * Nat.pow 2 exponent.toNat, 1)
  else (mantissa, Nat.pow 2 (-exponent).toNat)

/-- How many decimal digits stand before the point; at most zero for a fraction
that starts with zeros. -/
def magnitude (numerator denominator : Nat) : Int :=
  ((Nat.toDigits 10 (numerator * Nat.pow 10 400 / denominator)).length : Int) - 400

/-- The two neighbours of a fraction among the multiples of a power of ten, as
multiples, the nearer one first; of two equally near ones the even one. -/
def neighbours (numerator denominator : Nat) (power : Int) : List Nat :=
  let (scaled, unit) :=
    if 0 ≤ power then (numerator, denominator * Nat.pow 10 power.toNat)
    else (numerator * Nat.pow 10 (-power).toNat, denominator)
  let below := scaled / unit
  let twice := 2 * (scaled % unit)
  if twice < unit || (twice == unit && below % 2 == 0) then [below, below + 1]
  else [below + 1, below]

/-- The first decimal with at least `count` digits that reads back; `fuel` more
digits may be tried. -/
def shortestFrom (mantissa : Nat) (exponent : Int) (count : Nat) : Nat → Nat × Int
  | 0 => (mantissa, 0)
  | fuel + 1 =>
      let (numerator, denominator) := fraction mantissa exponent
      let power := magnitude numerator denominator - count
      let readsBack := fun digits =>
        ofDecimal false digits power == .finite false mantissa exponent
      match (neighbours numerator denominator power).find? readsBack with
      | some digits => (digits, power)
      | none => shortestFrom mantissa exponent (count + 1) fuel

/-- The shortest decimal of a positive finite double: digits and the power of
ten.  Seventeen digits always suffice. -/
def shortest (mantissa : Nat) (exponent : Int) : Nat × Int :=
  shortestFrom mantissa exponent 1 17

def dropZeros (digits : List Char) : List Char :=
  (digits.reverse.dropWhile fun digit => digit == '0').reverse

/-- An exponent: the sign and at least two digits. -/
def writeExponent (exponent : Int) : List Char :=
  let digits := Nat.toDigits 10 exponent.natAbs
  let padded := if digits.length < 2 then '0' :: digits else digits
  'e' :: (if exponent < 0 then '-' else '+') :: padded

/-- Write significant digits with `point` of them before the point: positionally
from four zeros behind the point up to sixteen digits before it, else with an
exponent. -/
def writeDigits (digits : List Char) (point : Int) : List Char :=
  if 16 < point || point < -3 then
    let fractional := digits.drop 1
    digits.take 1 ++ (if fractional.isEmpty then [] else '.' :: fractional) ++
      writeExponent (point - 1)
  else if point ≤ 0 then
    ['0', '.'] ++ List.replicate (-point).toNat '0' ++ digits
  else
    let whole := digits.take point.toNat
    let fractional := digits.drop point.toNat
    whole ++ List.replicate (point.toNat - digits.length) '0' ++ ['.'] ++
      (if fractional.isEmpty then ['0'] else fractional)

def write : Double → String
  | .nan => "nan"
  | .infinite negative => if negative then "-inf" else "inf"
  | .finite negative mantissa exponent =>
      let body :=
        if mantissa == 0 then ['0', '.', '0']
        else
          let (decimal, power) := shortest mantissa exponent
          let digits := Nat.toDigits 10 decimal
          writeDigits (dropZeros digits) (digits.length + power)
      String.ofList (if negative then '-' :: body else body)

end Tidy.Double
