/-!
# Double-precision numbers

A finite double is a mantissa times a power of two.  Decimals are rounded to the
nearest double in exact arithmetic, ties to the even mantissa.
-/

namespace Tidy

/-- A double-precision number; a finite one has a mantissa below `2 ^ 53`. -/
inductive Double where
  | nan
  | infinite (negative : Bool)
  | finite (negative : Bool) (mantissa : Nat) (exponent : Int)
  deriving DecidableEq

namespace Double

/-- The least exponent, that of zero and of the smallest numbers. -/
def leastExponent : Int := -1074

def greatestExponent : Int := 971

def scaleDown (numerator denominator : Nat) (exponent : Int) : Nat × Nat :=
  if 0 ≤ exponent then (numerator, denominator * Nat.pow 2 exponent.toNat)
  else (numerator * Nat.pow 2 (-exponent).toNat, denominator)

/-- Divide and round to the nearest number, ties to the even one. -/
def roundedQuotient (numerator denominator : Nat) : Nat :=
  let quotient := numerator / denominator
  let twice := 2 * (numerator % denominator)
  if denominator < twice || (twice == denominator && quotient % 2 == 1) then quotient + 1
  else quotient

/-- The exponent at which the mantissa of a fraction has 53 bits, or the least
one. -/
def exponentFor (numerator denominator : Nat) : Int :=
  let guess : Int := (Nat.log2 numerator : Int) - Nat.log2 denominator - 52
  let (scaled, unit) := scaleDown numerator denominator guess
  max leastExponent (if scaled < unit * Nat.pow 2 52 then guess - 1 else guess)

/-- The double nearest to a positive fraction. -/
def ofFraction (negative : Bool) (numerator denominator : Nat) : Double :=
  let exponent := exponentFor numerator denominator
  let (scaled, unit) := scaleDown numerator denominator exponent
  let mantissa := roundedQuotient scaled unit
  let (mantissa, exponent) :=
    if mantissa == Nat.pow 2 53 then (Nat.pow 2 52, exponent + 1) else (mantissa, exponent)
  if greatestExponent < exponent then .infinite negative
  else .finite negative mantissa exponent

def zero (negative : Bool) : Double :=
  .finite negative 0 leastExponent

/-- The double nearest to a decimal, `digits` times a power of ten. -/
def ofDecimal (negative : Bool) (digits : Nat) (power : Int) : Double :=
  if digits == 0 then zero negative
  else
    let magnitude := ((Nat.toDigits 10 digits).length : Int) + power
    if 400 < magnitude then .infinite negative
    else if magnitude < -400 then zero negative
    else if 0 ≤ power then ofFraction negative (digits * Nat.pow 10 power.toNat) 1
    else ofFraction negative digits (Nat.pow 10 (-power).toNat)

def isZero : Double → Bool
  | .finite _ mantissa _ => mantissa == 0
  | _ => false

/-- The integer next to a finite number in the direction of zero. -/
def truncate (negative : Bool) (mantissa : Nat) (exponent : Int) : Int :=
  let size : Nat :=
    if 0 ≤ exponent then mantissa * Nat.pow 2 exponent.toNat
    else mantissa / Nat.pow 2 (-exponent).toNat
  if negative then -(size : Int) else size

end Double

end Tidy
