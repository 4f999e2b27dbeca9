/-!
# Binary fractions

The fractions of a host have at most 53 binary digits, the last of which stands no further than 1074
places behind the point.  Every other fraction is read as the nearest of these, and a fraction half
way between two of them as the one whose last digit is even.
-/

namespace MiniLisp.Text

/-- A quotient rounded to the nearest integer; a half goes to the even neighbour. -/
def roundQuotient (numerator denominator : Nat) : Nat :=
  let quotient := numerator / denominator
  let twice := 2 * (numerator % denominator)
  if twice < denominator ∨ (twice = denominator ∧ quotient % 2 = 0) then quotient else quotient + 1

/-- The number `significand * 2 ^ exponent`. -/
structure Binary where
  significand : Nat
  exponent : Int
  deriving DecidableEq, Repr

namespace Binary

/-- The number of binary digits. -/
def precision : Nat := 53

/-- The smallest exponent. -/
def minExponent : Int := -1074

/-- The number as a quotient of two integers. -/
def toQuotient (binary : Binary) : Nat × Nat :=
  (binary.significand <<< binary.exponent.toNat, 1 <<< (-binary.exponent).toNat)

/-- The quotient of two integers over a power of two, rounded to an integer. -/
def scaled (numerator denominator : Nat) (exponent : Int) : Nat :=
  roundQuotient (numerator <<< (-exponent).toNat) (denominator <<< exponent.toNat)

/-- The exponent at which a positive quotient has all its digits in front of the point. -/
def exponentOf (numerator denominator : Nat) : Int :=
  let guess : Int := numerator.log2 - denominator.log2 - (precision - 1 : Nat)
  let short := numerator <<< (-guess).toNat < denominator <<< guess.toNat <<< (precision - 1)
  max minExponent (if short then guess - 1 else guess)

/-- The binary fraction nearest to a quotient. -/
def nearest (numerator denominator : Nat) : Binary :=
  if numerator = 0 then ⟨0, minExponent⟩
  else
    let exponent := exponentOf numerator denominator
    let significand := scaled numerator denominator exponent
    if significand = 1 <<< precision then ⟨1 <<< (precision - 1), exponent + 1⟩
    else ⟨significand, exponent⟩

end Binary

end MiniLisp.Text
