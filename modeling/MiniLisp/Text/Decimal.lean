import MiniLisp.Text.Binary

/-!
# Decimal fractions

A decimal fraction is an integer divided by a power of ten.  It is read as the nearest binary
fraction and written with the fewest digits that are read as the same one, in positional notation
from one ten-thousandth up to below one million and with an exponent outside that range.
-/

namespace MiniLisp.Text

/-- The fraction `mantissa / 10 ^ places`. -/
structure Decimal where
  mantissa : Int
  places : Nat
  deriving DecidableEq, Repr

namespace Decimal

/-- The number of digits that tell any two binary fractions apart. -/
def maxDigits : Nat := 17

/-- The binary fraction nearest to `number * 10 ^ exponent`. -/
def read (number : Nat) (exponent : Int) : Binary :=
  Binary.nearest (number * Nat.pow 10 exponent.toNat) (Nat.pow 10 (-exponent).toNat)

/-- The exponent of the first digit of a positive quotient. -/
def leading (numerator denominator : Nat) : Int :=
  if denominator ≤ numerator then
    (Nat.toDigits 10 (numerator / denominator)).length - 1
  else
    let zeros := (Nat.toDigits 10 (denominator / numerator)).length
    if denominator ≤ numerator * Nat.pow 10 (zeros - 1) then 1 - zeros else -zeros

/-- The multiple of `10 ^ exponent` that is read as a binary fraction: of the two around it the only
one that is, or the nearer one, or the even one if both are equally near. -/
def onGrid? (binary : Binary) (exponent : Int) : Option Nat :=
  let (numerator, denominator) := binary.toQuotient
  let numerator := numerator * Nat.pow 10 (-exponent).toNat
  let denominator := denominator * Nat.pow 10 exponent.toNat
  let below := numerator / denominator
  match read below exponent == binary, read (below + 1) exponent == binary with
  | true, true => some (roundQuotient numerator denominator)
  | true, false => some below
  | false, true => some (below + 1)
  | false, false => none

/-- The fewest digits that are read as a positive binary fraction: a number, and the exponent of its
last digit. -/
def shortest (binary : Binary) : Nat × Int :=
  let (numerator, denominator) := binary.toQuotient
  let first := leading numerator denominator
  let found := (List.range maxDigits).findSome? fun (further : Nat) =>
    (onGrid? binary (first - further)).map fun number => (number, first - further)
  found.getD (numerator, 0)

/-- The digits of a positive number without the zeros at their end. -/
def significant (digits : List Char) : List Char :=
  (digits.reverse.dropWhile (· == '0')).reverse

/-- A positive fraction with its point in front of the digits, moved by `exponent` places. -/
def positional (digits : List Char) (exponent : Int) : List Char :=
  if exponent < 0 then
    '0' :: '.' :: List.replicate (-exponent - 1).toNat '0' ++ digits
  else
    let whole := digits.take (exponent.toNat + 1)
    let padded := whole ++ List.replicate (exponent.toNat + 1 - whole.length) '0'
    match digits.drop (exponent.toNat + 1) with
    | [] => padded
    | fraction => padded ++ '.' :: fraction

/-- A positive fraction as one digit, the others behind a point, and an exponent of two digits or
more. -/
def scientific (digits : List Char) (exponent : Int) : List Char :=
  let sign := if exponent < 0 then '-' else '+'
  let size := Nat.toDigits 10 exponent.natAbs
  let size := if size.length < 2 then '0' :: size else size
  let tail := match digits.drop 1 with
    | [] => []
    | fraction => '.' :: fraction
  digits.take 1 ++ tail ++ 'e' :: sign :: size

/-- The text of a binary fraction without sign. -/
def magnitude (binary : Binary) : List Char :=
  if binary.significand = 0 then ['0']
  else
    let (number, last) := shortest binary
    let digits := Nat.toDigits 10 number
    let exponent : Int := digits.length - 1 + last
    if exponent < -4 ∨ 6 ≤ exponent then scientific (significant digits) exponent
    else positional (significant digits) exponent

/-- The text of a fraction. -/
def render (decimal : Decimal) : String :=
  let body := magnitude (read decimal.mantissa.natAbs (-decimal.places))
  String.ofList (if decimal.mantissa < 0 then '-' :: body else body)

end Decimal

end MiniLisp.Text
