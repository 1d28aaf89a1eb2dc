namespace FormulaGrid

/-- The number `significand * 10 ^ exponent`. -/
structure Decimal where
  significand : Nat
  exponent : Int
  deriving DecidableEq, Repr

namespace Decimal

def pointed (digits : List Char) (places : Nat) : List Char :=
  let padded := List.replicate (places + 1 - digits.length) '0' ++ digits
  padded.take (padded.length - places) ++ '.' :: padded.drop (padded.length - places)

def positional (d : Decimal) : List Char :=
  let digits := Nat.toDigits 10 d.significand
  match d.exponent with
  | .ofNat zeros => digits ++ List.replicate zeros '0'
  | .negSucc n => pointed digits (n + 1)

/-- The decimal in double precision, rounded to the nearest value and in a tie to the even one.
Far beyond the range of doubles the number is not worked out.  Ten is more than two to the third, so
with `bits` as the logarithm of the significand a decimal with a positive exponent is at least two
to the power `bits + 3 * exponent`, and one with a negative exponent is less than twice that. -/
def toFloat (d : Decimal) : Float :=
  let magnitude := d.significand.log2 + 3 * d.exponent
  if d.significand = 0 || magnitude < -1100 then
    0
  else if 0 ≤ d.exponent && 1024 ≤ magnitude then
    1 / 0
  else
    Float.ofScientific d.significand (d.exponent < 0) d.exponent.natAbs

end Decimal

end FormulaGrid
