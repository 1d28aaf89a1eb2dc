/-! # Doubles as exact numbers

A finite double is a whole number of units of a power of two.  The next value above lies one unit
away, and the next value below too, unless the mantissa is the least of its binade, where it is only
half a unit away.
-/

namespace FormulaGrid

/-- The magnitude of a finite double: `mantissa * 2 ^ exponent`. -/
structure Binary64 where
  mantissa : Nat
  exponent : Int
  /-- The next value below is half as far away as the next value above. -/
  narrowBelow : Bool
  deriving DecidableEq, Repr

namespace Binary64

inductive Magnitude where
  | finite (value : Binary64)
  | infinite
  | notANumber
  deriving DecidableEq, Repr

/-- The magnitude with the given fields: eleven bits of exponent and fifty-two of fraction.
Exponent zero has no implicit leading bit, and the greatest exponent is kept for what is not
finite. -/
def Magnitude.ofFields (exponent fraction : Nat) : Magnitude :=
  if exponent = 2047 then
    if fraction = 0 then infinite else notANumber
  else if exponent = 0 then
    finite ⟨fraction, -1074, false⟩
  else
    finite ⟨Nat.pow 2 52 + fraction, exponent - 1075, fraction = 0 && exponent != 1⟩

def ofFloat (x : Float) : Bool × Magnitude :=
  let bits := x.toBits.toNat
  let exponent := bits / Nat.pow 2 52 % Nat.pow 2 11
  (Nat.pow 2 63 ≤ bits, .ofFields exponent (bits % Nat.pow 2 52))

end Binary64

end FormulaGrid
