import FormulaGrid.Decimal.Basic
import FormulaGrid.Decimal.Binary64

/-! # Shortest decimals

The shortest decimal of a double is the one with the fewest digits among those that round to it,
and of these the nearest to it; of two equally near ones it is the greater.

The decimals with a given exponent form a grid, and the double lies between two neighbours on it,
or on it.  If any point of the grid rounds to the double, one of these two does.  The search goes
from a grid too coarse to a grid that the double lies on, and stops at the first hit.
-/

namespace FormulaGrid.Binary64

/-- A double measured on a decimal grid: it is `num / den` steps above zero, and the distance to the
next double above is `unit / den` steps. -/
structure OnGrid where
  num : Nat
  unit : Nat
  den : Nat
  deriving DecidableEq, Repr

def onGrid (x : Binary64) (exponent : Int) : OnGrid :=
  let unit := Nat.pow 2 x.exponent.toNat * Nat.pow 10 (-exponent).toNat
  { num := x.mantissa * unit
    unit
    den := Nat.pow 2 (-x.exponent).toNat * Nat.pow 10 exponent.toNat }

/-- Whether twice a distance stays within a gap to a neighbour of `x`, so that what lies at that
distance on this side rounds to `x`.  A tie goes to the even mantissa. -/
def within (x : Binary64) (doubled gap : Nat) : Bool :=
  if x.mantissa % 2 = 0 then doubled ≤ gap else doubled < gap

/-- The nearest point of the grid that rounds to `x`, counted in steps, if there is any.  Below a
narrow double the gap is half a unit, which the comparison meets with twice the distance. -/
def nearest? (x : Binary64) (exponent : Int) : Option Nat :=
  let g := x.onGrid exponent
  let below := g.num / g.den
  let rest := g.num % g.den
  let belowRounds := x.within ((if x.narrowBelow then 4 else 2) * rest) g.unit
  let aboveRounds := x.within (2 * (g.den - rest)) g.unit
  if belowRounds && (!aboveRounds || 2 * rest < g.den) then
    some below
  else if aboveRounds then
    some (below + 1)
  else
    none

def searchFrom (x : Binary64) (finest : Int) : Nat → Decimal
  | 0 => ⟨(x.nearest? finest).getD 0, finest⟩
  | steps + 1 =>
    match x.nearest? (finest + (steps + 1)) with
    | some significand => ⟨significand, finest + (steps + 1)⟩
    | none => searchFrom x finest steps

def finestGrid (x : Binary64) : Int :=
  min 0 x.exponent

/-- The exponent of a grid so coarse that twice the double is below its first step.  A number of
`n` bits has no more than `n * 0.30103` digits, rounded up. -/
def coarsestGrid (x : Binary64) : Int :=
  Int.fdiv ((x.mantissa.log2 + x.exponent + 1) * 30103) 100000 + 2

def shortest (x : Binary64) : Decimal :=
  x.searchFrom x.finestGrid (x.coarsestGrid - x.finestGrid).toNat

end FormulaGrid.Binary64
