import FormulaGrid.Number
import FormulaGrid.Place

namespace FormulaGrid

structure Cell (rows columns : Nat) where
  place : Place rows columns
  text : String := ""
  value : String := ""
  /-- The colour, as alpha, red, green and blue; opaque white unless it is set. -/
  background : UInt32 := 0xFFFFFFFF
  /-- The cells whose formulas refer to this one. -/
  dependents : List (Place rows columns) := []
  /-- The cells that the formula of this one refers to. -/
  precedents : List (Place rows columns) := []
  deriving DecidableEq, Repr

namespace Cell

variable {rows columns : Nat}

def isEmpty (c : Cell rows columns) : Bool :=
  c.text.isEmpty && c.background == 0xFFFFFFFF

def number? (c : Cell rows columns) : Option Float :=
  Number.parse? c.value

def reset (c : Cell rows columns) : Cell rows columns :=
  { place := c.place }

def enlist (p : Place rows columns) (ps : List (Place rows columns)) : List (Place rows columns) :=
  if p ∈ ps then ps else ps ++ [p]

def addDependent (p : Place rows columns) (c : Cell rows columns) : Cell rows columns :=
  { c with dependents := enlist p c.dependents }

def removeDependent (p : Place rows columns) (c : Cell rows columns) : Cell rows columns :=
  { c with dependents := c.dependents.filter fun q => q != p }

def addPrecedent (p : Place rows columns) (c : Cell rows columns) : Cell rows columns :=
  { c with precedents := enlist p c.precedents }

end Cell

end FormulaGrid
