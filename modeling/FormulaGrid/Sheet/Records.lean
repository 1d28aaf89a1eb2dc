import FormulaGrid.Sheet.Recalculation

namespace FormulaGrid

structure Record where
  address : Address
  text : String
  background : UInt32
  deriving DecidableEq, Repr

namespace Sheet

variable {rows columns : Nat}

def record (s : Sheet rows columns) (p : Place rows columns) : Record :=
  ⟨p.address, (s.cell p).text, (s.cell p).background⟩

def records (s : Sheet rows columns) : List Record :=
  s.occupied.map s.record

def enter (r : Record) : Edit rows columns Unit := do
  setBackground r.address r.background
  discard (setText r.address r.text)

/-- Replaces what the sheet holds by records.  The first fault ends the loading. -/
def load (records : List Record) : Edit rows columns Unit := do
  modify clear
  records.forM enter

end Sheet

end FormulaGrid
