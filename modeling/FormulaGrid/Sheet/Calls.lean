import FormulaGrid.Sheet.Records

namespace FormulaGrid

inductive Call where
  | setText (a : Address) (text : String)
  | setBackground (a : Address) (background : UInt32)
  | clear
  | load (records : List Record)

namespace Sheet

variable {rows columns : Nat}

/-- Makes a call.  The answer holds the updates, which only a text has. -/
def perform : Call → Edit rows columns (List (Update rows columns))
  | .setText a text => setText a text
  | .setBackground a background => do
    setBackground a background
    return []
  | .clear => do
    modify clear
    return []
  | .load records => do
    load records
    return []

end Sheet

end FormulaGrid
