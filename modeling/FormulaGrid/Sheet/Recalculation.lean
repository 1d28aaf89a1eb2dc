import FormulaGrid.Cascade
import FormulaGrid.Sheet.Content
import FormulaGrid.Sheet.Links

/-! # Recalculation

Setting the text of a cell evaluates the cell and then, once each, all cells that depend on it, each
after the cells that it depends on.  The first fault ends the recalculation: what has been evaluated
keeps its new value, and the rest its old one.
-/

namespace FormulaGrid

structure Update (rows columns : Nat) where
  place : Place rows columns
  value : String
  deriving DecidableEq, Repr

namespace Sheet

variable {rows columns : Nat}

/-- Evaluates a cell from its own text.  A text that cannot be read changes nothing.  A formula
that can be read, but not evaluated, changes the links of the cell and not its value. -/
def evaluateCell (p : Place rows columns) : Edit rows columns (Update rows columns) := fun s =>
  match Content.read (s.cell p).text with
  | .error fault => .error fault s
  | .ok content =>
    let linked := s.link p (content.references p)
    match content.value linked p with
    | .error fault => .error fault linked
    | .ok value => .ok ⟨p, value⟩ (linked.update p fun c => { c with value })

def cascade (s : Sheet rows columns) (origin : Place rows columns) :
    Except Fault (List (Place rows columns)) :=
  Cascade.order (fun p => (s.cell p).dependents) s.settings.depthLimit origin

/-- Evaluates a cell and all that depends on it, in the order of the cascade that the sheet has once
the cell itself is evaluated. -/
def recalculate (origin : Place rows columns) : Edit rows columns (List (Update rows columns)) := do
  -- evaluated before the walk, whose graph has the new links of the cell
  let first ← evaluateCell origin
  let order ← MonadExcept.ofExcept ((← get).cascade origin)
  let others ← order.tail.mapM evaluateCell
  return first :: others

/-- Sets the text of a cell and recalculates.  The answer holds the new value of each cell that was
evaluated, in order. -/
def setText (a : Address) (text : String) : Edit rows columns (List (Update rows columns)) := do
  let p ← MonadExcept.ofExcept (locate a)
  modify fun s => (s.update p fun c => { c with text }).reindex p
  recalculate p

end Sheet

end FormulaGrid
