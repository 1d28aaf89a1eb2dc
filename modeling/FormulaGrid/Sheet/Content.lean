import FormulaGrid.Formula
import FormulaGrid.Sheet.Basic

/-! # What the text of a cell means

A text that begins with an equals sign is a formula; any other text stands for itself.  A name in a
formula that names another cell of the grid refers to it, and has the value of that cell if the
value is a number.  Every other name has the value zero.
-/

namespace FormulaGrid

inductive Content where
  | plain (text : String)
  | formula (f : Formula)

namespace Content

variable {rows columns : Nat}

def read (text : String) : Except Fault Content :=
  match text.toList with
  | '=' :: body => (Formula.parse (String.ofList body)).map formula
  | _ => .ok (.plain text)

/-- The names in a formula at `home` that refer to other cells, in order of first appearance.  Two
names may refer to one cell. -/
def namedReferences (home : Place rows columns) : Content → List (String × Place rows columns)
  | plain _ => []
  | formula f => f.vars.names.filterMap fun name =>
    match Place.named? name with
    | some p => if p = home then none else some (name, p)
    | none => none

def references (home : Place rows columns) (c : Content) : List (Place rows columns) :=
  (c.namedReferences home).map Prod.snd

def bindReference (s : Sheet rows columns) (f : Formula) (reference : String × Place rows columns) :
    Except Fault Formula :=
  let cell := s.cell reference.2
  if cell.number?.isSome then f.setVariable reference.1 cell.value else .ok f

def value (s : Sheet rows columns) (home : Place rows columns) : Content → Except Fault String
  | plain text => .ok text
  | formula f => do
    let bound ← ((formula f).namedReferences home).foldlM (bindReference s) f
    let x ← bound.evaluate
    return Number.text x

end Content

end FormulaGrid
