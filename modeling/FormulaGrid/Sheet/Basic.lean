import FormulaGrid.Sheet.Cell

namespace FormulaGrid

structure Settings where
  /-- Links that a formula no longer needs are dropped when its cell is evaluated again. -/
  dropStale : Bool := true
  /-- The greatest number of cells on the path of the walk along the dependents. -/
  depthLimit : Nat := 256
  deriving DecidableEq, Repr

structure Sheet (rows columns : Nat) where
  settings : Settings
  cells : Vector (Cell rows columns) (rows * columns)
  /-- The places of the cells that are not empty, row after row. -/
  occupied : List (Place rows columns) := []
  deriving DecidableEq

/-- A change of a sheet with an answer.  A fault comes with the sheet as it was left. -/
abbrev Edit (rows columns : Nat) :=
  EStateM Fault (Sheet rows columns)

namespace Sheet

variable {rows columns : Nat}

/-! ## Cells -/

def blank (rows columns : Nat) (settings : Settings) : Sheet rows columns :=
  { settings, cells := Vector.ofFn fun i => { place := Place.ofIndex i } }

def create (rows columns : Nat) (settings : Settings) : Except Fault (Sheet rows columns) :=
  if rows = 0 ∨ columns = 0 then
    .error (.invalidDimensions rows columns)
  else
    .ok (blank rows columns settings)

def cell (s : Sheet rows columns) (p : Place rows columns) : Cell rows columns :=
  s.cells[p.index]

def cell? (s : Sheet rows columns) (a : Address) : Option (Cell rows columns) :=
  (Place.ofAddress? a).map s.cell

def named? (s : Sheet rows columns) (name : String) : Option (Cell rows columns) :=
  (Place.named? name).map s.cell

def update (s : Sheet rows columns) (p : Place rows columns)
    (f : Cell rows columns → Cell rows columns) : Sheet rows columns :=
  { s with cells := s.cells.set p.index (f (s.cell p)) }

theorem cell_blank (settings : Settings) (p : Place rows columns) :
    (blank rows columns settings).cell p = { place := p } := by
  simp [blank, cell, Fin.getElem_fin]

@[simp]
theorem settings_update (s : Sheet rows columns) (p : Place rows columns)
    (f : Cell rows columns → Cell rows columns) : (s.update p f).settings = s.settings :=
  rfl

@[simp]
theorem occupied_update (s : Sheet rows columns) (p : Place rows columns)
    (f : Cell rows columns → Cell rows columns) : (s.update p f).occupied = s.occupied :=
  rfl

theorem cell_update (s : Sheet rows columns) (p q : Place rows columns)
    (f : Cell rows columns → Cell rows columns) :
    (s.update p f).cell q = if p = q then f (s.cell q) else s.cell q := by
  simp only [update, cell, Fin.getElem_fin, Vector.getElem_set]
  by_cases h : p = q
  · subst h
    simp
  · have hne : (p.index : Nat) ≠ q.index := fun e => h (Place.index_injective (Fin.ext e))
    simp [h, hne]

def locate (a : Address) : Except Fault (Place rows columns) :=
  match Place.ofAddress? a with
  | some p => .ok p
  | none => .error (.outOfBounds a.row a.column)

/-! ## Occupied places -/

def insertPlace (p : Place rows columns) : List (Place rows columns) → List (Place rows columns)
  | [] => [p]
  | q :: qs =>
    if p = q then q :: qs
    else if p.index < q.index then p :: q :: qs
    else q :: insertPlace p qs

def reindex (s : Sheet rows columns) (p : Place rows columns) : Sheet rows columns :=
  if (s.cell p).isEmpty then
    { s with occupied := s.occupied.filter fun q => q != p }
  else
    { s with occupied := insertPlace p s.occupied }

@[simp]
theorem cell_reindex (s : Sheet rows columns) (p q : Place rows columns) :
    (s.reindex p).cell q = s.cell q := by
  unfold reindex
  split <;> rfl

@[simp]
theorem settings_reindex (s : Sheet rows columns) (p : Place rows columns) :
    (s.reindex p).settings = s.settings := by
  simp only [reindex]
  split <;> rfl

theorem mem_insertPlace {p q : Place rows columns} {ps : List (Place rows columns)} :
    q ∈ insertPlace p ps ↔ q = p ∨ q ∈ ps := by
  induction ps with
  | nil => simp [insertPlace]
  | cons r ps ih =>
    simp only [insertPlace]
    split
    · rename_i h
      simp [h]
    · split
      · simp
      · simp only [List.mem_cons, ih]
        grind

def setBackground (a : Address) (background : UInt32) : Edit rows columns Unit := do
  let p ← MonadExcept.ofExcept (locate a)
  modify fun s => (s.update p fun c => { c with background }).reindex p

def clear (s : Sheet rows columns) : Sheet rows columns :=
  { s with cells := s.cells.map Cell.reset, occupied := [] }

theorem cell_clear (s : Sheet rows columns) (p : Place rows columns) :
    s.clear.cell p = (s.cell p).reset := by
  simp [clear, cell, Fin.getElem_fin]

end Sheet

end FormulaGrid
