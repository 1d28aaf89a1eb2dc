import FormulaGrid.Sheet.Basic

/-! # Links between cells

Each link is kept at both of its ends.  A cell is linked anew each time it is evaluated.  Where
stale links are dropped, those that its formula no longer needs are taken from both ends first;
otherwise links are only ever added.
-/

namespace FormulaGrid.Sheet

variable {rows columns : Nat}

/-- Drops the links from a cell to the cells that it does not refer to any more, and forgets which
cells it refers to. -/
def dropLinks (s : Sheet rows columns) (p : Place rows columns)
    (references : List (Place rows columns)) : Sheet rows columns :=
  let stale := (s.cell p).precedents.filter fun q => q ∉ references
  stale.foldl (fun s q => s.update q (Cell.removeDependent p))
    (s.update p fun c => { c with precedents := [] })

def connect (p : Place rows columns) (s : Sheet rows columns) (q : Place rows columns) :
    Sheet rows columns :=
  (s.update q (Cell.addDependent p)).update p (Cell.addPrecedent q)

def link (s : Sheet rows columns) (p : Place rows columns)
    (references : List (Place rows columns)) : Sheet rows columns :=
  references.foldl (connect p) (if s.settings.dropStale then s.dropLinks p references else s)

/-! ## What linking leaves alone -/

/-- What one step of a fold over a sheet leaves alone, the fold leaves alone. -/
theorem foldl_unchanged {α : Type} {view : Sheet rows columns → α}
    {step : Sheet rows columns → Place rows columns → Sheet rows columns}
    (hstep : ∀ s q, view (step s q) = view s) (s : Sheet rows columns)
    (qs : List (Place rows columns)) : view (qs.foldl step s) = view s := by
  induction qs generalizing s with
  | nil => rfl
  | cons q qs ih => rw [List.foldl_cons, ih, hstep]

/-- What the changes of single cells leave alone, linking leaves alone. -/
theorem link_unchanged {α : Type} {view : Sheet rows columns → α} {p : Place rows columns}
    (hforget : ∀ s : Sheet rows columns,
      view (s.update p fun c => { c with precedents := [] }) = view s)
    (hremove : ∀ (s : Sheet rows columns) q, view (s.update q (Cell.removeDependent p)) = view s)
    (hconnect : ∀ s q, view (connect p s q) = view s)
    (s : Sheet rows columns) (references : List (Place rows columns)) :
    view (s.link p references) = view s := by
  simp only [link]
  rw [foldl_unchanged hconnect]
  split
  · unfold dropLinks
    rw [foldl_unchanged hremove, hforget]
  · rfl

@[simp]
theorem settings_link (s : Sheet rows columns) (p : Place rows columns)
    (references : List (Place rows columns)) : (s.link p references).settings = s.settings :=
  link_unchanged (fun _ => rfl) (fun _ _ => rfl) (fun _ _ => rfl) s references

@[simp]
theorem occupied_link (s : Sheet rows columns) (p : Place rows columns)
    (references : List (Place rows columns)) : (s.link p references).occupied = s.occupied :=
  link_unchanged (fun _ => rfl) (fun _ _ => rfl) (fun _ _ => rfl) s references

/-- A view of a cell is the same after a change of the cell that it does not show. -/
theorem view_cell_update {α : Type} {view : Cell rows columns → α}
    {f : Cell rows columns → Cell rows columns} (hf : ∀ c, view (f c) = view c)
    (s : Sheet rows columns) (p q : Place rows columns) :
    view ((s.update p f).cell q) = view (s.cell q) := by
  rw [cell_update]
  split
  · exact hf _
  · rfl

/-- Linking shows only in the links: no view of a cell that leaves them out can tell. -/
theorem view_cell_link {α : Type} {view : Cell rows columns → α}
    (hview : ∀ (c : Cell rows columns) dependents precedents,
      view { c with dependents, precedents } = view c)
    (s : Sheet rows columns) (p : Place rows columns) (references : List (Place rows columns))
    (q : Place rows columns) : view ((s.link p references).cell q) = view (s.cell q) := by
  have hadd : ∀ (r : Place rows columns) (c : Cell rows columns),
      view (c.addDependent r) = view c := fun _ c => hview c _ _
  have hrefer : ∀ (r : Place rows columns) (c : Cell rows columns),
      view (c.addPrecedent r) = view c := fun _ c => hview c _ _
  have hremove : ∀ (r : Place rows columns) (c : Cell rows columns),
      view (c.removeDependent r) = view c := fun _ c => hview c _ _
  have hforget : ∀ c : Cell rows columns, view { c with precedents := [] } = view c :=
    fun c => hview c _ _
  refine @link_unchanged rows columns α (fun s => view (s.cell q)) p ?_ ?_ ?_ s references
  · exact fun s => view_cell_update hforget s p q
  · exact fun s r => view_cell_update (hremove p) s r q
  · intro s r
    simp only [connect]
    rw [view_cell_update (hrefer r), view_cell_update (hadd p)]

end FormulaGrid.Sheet
