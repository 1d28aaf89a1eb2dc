import FormulaGrid.Storage
import FormulaGrid.Proofs.Occupied

/-! # Access to the storage of a sheet

Where every cell is at its own place, each access by the address of a place finds the cell of that
place.  So a program on the storage, written in terms of addresses, does what an edit of the sheet
does in terms of places.
-/

namespace FormulaGrid

variable {rows columns : Nat}

theorem Place.address_injective :
    Function.Injective (address : Place rows columns → Address) := by
  intro p q same
  have found : ofAddress? p.address = some p := ofAddress?_eq_some_iff.2 rfl
  exact Option.some.inj (found.symm.trans (ofAddress?_eq_some_iff.2 same.symm))

theorem Place.mem_map_address {p : Place rows columns} {ps : List (Place rows columns)} :
    p.address ∈ ps.map address ↔ p ∈ ps :=
  List.mem_map_of_injective address_injective

/-! ## Storages of sheets -/

def Cell.stored (c : Cell rows columns) : StoredCell where
  address := c.place.address
  text := c.text
  value := c.value
  background := c.background
  dependents := c.dependents.map Place.address
  precedents := c.precedents.map Place.address

namespace Sheet

def stored (s : Sheet rows columns) : Storage where
  rows := rows
  columns := columns
  settings := s.settings
  cells := s.cells.toArray.map Cell.stored
  occupied := s.occupied.map Place.address

def Placed (s : Sheet rows columns) : Prop :=
  ∀ p, (s.cell p).place = p

theorem placed_blank (settings : Settings) : (blank rows columns settings).Placed :=
  fun p => congrArg Cell.place (cell_blank settings p)

theorem Placed.update {s : Sheet rows columns} (placed : s.Placed) (p : Place rows columns)
    {f : Cell rows columns → Cell rows columns} (still : ∀ c, (f c).place = c.place) :
    (s.update p f).Placed :=
  fun q => (view_cell_update still s p q).trans (placed q)

theorem Placed.clear {s : Sheet rows columns} (placed : s.Placed) : s.clear.Placed :=
  fun p => (congrArg Cell.place (cell_clear s p)).trans (placed p)

theorem Placed.reindex {s : Sheet rows columns} (placed : s.Placed) (p : Place rows columns) :
    (s.reindex p).Placed :=
  fun q => (congrArg Cell.place (cell_reindex s p q)).trans (placed q)

theorem Placed.address_stored {s : Sheet rows columns} (placed : s.Placed)
    (p : Place rows columns) : (s.cell p).stored.address = p.address :=
  congrArg Place.address (placed p)

theorem size_stored (s : Sheet rows columns) : s.stored.cells.size = rows * columns := by
  simp [stored]

theorem stored_update (s : Sheet rows columns) (p : Place rows columns)
    (f : Cell rows columns → Cell rows columns) :
    (s.update p f).stored =
      { s.stored with cells := s.stored.cells.setIfInBounds p.index (f (s.cell p)).stored } := by
  have inside : (p.index : Nat) < (s.cells.toArray.map Cell.stored).size := by
    have size : (s.cells.toArray.map Cell.stored).size = rows * columns := s.size_stored
    rw [size]
    exact p.index.isLt
  simp only [stored, update, Vector.toArray_set, Array.map_set]
  rw [Array.setIfInBounds_def, dif_pos inside]

/-! ## Indices -/

/-- The words do not wrap around, since the last index of the grid fits into one. -/
theorem index_stored (fits : rows * columns ≤ UInt64.size) (s : Sheet rows columns)
    (p : Place rows columns) : s.stored.index p.address = p.index := by
  have small : p.row * columns + p.column < UInt64.size := Nat.lt_of_lt_of_le p.index.isLt fits
  change (UInt64.ofNat p.row * UInt64.ofNat columns + UInt64.ofNat p.column).toNat =
    p.row * columns + p.column
  rw [← UInt64.ofNat_mul, ← UInt64.ofNat_add, UInt64.toNat_ofNat_of_lt' small]

theorem getElem?_stored (s : Sheet rows columns) (p : Place rows columns) :
    s.stored.cells[(p.index : Nat)]? = some (s.cell p).stored := by
  simp [stored, cell]

/-- The cells of a storage are those of the sheet, place by place. -/
theorem cells_stored (s : Sheet rows columns) :
    s.stored.cells.toList = (Place.all rows columns).map fun p => (s.cell p).stored := by
  apply List.ext_getElem
  · simp [stored, Place.all]
  · intro i inside inside'
    simp [stored, Place.all, cell]

end Sheet

namespace Storage

variable {α β γ δ : Type}

/-! ## Accesses -/

variable {s : Sheet rows columns}

theorem fetch_stored (fits : rows * columns ≤ UInt64.size) (placed : s.Placed)
    (p : Place rows columns) : fetch p.address s.stored = .ok (s.cell p).stored s.stored := by
  rw [fetch, bind_get, Sheet.index_stored fits, Sheet.getElem?_stored]
  dsimp only
  rw [if_pos (placed.address_stored p)]
  rfl

theorem amend_stored (fits : rows * columns ≤ UInt64.size) (placed : s.Placed)
    (p : Place rows columns) {f : Cell rows columns → Cell rows columns}
    {g : StoredCell → StoredCell} (same : ∀ c : Cell rows columns, g c.stored = (f c).stored) :
    amend p.address g s.stored = .ok () (s.update p f).stored := by
  rw [amend, bind_of_ok (fetch_stored fits placed p), Sheet.stored_update, ← same,
    ← Sheet.index_stored fits s]
  rfl

theorem holds_stored_iff {a : Address} :
    s.stored.Holds a ↔ ∃ p : Place rows columns, p.address = a := by
  constructor
  · rintro ⟨row, column⟩
    exact ⟨⟨⟨a.row, row⟩, ⟨a.column, column⟩⟩, rfl⟩
  · rintro ⟨p, rfl⟩
    exact ⟨p.row.isLt, p.column.isLt⟩

theorem not_holds_of_none {a : Address}
    (nowhere : (Place.ofAddress? a : Option (Place rows columns)) = none) :
    ¬ s.stored.Holds a := by
  rw [holds_stored_iff]
  rintro ⟨p, named⟩
  rw [Place.ofAddress?_eq_some_iff.2 named] at nowhere
  cases nowhere

/-- The watch notices an access outside the grid, whatever its index leads to. -/
theorem fetch_of_not_holds (placed : s.Placed) {a : Address} (outside : ¬ s.stored.Holds a) :
    fetch a s.stored = .error (.astray a) s.stored := by
  rw [fetch, bind_get]
  cases found : s.stored.cells[s.stored.index a]? with
  | none => rfl
  | some c =>
    have stored : c ∈ s.stored.cells.toList := (Array.mem_of_getElem? found).val
    rw [Sheet.cells_stored] at stored
    obtain ⟨p, -, rfl⟩ := List.mem_map.1 stored
    have other : (s.cell p).stored.address ≠ a := by
      intro same
      rw [placed.address_stored] at same
      exact outside (holds_stored_iff.2 ⟨p, same⟩)
    dsimp only
    rw [if_neg other]
    rfl

theorem cell?_stored (fits : rows * columns ≤ UInt64.size) (placed : s.Placed) (a : Address) :
    cell? a s.stored = .ok ((s.cell? a).map Cell.stored) s.stored := by
  rw [cell?, bind_get]
  cases located : (Place.ofAddress? a : Option (Place rows columns)) with
  | none =>
    rw [if_neg (not_holds_of_none located), Sheet.cell?, located]
    rfl
  | some p =>
    obtain rfl := Place.ofAddress?_eq_some_iff.1 located
    rw [if_pos (holds_stored_iff.2 ⟨p, rfl⟩), bind_of_ok (fetch_stored fits placed p), Sheet.cell?,
      located]
    rfl

/-! ## Programs that run as edits do -/

def image (f : α → β) :
    EStateM.Result Fault (Sheet rows columns) α → EStateM.Result Stop Storage β
  | .ok a t => .ok (f a) t.stored
  | .error fault t => .error (.fault fault) t.stored

/-- On the storage of any sheet whose cells are at their places the program has the outcome of the
edit, which leaves the cells at their places. -/
def Runs (program : Program β) (edit : Edit rows columns α) (f : α → β) : Prop :=
  ∀ s, s.Placed → (Sheet.after (edit s)).Placed ∧ program s.stored = image f (edit s)

theorem runs_pure (f : α → β) (a : α) : Runs (pure (f a)) (pure a : Edit rows columns α) f :=
  fun _ placed => ⟨placed, rfl⟩

theorem Runs.bind {program : Program β} {edit : Edit rows columns α} {f : α → β}
    {next : β → Program δ} {next' : α → Edit rows columns γ} {g : γ → δ}
    (first : Runs program edit f) (later : ∀ a, Runs (next (f a)) (next' a) g) :
    Runs (program >>= next) (edit >>= next') g := by
  intro s placed
  obtain ⟨placed', ran⟩ := first s placed
  rw [Sheet.run_bind]
  cases edited : edit s with
  | error fault t =>
    rw [edited] at placed' ran
    exact ⟨placed', bind_of_error ran⟩
  | ok a t =>
    rw [edited] at placed' ran
    rw [bind_of_ok ran]
    exact later a t placed'

theorem Runs.discard {program : Program β} {edit : Edit rows columns α} {f : α → β}
    (first : Runs program edit f) :
    Runs (discard program) (discard edit : Edit rows columns Unit) id :=
  first.bind fun _ => runs_pure id ()

theorem Runs.mapM {program : β → Program δ} {edit : α → Edit rows columns γ} {f : α → β}
    {g : γ → δ} (each : ∀ a, Runs (program (f a)) (edit a) g) (as : List α) :
    Runs ((as.map f).mapM program) (as.mapM edit) (List.map g) := by
  induction as with
  | nil => exact runs_pure (List.map g) []
  | cons a as ih =>
    rw [List.map_cons, List.mapM_cons, List.mapM_cons]
    exact (each a).bind fun c => ih.bind fun cs => runs_pure (List.map g) (c :: cs)

abbrev Changes (program : Program Unit) (change : Sheet rows columns → Sheet rows columns) : Prop :=
  Runs program (modify change) id

theorem Changes.trans {program program' : Program Unit}
    {change change' : Sheet rows columns → Sheet rows columns} (first : Changes program change)
    (second : Changes program' change') :
    Changes (do program; program') fun s => change' (change s) := by
  have joined : Runs (do program; program') (do modify change; modify change') id :=
    first.bind fun _ => second
  exact joined

theorem changes_amend (fits : rows * columns ≤ UInt64.size) (p : Place rows columns)
    {f : Cell rows columns → Cell rows columns} {g : StoredCell → StoredCell}
    (still : ∀ c, (f c).place = c.place)
    (same : ∀ c : Cell rows columns, g c.stored = (f c).stored) :
    Changes (amend p.address g) fun s => s.update p f :=
  fun _ placed => ⟨placed.update p still, amend_stored fits placed p same⟩

/-- What changes the storage for each place as a step changes the sheet, does so for a list. -/
theorem changes_forM {program : Address → Program Unit}
    {step : Sheet rows columns → Place rows columns → Sheet rows columns}
    (each : ∀ p, Changes (program p.address) fun s => step s p) (ps : List (Place rows columns)) :
    Changes ((ps.map Place.address).forM program) fun s => ps.foldl step s := by
  induction ps with
  | nil => exact runs_pure id ()
  | cons p ps ih => exact (each p).trans ih

/-! ## Listing a cell -/

theorem le_address_iff {p q : Place rows columns} :
    p.address.le q.address = true ↔ p.index ≤ q.index := by
  constructor
  · intro le
    by_contra less
    rcases Sheet.before_of_index_lt (lt_of_not_ge less) with above | ⟨same, left⟩
    all_goals
      simp only [Address.le, Bool.or_eq_true, Bool.and_eq_true, decide_eq_true_eq,
        beq_iff_eq] at le
      omega
  · intro le
    rcases Nat.eq_or_lt_of_le le with same | less
    · rw [Place.index_injective (Fin.ext same)]
      simp [Address.le]
    · rcases Sheet.before_of_index_lt less with above | ⟨same, left⟩
      · simp [Address.le, above]
      · simp [Address.le, same, left.le]

theorem insertAddress_map (p : Place rows columns) (ps : List (Place rows columns)) :
    insertAddress p.address (ps.map Place.address) =
      (Sheet.insertPlace p ps).map Place.address := by
  induction ps with
  | nil => rfl
  | cons q ps ih =>
    rw [List.map_cons, insertAddress, Sheet.insertPlace]
    by_cases same : p = q
    · rw [if_pos same, if_pos (congrArg Place.address same)]
      rfl
    · have apart : p.index ≠ q.index := fun eq => same (Place.index_injective eq)
      rw [if_neg same, if_neg (Place.address_injective.ne same)]
      by_cases less : p.index < q.index
      · rw [if_pos less, if_pos (le_address_iff.2 less.le)]
        rfl
      · rw [if_neg less, if_neg fun le => less (lt_of_le_of_ne (le_address_iff.1 le) apart), ih]
        rfl

theorem filter_map_address (p : Place rows columns) (ps : List (Place rows columns)) :
    (ps.map Place.address).filter (fun a => a != p.address) =
      (ps.filter fun q => q != p).map Place.address := by
  rw [List.filter_map]
  congr 1
  apply List.filter_congr
  intro q _
  rw [Function.comp_apply, Bool.eq_iff_iff, bne_iff_ne, bne_iff_ne]
  exact Place.address_injective.ne_iff

theorem changes_reindex (fits : rows * columns ≤ UInt64.size) (p : Place rows columns) :
    Changes (reindex p.address) fun s => s.reindex p := by
  intro s placed
  refine ⟨placed.reindex p, ?_⟩
  change reindex p.address s.stored = .ok () (s.reindex p).stored
  rw [reindex, bind_of_ok (fetch_stored fits placed p), Sheet.reindex]
  have empty : (s.cell p).stored.isEmpty = (s.cell p).isEmpty := rfl
  rw [empty]
  split
  · change EStateM.Result.ok () { s.stored with
        occupied := (s.occupied.map Place.address).filter fun a => a != p.address } = _
    rw [filter_map_address]
    rfl
  · change EStateM.Result.ok () { s.stored with
        occupied := insertAddress p.address (s.occupied.map Place.address) } = _
    rw [insertAddress_map]
    rfl

/-! ## Linking a cell -/

theorem enlist_map (p : Place rows columns) (ps : List (Place rows columns)) :
    StoredCell.enlist p.address (ps.map Place.address) = (Cell.enlist p ps).map Place.address := by
  by_cases listed : p ∈ ps
  · rw [StoredCell.enlist, Cell.enlist, if_pos listed, if_pos (Place.mem_map_address.2 listed)]
  · rw [StoredCell.enlist, Cell.enlist, if_neg listed, if_neg (mt Place.mem_map_address.1 listed),
      List.map_append]
    rfl

theorem addDependent_stored (p : Place rows columns) (c : Cell rows columns) :
    c.stored.addDependent p.address = (c.addDependent p).stored := by
  rw [StoredCell.addDependent, Cell.stored, enlist_map]
  rfl

theorem addPrecedent_stored (p : Place rows columns) (c : Cell rows columns) :
    c.stored.addPrecedent p.address = (c.addPrecedent p).stored := by
  rw [StoredCell.addPrecedent, Cell.stored, enlist_map]
  rfl

theorem removeDependent_stored (p : Place rows columns) (c : Cell rows columns) :
    c.stored.removeDependent p.address = (c.removeDependent p).stored := by
  rw [StoredCell.removeDependent, Cell.stored, filter_map_address]
  rfl

theorem changes_connect (fits : rows * columns ≤ UInt64.size) (p : Place rows columns)
    (references : List (Place rows columns)) :
    Changes (connect p.address (references.map Place.address)) fun s =>
      references.foldl (Sheet.connect p) s := by
  refine changes_forM (fun q => ?_) references
  have dependent : Changes (amend q.address (StoredCell.addDependent p.address)) fun s =>
      s.update q (Cell.addDependent p) :=
    changes_amend fits q (fun _ => rfl) (addDependent_stored p)
  have precedent : Changes (amend p.address (StoredCell.addPrecedent q.address)) fun s =>
      s.update p (Cell.addPrecedent q) :=
    changes_amend fits p (fun _ => rfl) (addPrecedent_stored q)
  exact dependent.trans precedent

theorem changes_strike (fits : rows * columns ≤ UInt64.size) (p : Place rows columns)
    (references former : List (Place rows columns)) :
    Changes (strike p.address (references.map Place.address) (former.map Place.address)) fun s =>
      (former.filter fun q => q ∉ references).foldl
        (fun s q => s.update q (Cell.removeDependent p)) s := by
  simp only [List.foldl_filter, decide_eq_true_eq]
  refine changes_forM (fun q => ?_) former
  by_cases kept : q ∈ references
  · simp only [Place.mem_map_address, kept, not_true_eq_false, if_false]
    exact runs_pure id ()
  · simp only [Place.mem_map_address, kept, not_false_eq_true, if_true]
    exact changes_amend fits q (fun _ => rfl) (removeDependent_stored p)

theorem changes_dropLinks (fits : rows * columns ≤ UInt64.size) (p : Place rows columns)
    (references : List (Place rows columns)) :
    Changes (dropLinks p.address (references.map Place.address)) fun s =>
      s.dropLinks p references := by
  intro s placed
  rw [dropLinks, bind_of_ok (fetch_stored fits placed p)]
  have forget : Changes (amend p.address fun c => { c with precedents := [] }) fun s =>
      s.update p fun c => { c with precedents := [] } :=
    changes_amend fits p (fun _ => rfl) fun _ => rfl
  exact forget.trans (changes_strike fits p references (s.cell p).precedents) s placed

theorem changes_link (fits : rows * columns ≤ UInt64.size) (p : Place rows columns)
    (references : List (Place rows columns)) :
    Changes (link p.address (references.map Place.address)) fun s => s.link p references := by
  intro s placed
  change (s.link p references).Placed ∧
    link p.address (references.map Place.address) s.stored = .ok () (s.link p references).stored
  rw [link, bind_get, Sheet.link]
  have connected := changes_connect fits p references
  have settings : s.stored.settings = s.settings := rfl
  rw [settings]
  by_cases drops : s.settings.dropStale = true
  · rw [if_pos drops, if_pos drops]
    exact (changes_dropLinks fits p references).trans connected s placed
  · rw [if_neg drops, if_neg drops]
    exact connected s placed

end Storage

end FormulaGrid
