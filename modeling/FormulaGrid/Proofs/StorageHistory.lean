import FormulaGrid.Proofs.StorageRuns
import FormulaGrid.Proofs.Pruning

namespace FormulaGrid

variable {rows columns : Nat}

namespace Storage

open Sheet (ask)

/-! ## Calls -/

theorem runs_locate (fits : rows * columns ≤ UInt64.size) (a : Address) :
    Runs (locate a) (MonadExcept.ofExcept (Sheet.locate a) : Edit rows columns (Place rows columns))
      Place.address := by
  rw [Sheet.ofExcept_eq_ask]
  refine runs_ask fun s placed => ?_
  rw [locate, bind_of_ok (cell?_stored fits placed a), ask, Sheet.cell?, Sheet.locate]
  cases (Place.ofAddress? a : Option (Place rows columns)) with
  | none => rfl
  | some p =>
    exact congrArg (fun a => EStateM.Result.ok a s.stored) (placed.address_stored p)

/-- A cell is changed, and the list of occupied cells is brought up to date for it. -/
theorem changes_mark (fits : rows * columns ≤ UInt64.size) (p : Place rows columns)
    {f : Cell rows columns → Cell rows columns} {g : StoredCell → StoredCell}
    (still : ∀ c, (f c).place = c.place)
    (same : ∀ c : Cell rows columns, g c.stored = (f c).stored) :
    Changes (do amend p.address g; reindex p.address) fun s => (s.update p f).reindex p := by
  have changed : Changes (amend p.address g) fun s => s.update p f :=
    changes_amend fits p still same
  have listed : Changes (reindex p.address) fun s : Sheet rows columns => s.reindex p :=
    changes_reindex fits p
  have both := changed.trans listed
  exact both

theorem runs_setBackground (fits : rows * columns ≤ UInt64.size) (a : Address)
    (background : UInt32) :
    Runs (setBackground a background) (Sheet.setBackground a background : Edit rows columns _)
      id := by
  rw [setBackground, Sheet.setBackground]
  refine (runs_locate fits a).bind fun p => ?_
  exact changes_mark fits p (fun _ => rfl) fun _ => rfl

theorem runs_setText (fits : rows * columns ≤ UInt64.size) (a : Address) (text : String) :
    Runs (setText a text) (Sheet.setText a text : Edit rows columns _)
      (List.map Update.stored) := by
  rw [setText, Sheet.setText]
  refine (runs_locate fits a).bind fun p => ?_
  rw [← bind_assoc]
  have marked : Changes (do amend p.address fun c => { c with text }; reindex p.address) fun s =>
      (s.update p fun c => { c with text }).reindex p :=
    changes_mark fits p (fun _ => rfl) fun _ => rfl
  exact marked.bind fun _ => runs_recalculate fits p

theorem changes_clear : Changes clear (Sheet.clear : Sheet rows columns → _) := by
  intro s placed
  refine ⟨placed.clear, ?_⟩
  have cells : s.stored.cells.map StoredCell.reset = s.clear.stored.cells := by
    simp only [Sheet.stored, Sheet.clear, Array.map_map, Vector.toArray_map]
    rfl
  change EStateM.Result.ok () { s.stored with
      cells := s.stored.cells.map StoredCell.reset, occupied := [] } = _
  rw [cells]
  rfl

theorem runs_enter (fits : rows * columns ≤ UInt64.size) (r : Record) :
    Runs (enter r) (Sheet.enter r : Edit rows columns _) id :=
  (runs_setBackground fits r.address r.background).bind fun _ =>
    (runs_setText fits r.address r.text).discard

theorem runs_load (fits : rows * columns ≤ UInt64.size) (records : List Record) :
    Runs (load records) (Sheet.load records : Edit rows columns _) id := by
  refine changes_clear.bind fun _ => ?_
  induction records with
  | nil => exact runs_pure id ()
  | cons r records ih => exact (runs_enter fits r).bind fun _ => ih

theorem runs_perform (fits : rows * columns ≤ UInt64.size) (c : Call) :
    Runs (perform c) (Sheet.perform c : Edit rows columns _) (List.map Update.stored) := by
  cases c with
  | setText a text => exact runs_setText fits a text
  | setBackground a background =>
    exact (runs_setBackground fits a background).bind fun _ => runs_pure (List.map Update.stored) []
  | clear => exact changes_clear.bind fun _ => runs_pure (List.map Update.stored) []
  | load records =>
    exact (runs_load fits records).bind fun _ => runs_pure (List.map Update.stored) []

theorem records_stored (fits : rows * columns ≤ UInt64.size) {s : Sheet rows columns}
    (placed : s.Placed) : records s.stored = .ok s.records s.stored := by
  have record : ∀ p : Place rows columns, (do
      let c ← fetch p.address
      return ⟨c.address, c.text, c.background⟩ : Program Record) s.stored =
        .ok (s.record p) s.stored := by
    intro p
    rw [bind_of_ok (fetch_stored fits placed p), placed.address_stored]
    rfl
  rw [records, bind_get, Sheet.records]
  have listed : s.stored.occupied = s.occupied.map Place.address := rfl
  rw [listed]
  induction s.occupied with
  | nil => rfl
  | cons p ps ih =>
    rw [List.map_cons, List.mapM_cons, bind_of_ok (record p), bind_of_ok ih]
    rfl

/-! ## A new storage -/

theorem addresses_all (rows columns : Nat) :
    (List.range rows).flatMap (fun row => (List.range columns).map (Address.mk row)) =
      (Place.all rows columns).map Place.address := by
  have divided : (Place.all rows columns).map Place.address =
      (List.range (rows * columns)).map fun i => ⟨i / columns, i % columns⟩ := by
    rw [Place.all, List.map_map, ← List.map_coe_finRange_eq_range, List.map_map]
    rfl
  rw [divided]
  clear divided
  induction rows with
  | zero => simp
  | succ rows ih =>
    rw [List.range_succ, List.flatMap_append, ih, Nat.succ_mul, List.range_add, List.map_append,
      List.map_map]
    congr 1
    rw [List.flatMap_singleton]
    apply List.map_congr_left
    intro column inside
    have small : column < columns := List.mem_range.1 inside
    have positive : 0 < columns := by omega
    rw [Function.comp_apply, Nat.mul_comm, Nat.mul_add_div positive, Nat.mul_add_mod,
      Nat.div_eq_of_lt small, Nat.mod_eq_of_lt small, Nat.add_zero]

theorem create_eq (rows columns : Nat) (settings : Settings) :
    create rows columns settings = (Sheet.create rows columns settings).map Sheet.stored := by
  rw [create, Sheet.create]
  split
  · rfl
  · have cells : ((Sheet.blank rows columns settings).stored.cells) =
        (((Place.all rows columns).map Place.address).map fun a =>
          ({ address := a } : StoredCell)).toArray := by
      apply Array.toList_inj.1
      rw [Sheet.cells_stored]
      simp only [Sheet.cell_blank, List.map_map]
      rfl
    rw [addresses_all]
    dsimp only
    rw [← cells]
    rfl

/-! ## Every history -/

theorem placed_of_create {settings : Settings} {s : Sheet rows columns}
    (created : Sheet.create rows columns settings = .ok s) : s.Placed := by
  rw [Sheet.create] at created
  split at created
  · cases created
  · cases created
    exact Sheet.placed_blank settings

theorem after_image {α β : Type} (f : α → β)
    (result : EStateM.Result Fault (Sheet rows columns) α) :
    after (image f result) = (Sheet.after result).stored := by
  cases result <;> rfl

/-- After any calls the storage is that of the sheet, and the cells are at their places. -/
theorem run_stored (fits : rows * columns ≤ UInt64.size) (history : List Call)
    {session : Session rows columns} (placed : session.sheet.Placed) :
    (history.foldl Session.call session).sheet.Placed ∧
      session.sheet.stored.run history = (history.foldl Session.call session).sheet.stored := by
  induction history generalizing session with
  | nil => exact ⟨placed, rfl⟩
  | cons c history ih =>
    obtain ⟨placed', ran⟩ := runs_perform fits c session.sheet placed
    have called : after (perform c session.sheet.stored) = (session.call c).sheet.stored := by
      rw [ran, after_image, Session.sheet_call]
    rw [run, List.foldl_cons, List.foldl_cons, called]
    rw [← Session.sheet_call] at placed'
    exact ih placed'

/-- A storage answers as a sheet does, and no access to it goes astray. -/
structure Mirrors (st : Storage) (s : Sheet rows columns) : Prop where
  stored : st = s.stored
  isSome_iff : ∀ a, (s.cell? a).isSome ↔ a.row < rows ∧ a.column < columns
  address : ∀ a c, s.cell? a = some c → c.place.address = a
  lookup : ∀ a, cell? a st = .ok ((s.cell? a).map Cell.stored) st
  size : st.cells.size = rows * columns
  index : ∀ a, a.row < rows → a.column < columns →
    st.index a = a.row * columns + a.column ∧ st.index a < st.cells.size
  apart : ∀ a b, a.row < rows → a.column < columns → b.row < rows → b.column < columns →
    st.index a = st.index b → a = b
  /-- An access outside the grid would not pass. -/
  watched : ∀ a, ¬ (a.row < rows ∧ a.column < columns) → fetch a st = .error (.astray a) st
  performs : ∀ c, perform c st = image (List.map Update.stored) (Sheet.perform c s)
  /-- The only thing that stops a call is a fault. -/
  stops : ∀ c stop st', perform c st = .error stop st' → ∃ fault, stop = .fault fault
  lists : records st = .ok s.records st

theorem mirrors_stored (fits : rows * columns ≤ UInt64.size) {s : Sheet rows columns}
    (placed : s.Placed) : Mirrors s.stored s where
  stored := rfl
  isSome_iff a := by
    rw [Sheet.cell?, Option.isSome_map, Option.isSome_iff_exists]
    simp only [Place.ofAddress?_eq_some_iff]
    exact (holds_stored_iff (s := s)).symm
  address a c found := by
    obtain ⟨p, located, rfl⟩ := Option.map_eq_some_iff.1 found
    rw [placed p, Place.ofAddress?_eq_some_iff.1 located]
  lookup := cell?_stored fits placed
  size := s.size_stored
  index a row column := by
    let p : Place rows columns := ⟨⟨a.row, row⟩, ⟨a.column, column⟩⟩
    have position : s.stored.index a = p.index := Sheet.index_stored fits s p
    refine ⟨position, ?_⟩
    rw [position, s.size_stored]
    exact p.index.isLt
  apart a b row column row' column' same := by
    let p : Place rows columns := ⟨⟨a.row, row⟩, ⟨a.column, column⟩⟩
    let q : Place rows columns := ⟨⟨b.row, row'⟩, ⟨b.column, column'⟩⟩
    have first : s.stored.index a = p.index := Sheet.index_stored fits s p
    have second : s.stored.index b = q.index := Sheet.index_stored fits s q
    have equal : p.index = q.index := Fin.ext (first.symm.trans (same.trans second))
    exact congrArg Place.address (Place.index_injective equal)
  watched a outside := fetch_of_not_holds placed outside
  performs c := (runs_perform fits c s placed).2
  stops c stop st' stopped := by
    rw [(runs_perform fits c s placed).2] at stopped
    cases performed : Sheet.perform c s with
    | ok updates t =>
      rw [performed] at stopped
      cases stopped
    | error fault t =>
      rw [performed] at stopped
      cases stopped
      exact ⟨fault, rfl⟩
  lists := records_stored fits placed

/-- Calls are made to a new sheet of any size that fits into memory, and to a new storage of the
same size.  Whatever the calls were, also ones that failed, and whatever names their texts held,
there is a cell at an address if and only if it lies in the grid, and that cell has the address.
The index of such an address is exact, lies within the storage and belongs to no other.  An access
by any other address would go astray, and none does: every further call, and listing the records,
has on the storage the outcome that it has on the sheet. -/
theorem accesses_exact {settings : Settings} {s : Sheet rows columns}
    (created : Sheet.create rows columns settings = .ok s) (fits : rows * columns ≤ UInt64.size)
    (history : List Call) :
    ∃ st, create rows columns settings = .ok st ∧
      Mirrors (st.run history) (history.foldl Session.call { sheet := s }).sheet := by
  obtain ⟨placed, ran⟩ := @run_stored rows columns fits history { sheet := s }
    (placed_of_create created)
  refine ⟨s.stored, ?_, ?_⟩
  · rw [create_eq, created]
    rfl
  · rw [ran]
    exact mirrors_stored fits placed

def straying : List Call :=
  [.setText ⟨0, 0⟩ "=C1+A3+B1", .setText ⟨0, 2⟩ "7", .setText ⟨0, 1⟩ "=A1", .setBackground ⟨2, 0⟩ 7]

/-- The address beside the end of the first row has the index of the first cell of the second, and
yet there is no cell at it. -/
theorem accesses_exact_straying :
    ∃ st, create 2 2 ⟨true, 3⟩ = .ok st ∧ (st.run straying).index ⟨0, 2⟩ = 2 ∧
      (st.run straying).index ⟨1, 0⟩ = 2 ∧
      cell? ⟨0, 2⟩ (st.run straying) = .ok none (st.run straying) := by
  obtain ⟨st, created, mirrors⟩ :=
    @accesses_exact 2 2 ⟨true, 3⟩ (Sheet.blank 2 2 ⟨true, 3⟩) rfl (by decide) straying
  refine ⟨st, created, ?_, (mirrors.index ⟨1, 0⟩ (by decide) (by decide)).1, mirrors.lookup ⟨0, 2⟩⟩
  rw [mirrors.stored]
  rfl

end Storage

end FormulaGrid
