import FormulaGrid.Proofs.Session
import Mathlib.Data.List.Sort

namespace FormulaGrid

variable {rows columns : Nat}

namespace Sheet

/-- The places of the cells that are not empty are listed, row after row and each once. -/
structure Indexed (s : Sheet rows columns) : Prop where
  ordered : s.occupied.Pairwise fun p q => p.index < q.index
  mem_iff : ∀ p, p ∈ s.occupied ↔ (s.cell p).isEmpty = false

theorem pairwise_insertPlace {ps : List (Place rows columns)} (p : Place rows columns)
    (ordered : ps.Pairwise fun p q => p.index < q.index) :
    (insertPlace p ps).Pairwise fun p q => p.index < q.index := by
  induction ps with
  | nil => exact List.pairwise_singleton _ p
  | cons q ps ih =>
    obtain ⟨first, rest⟩ := List.pairwise_cons.1 ordered
    simp only [insertPlace]
    split
    · exact ordered
    · rename_i other
      split
      · rename_i before
        refine List.pairwise_cons.2 ⟨?_, ordered⟩
        exact List.forall_mem_cons.2 ⟨before, fun r member => before.trans (first r member)⟩
      · rename_i behind
        refine List.pairwise_cons.2 ⟨?_, ih rest⟩
        intro r member
        rcases mem_insertPlace.1 member with rfl | member
        · have apart : r.index ≠ q.index := fun same => other (Place.index_injective same)
          omega
        · exact first r member

/-- A list that is right for all cells but one is brought up to date for that one. -/
theorem Indexed.reindex {s : Sheet rows columns} {p : Place rows columns}
    (ordered : s.occupied.Pairwise fun p q => p.index < q.index)
    (others : ∀ q, q ≠ p → (q ∈ s.occupied ↔ (s.cell q).isEmpty = false)) :
    (s.reindex p).Indexed := by
  cases empty : (s.cell p).isEmpty with
  | true =>
    have listed : (s.reindex p).occupied = s.occupied.filter (· != p) := by
      rw [Sheet.reindex, if_pos empty]
    constructor
    · rw [listed]
      exact ordered.filter _
    · intro q
      rw [listed, cell_reindex, List.mem_filter]
      by_cases same : q = p
      · simp [same, empty]
      · simp [same, others q same]
  | false =>
    have listed : (s.reindex p).occupied = insertPlace p s.occupied := by
      rw [Sheet.reindex, if_neg (by simp [empty])]
    constructor
    · rw [listed]
      exact pairwise_insertPlace p ordered
    · intro q
      rw [listed, cell_reindex, mem_insertPlace]
      by_cases same : q = p
      · simp [same, empty]
      · simp [same, others q same]

variable {s t : Sheet rows columns}

theorem Indexed.update (indexed : s.Indexed) (p : Place rows columns)
    (f : Cell rows columns → Cell rows columns) : ((s.update p f).reindex p).Indexed := by
  apply Indexed.reindex
  · exact indexed.ordered
  · intro q other
    rw [occupied_update, cell_update, if_neg (Ne.symm other), indexed.mem_iff]

theorem Indexed.setBackground (indexed : s.Indexed) (p : Place rows columns)
    (background : UInt32) : (after (setBackground p.address background s)).Indexed := by
  rw [setBackground_eq]
  exact indexed.update p _

theorem Indexed.of_cells (indexed : s.Indexed) (occupied : t.occupied = s.occupied)
    (empty : ∀ p, (t.cell p).isEmpty = (s.cell p).isEmpty) : t.Indexed where
  ordered := occupied ▸ indexed.ordered
  mem_iff p := by rw [occupied, empty, indexed.mem_iff]

theorem isEmpty_congr {c d : Cell rows columns} (text : d.text = c.text)
    (background : d.background = c.background) : d.isEmpty = c.isEmpty := by
  rw [Cell.isEmpty, Cell.isEmpty, text, background]

theorem Indexed.setText (indexed : s.Indexed) (linked : s.Linked) (o : Place rows columns)
    (text : String) : (after (setText o.address text s)).Indexed := by
  obtain ⟨ps, revalued⟩ := revalued_setText linked o text
  have entered : (s.withText o text).Indexed := indexed.update o _
  apply entered.of_cells
  · rw [revalued.occupied, occupied_relink]
  · intro p
    apply isEmpty_congr
    · rw [(edited_setText linked o text).text, cell_withText]
    · rw [background_setText linked, cell_withText]

/-- Sheets with the same texts and colours list the same places. -/
theorem Indexed.occupied_eq (indexed : s.Indexed) (indexed' : t.Indexed)
    (empty : ∀ p, (t.cell p).isEmpty = (s.cell p).isEmpty) : t.occupied = s.occupied := by
  have irreflexive : Std.Irrefl fun p q : Place rows columns => p.index < q.index :=
    ⟨fun p => Nat.lt_irrefl p.index⟩
  apply indexed'.ordered.eq_of_mem_iff indexed.ordered
  intro p
  rw [indexed'.mem_iff, indexed.mem_iff, empty]

theorem indexed_of_empty (occupied : s.occupied = [])
    (empty : ∀ p, ∃ place, s.cell p = { place }) : s.Indexed where
  ordered := occupied ▸ .nil
  mem_iff p := by
    obtain ⟨place, eq⟩ := empty p
    rw [occupied, eq]
    simp [Cell.isEmpty]

/-! ## Texts that are no formulas -/

/-- A text that is no formula is the value of its cell. -/
def Shown (s : Sheet rows columns) (p : Place rows columns) : Prop :=
  ∀ text, Content.read (s.cell p).text = .ok (.plain text) → (s.cell p).value = text

theorem Shown.of_cell {p : Place rows columns} (shown : s.Shown p)
    (text : (t.cell p).text = (s.cell p).text) (value : (t.cell p).value = (s.cell p).value) :
    t.Shown p := by
  rw [Shown, text, value]
  exact shown

theorem shown_of_empty (empty : ∀ p, ∃ place, s.cell p = { place }) (p : Place rows columns) :
    s.Shown p := by
  obtain ⟨place, eq⟩ := empty p
  have plain : Content.read "" = .ok (.plain "") := rfl
  intro text read
  rw [eq, plain] at read
  cases read
  rw [eq]

section Evaluation

variable {o p q : Place rows columns}

/-- Evaluating a cell shows its own text, if that is no formula, and lets the other cells be. -/
theorem shown_evaluateCell (linked : s.Linked) (shown : q ≠ p → s.Shown q) :
    (after (evaluateCell p s)).Shown q := by
  rcases evaluateCell_cases linked p with
    ⟨fault, failure, failed⟩ | ⟨-, content, value, read, prescribed, evaluated⟩
  · rw [failed, after]
    by_cases same : q = p
    · subst same
      intro text plain
      rw [Content.failure?, plain] at failure
      cases failure
    · exact shown same
  · have revalued := revalued_withValue s p value
    rw [evaluated, after]
    by_cases same : q = p
    · subst same
      intro text plain
      rw [revalued.text, read] at plain
      cases plain
      cases prescribed
      exact value_withValue s q _
    · exact (shown same).of_cell (revalued.text q)
        (revalued.values q fun member => same (List.mem_singleton.1 member))

theorem after_mapM_evaluateCell_cons (p : Place rows columns) (ps : List (Place rows columns))
    (s : Sheet rows columns) : after ((p :: ps).mapM evaluateCell s) = match evaluateCell p s with
      | .error _ t => t
      | .ok _ t => after (ps.mapM evaluateCell t) := by
  rw [mapM_evaluateCell_cons]
  cases evaluateCell p s with
  | error fault t => rfl
  | ok update t =>
    dsimp only
    cases ps.mapM evaluateCell t <;> rfl

/-- The first cell of a run need not be shown before it. -/
theorem shown_mapM_evaluateCell_cons (linked : s.Linked) (shown : q ≠ p → s.Shown q)
    {ps : List (Place rows columns)}
    (later : ∀ t : Sheet rows columns, t.Linked → t.Shown q →
      (after (ps.mapM evaluateCell t)).Shown q) :
    (after ((p :: ps).mapM evaluateCell s)).Shown q := by
  have first := shown_evaluateCell linked shown
  rw [after_mapM_evaluateCell_cons]
  rcases evaluateCell_cases linked p with
    ⟨fault, -, failed⟩ | ⟨-, content, value, -, -, evaluated⟩
  · rw [failed] at first ⊢
    exact first
  · rw [evaluated] at first ⊢
    exact later _ ((revalued_withValue s p value).linked linked) first

theorem shown_mapM_evaluateCell (ps : List (Place rows columns)) (linked : s.Linked)
    (shown : s.Shown q) : (after (ps.mapM evaluateCell s)).Shown q := by
  induction ps generalizing s with
  | nil => exact shown
  | cons p ps ih => exact shown_mapM_evaluateCell_cons linked (fun _ => shown) fun _ => ih

/-- The cell that a recalculation starts from is shown by it, whatever comes of the cascade. -/
theorem shown_recalculate (linked : s.Linked) (shown : q ≠ o → s.Shown q) :
    (after (recalculate o s)).Shown q := by
  cases cascade : s.cascade o with
  | ok order =>
    obtain ⟨rest, rfl⟩ := Cascade.order_head cascade
    rw [recalculate_of_order linked cascade]
    exact shown_mapM_evaluateCell_cons linked shown fun _ => shown_mapM_evaluateCell rest
  | error fault =>
    have first := shown_evaluateCell linked shown
    rw [recalculate_of_refusal linked cascade]
    cases evaluated : evaluateCell o s with
    | error own t =>
      rw [evaluated] at first
      exact first
    | ok update t =>
      rw [evaluated] at first
      exact first

theorem shown_setText (linked : s.Linked) (o : Place rows columns) (text : String)
    (shown : s.Shown q) : (after (setText o.address text s)).Shown q := by
  have relinked := edited_relink linked o text
  rw [setText_eq linked]
  apply shown_recalculate relinked.linked
  intro other
  apply shown.of_cell
  · rw [relinked.text, if_neg other]
  · exact value_relink s o q text

end Evaluation

/-! ## Order of addresses -/

def Before (a b : Address) : Prop :=
  a.row < b.row ∨ a.row = b.row ∧ a.column < b.column

theorem before_of_index_lt {p q : Place rows columns} (less : p.index < q.index) :
    Before p.address q.address := by
  change p.row * columns + p.column < q.row * columns + q.column at less
  change (p.row : Nat) < q.row ∨ (p.row : Nat) = q.row ∧ (p.column : Nat) < q.column
  rcases Nat.lt_trichotomy p.row q.row with above | same | below
  · exact .inl above
  · rw [same] at less
    exact .inr ⟨same, Nat.lt_of_add_lt_add_left less⟩
  · have rowEnd := Nat.mul_le_mul_right columns (Nat.succ_le_of_lt below)
    have column := q.column.isLt
    rw [Nat.succ_mul] at rowEnd
    omega

theorem isEmpty_eq_false_iff {c : Cell rows columns} :
    c.isEmpty = false ↔ c.text ≠ "" ∨ c.background ≠ 0xFFFFFFFF := by
  rw [Cell.isEmpty, Bool.and_eq_false_iff, String.isEmpty_eq_false_iff, beq_eq_false_iff_ne]

theorem Indexed.mem_records (indexed : s.Indexed) {r : Record} :
    r ∈ s.records ↔ ∃ p, (s.cell p).isEmpty = false ∧ r = s.record p := by
  rw [records, List.mem_map]
  constructor
  · rintro ⟨p, member, rfl⟩
    exact ⟨p, (indexed.mem_iff p).1 member, rfl⟩
  · rintro ⟨p, occupied, rfl⟩
    exact ⟨p, (indexed.mem_iff p).2 occupied, rfl⟩

theorem address_records (s : Sheet rows columns) :
    s.records.map Record.address = s.occupied.map Place.address := by
  rw [records, List.map_map]
  rfl

theorem Indexed.before (indexed : s.Indexed) :
    (s.occupied.map Place.address).Pairwise Before :=
  List.pairwise_map.2 (indexed.ordered.imp before_of_index_lt)

/-- A cell without text is linked to none, where stale links are dropped. -/
theorem Linked.precedents_of_blank (linked : s.Linked) (drops : s.settings.dropStale = true)
    {p : Place rows columns} (blank : (s.cell p).text = "") : (s.cell p).precedents = [] := by
  have plain : Content.read (s.cell p).text = .ok (.plain "") := by
    rw [blank]
    rfl
  rw [linked.fits p (.plain "") plain, if_pos drops]
  rfl

end Sheet

namespace Session

theorem indexed_of_reachable {session : Session rows columns} (reachable : Reachable session) :
    session.sheet.Indexed := by
  apply reachable.invariant_of_linked (P := fun session => session.sheet.Indexed)
  · exact fun _ blank => Sheet.indexed_of_empty blank.occupied blank.cells
  · exact fun _ p text linked indexed => indexed.setText linked p text
  · exact fun _ p background _ indexed => indexed.setBackground p background

theorem shown_of_reachable {session : Session rows columns} (reachable : Reachable session)
    (p : Place rows columns) : session.sheet.Shown p := by
  apply reachable.invariant_of_linked (P := fun session => session.sheet.Shown p)
  · exact fun _ blank => Sheet.shown_of_empty blank.cells p
  · exact fun _ o text linked shown => Sheet.shown_setText linked o text shown
  · intro session o background _ shown
    apply shown.of_cell
    all_goals rw [cell_setBackground]

theorem value_of_blank {session : Session rows columns} (reachable : Reachable session)
    {p : Place rows columns} (blank : (session.sheet.cell p).text = "") :
    (session.sheet.cell p).value = "" := by
  apply shown_of_reachable reachable p
  rw [blank]
  rfl

/-- In every session, whatever failed in it, the list and the records hold the cells that have a
text or a colour of their own, row after row and each once, with the text and the colour that they
have.  A cell without text shows none and, where stale links are dropped, is linked to none; so a
cell without a record has nothing to show. -/
theorem occupied_exact {session : Session rows columns} (reachable : Reachable session) :
    (session.sheet.occupied.map Place.address).Pairwise Sheet.Before ∧
    (session.sheet.records.map Record.address).Pairwise Sheet.Before ∧
    session.sheet.occupied.Nodup ∧ (session.sheet.records.map Record.address).Nodup ∧
    (∀ p, p ∈ session.sheet.occupied ↔
      (session.sheet.cell p).text ≠ "" ∨ (session.sheet.cell p).background ≠ 0xFFFFFFFF) ∧
    (∀ r, r ∈ session.sheet.records ↔ ∃ p,
      ((session.sheet.cell p).text ≠ "" ∨ (session.sheet.cell p).background ≠ 0xFFFFFFFF) ∧
      r = ⟨p.address, (session.sheet.cell p).text, (session.sheet.cell p).background⟩) ∧
    (∀ p, (session.sheet.cell p).text = "" → (session.sheet.cell p).value = "" ∧
      (session.sheet.settings.dropStale = true → (session.sheet.cell p).precedents = [])) ∧
    ∀ p, p.address ∉ session.sheet.records.map Record.address →
      (session.sheet.cell p).text = "" ∧ (session.sheet.cell p).value = "" ∧
      (session.sheet.cell p).background = 0xFFFFFFFF := by
  have linked := linked_of_reachable reachable
  have indexed := indexed_of_reachable reachable
  have irreflexive : ∀ a b, Sheet.Before a b → a ≠ b := by
    rintro a b before rfl
    rcases before with row | ⟨-, column⟩
    · exact Nat.lt_irrefl _ row
    · exact Nat.lt_irrefl _ column
  have addresses := indexed.before
  have nodup := addresses.imp fun before => irreflexive _ _ before
  have member := fun p => (indexed.mem_iff p).trans Sheet.isEmpty_eq_false_iff
  rw [Sheet.address_records]
  refine ⟨addresses, addresses, List.Nodup.of_map _ nodup, nodup, member, fun r => ?_,
    fun p blank => ⟨?_, fun drops => ?_⟩, fun p unlisted => ?_⟩
  · rw [indexed.mem_records]
    simp only [Sheet.isEmpty_eq_false_iff, Sheet.record]
  · exact value_of_blank reachable blank
  · exact linked.precedents_of_blank drops blank
  · have empty := mt (member p).2 fun listed => unlisted (List.mem_map_of_mem listed)
    rw [not_or, not_not, not_not] at empty
    exact ⟨empty.1, value_of_blank reachable empty.1, empty.2⟩

def emptied : Session 1 3 :=
  (((setText ⟨0, 0⟩ "7" { sheet := Sheet.blank 1 3 {} }).setText ⟨0, 1⟩ "=(").setBackground
    ⟨0, 2⟩ 0xFF0000FF).setText ⟨0, 0⟩ ""

theorem reachable_emptied : Reachable emptied :=
  .called (.called (.called (.called (.created rfl) (.setText ⟨0, 0⟩ "7")) (.setText ⟨0, 1⟩ "=("))
    (.setBackground ⟨0, 2⟩ 0xFF0000FF)) (.setText ⟨0, 0⟩ "")

/-- The second and the third cell are recorded, and the first has nothing to show. -/
theorem occupied_exact_emptied :
    Reachable emptied ∧ emptied.Failed ⟨0, 1⟩ ∧
      emptied.sheet.records = [⟨⟨0, 1⟩, "=(", 0xFFFFFFFF⟩, ⟨⟨0, 2⟩, "", 0xFF0000FF⟩] ∧
      ⟨0, 1⟩ ∈ emptied.sheet.occupied ∧ ⟨0, 0⟩ ∉ emptied.sheet.occupied ∧
      (emptied.sheet.cell ⟨0, 0⟩).value = "" ∧ (emptied.sheet.cell ⟨0, 0⟩).precedents = [] := by
  obtain ⟨-, -, -, -, listed, -, hidden, -⟩ := occupied_exact reachable_emptied
  have accepted : (emptied.entries.find? fun e => e.place = ⟨0, 1⟩).map Entry.accepted =
      some false := by
    decide +kernel
  have records : emptied.sheet.records =
      [⟨⟨0, 1⟩, "=(", 0xFFFFFFFF⟩, ⟨⟨0, 2⟩, "", 0xFF0000FF⟩] := by
    decide +kernel
  have refused : (emptied.sheet.cell ⟨0, 1⟩).text ≠ "" := by decide +kernel
  have blank : (emptied.sheet.cell ⟨0, 0⟩).text = "" := by decide +kernel
  have white : (emptied.sheet.cell ⟨0, 0⟩).background = 0xFFFFFFFF := by decide +kernel
  have drops : emptied.sheet.settings.dropStale = true := by decide +kernel
  refine ⟨reachable_emptied, Option.map_eq_some_iff.1 accepted, records,
    (listed ⟨0, 1⟩).2 (.inl refused), fun member => ?_, (hidden ⟨0, 0⟩ blank).1,
    (hidden ⟨0, 0⟩ blank).2 drops⟩
  exact ((listed ⟨0, 0⟩).1 member).elim (· blank) (· white)

end Session

end FormulaGrid
