import FormulaGrid.Proofs.Occupied
import FormulaGrid.Proofs.UpToDate

/-! # Loading what was kept

The records of a sheet may be loaded in any order and into any sheet.  On the way a formula may
stand there before the cells that it refers to, and is evaluated again as they are entered.  At
every moment the cells entered so far hold what they are to hold and all others are empty, so there
are no more links than at the end, and none of the calls closes a cycle.
-/

namespace FormulaGrid

open Relation

variable {rows columns : Nat}

namespace Sheet

/-- A sheet `t` with the given settings and without stale links holds what `s` holds, but for some
cells that still wait for their texts or colours. -/
structure Partial (s : Sheet rows columns) (settings : Settings)
    (texts colours : List (Place rows columns)) (t : Sheet rows columns) : Prop where
  upToDate : t.UpToDate
  indexed : t.Indexed
  pruned : t.Pruned
  settings : t.settings = settings
  text : ∀ p, (t.cell p).text = if p ∈ texts then "" else (s.cell p).text
  background : ∀ p,
    (t.cell p).background = if p ∈ colours then 0xFFFFFFFF else (s.cell p).background

variable {s t : Sheet rows columns} {settings : Settings} {p : Place rows columns}
  {texts colours rest : List (Place rows columns)}

/-- On a sheet that was cleared, every cell that is not empty waits for its text and its colour. -/
theorem partial_clear (indexed : s.Indexed) (perm : rest.Perm s.occupied)
    (target : Sheet rows columns) : Partial s target.settings rest rest target.clear := by
  have empty : ∀ p, ∃ place, target.clear.cell p = { place } := fun p => ⟨_, cell_clear target p⟩
  have unlisted : ∀ p, p ∉ rest → (s.cell p).text = "" ∧ (s.cell p).background = 0xFFFFFFFF := by
    intro p other
    rw [perm.mem_iff, indexed.mem_iff, Bool.not_eq_false, Cell.isEmpty] at other
    simpa using other
  refine ⟨upToDate_of_empty empty, indexed_of_empty rfl empty, ?_, rfl, ?_, ?_⟩
  · intro p
    rw [cell_clear]
    rfl
  · intro p
    rw [cell_clear]
    split
    · rfl
    · exact (unlisted p ‹_›).1.symm
  · intro p
    rw [cell_clear]
    split
    · rfl
    · exact (unlisted p ‹_›).2.symm

/-! ## Entering one record -/

theorem Partial.setBackground (waits : Partial s settings texts (p :: colours) t)
    (fresh : p ∉ colours) :
    Partial s settings texts colours
      (after (setBackground p.address (s.cell p).background t)) := by
  have cells := fun q => cell_setBackground t p q (s.cell p).background
  refine ⟨waits.upToDate.setBackground p _, waits.indexed.setBackground p _, ?_, ?_, ?_, ?_⟩
  · intro q
    rw [cells]
    exact waits.pruned q
  · rw [settings_setBackground, waits.settings]
  · intro q
    rw [cells]
    exact waits.text q
  · intro q
    rw [cells]
    by_cases same : p = q
    · subst same
      rw [if_pos rfl, if_neg fresh]
    · rw [if_neg same, waits.background]
      simp only [List.mem_cons, Ne.symm same, false_or]

/-- The first text of a cell leaves no stale link behind. -/
theorem Pruned.setText (pruned : t.Pruned) (linked : t.Linked) (blank : (t.cell p).text = "")
    {text : String} (computes : Content.failure? text = none) :
    (after (setText p.address text t)).Pruned := by
  intro q
  rw [precedents_setText linked, (edited_setText linked p text).text]
  by_cases same : q = p
  · subst same
    have unlinked : (t.cell q).precedents = [] := by
      rw [pruned q, blank]
      rfl
    obtain ⟨content, read⟩ := Content.exists_read computes
    rw [if_pos rfl, if_pos rfl, unlinked, ite_self, read]
    exact enlistAll_references read q
  · rw [if_neg same, if_neg same]
    exact pruned q

/-- With the text of `p` one cell less waits for its own, whether the call succeeds or not. -/
theorem Partial.text_setText (waits : Partial s settings (p :: texts) colours t) (fresh : p ∉ texts)
    (q : Place rows columns) :
    ((after (Sheet.setText p.address (s.cell p).text t)).cell q).text =
      if q ∈ texts then "" else (s.cell q).text := by
  rw [(edited_setText waits.upToDate.linked p (s.cell p).text).text]
  by_cases same : q = p
  · subst same
    rw [if_pos rfl, if_neg fresh]
  · rw [if_neg same, waits.text]
    simp only [List.mem_cons, same, false_or]

theorem Partial.pruned_setText (waits : Partial s settings (p :: texts) colours t)
    (upToDate : s.UpToDate) : (after (Sheet.setText p.address (s.cell p).text t)).Pruned := by
  apply waits.pruned.setText waits.upToDate.linked _ (upToDate.computes p)
  rw [waits.text, if_pos List.mem_cons_self]

theorem Partial.setText (waits : Partial s settings (p :: texts) colours t) (upToDate : s.UpToDate)
    (fresh : p ∉ texts) :
    (∃ updates u, setText p.address (s.cell p).text t = .ok updates u ∧
        Partial s settings texts colours u) ∨
      settings.depthLimit < rows * columns ∧
        ∃ u, setText p.address (s.cell p).text t =
          .error (.cascadeTooDeep settings.depthLimit) u := by
  have linked := waits.upToDate.linked
  have edited := edited_setText linked p (s.cell p).text
  have pruned := waits.pruned_setText upToDate
  have text := waits.text_setText fresh
  -- cells that still wait have no text, so they close no cycle
  have part : ∀ q, ((after (Sheet.setText p.address (s.cell p).text t)).cell q).text = "" ∨
      ((after (Sheet.setText p.address (s.cell p).text t)).cell q).text = (s.cell q).text := by
    intro q
    rw [text]
    exact ite_eq_or_eq _ _ _
  rcases upToDate.setText_of_pruned linked pruned part with ⟨updates, u, succeeds⟩ | refused
  · left
    have left : after (Sheet.setText p.address (s.cell p).text t) = u := by
      rw [succeeds, after]
    subst left
    refine ⟨updates, _, succeeds, waits.upToDate.of_setText succeeds,
      waits.indexed.setText linked p _, pruned, edited.settings.trans waits.settings, text, ?_⟩
    intro q
    rw [background_setText linked, waits.background]
  · right
    rwa [waits.settings] at refused

/-- Entering a record is setting a text on the sheet with the colour. -/
theorem enter_record (s t : Sheet rows columns) (p : Place rows columns) :
    enter (s.record p) t = (discard (setText p.address (s.cell p).text) : Edit rows columns Unit)
      (after (setBackground p.address (s.cell p).background t)) := by
  rw [enter, run_bind, record, setBackground_eq]
  rfl

theorem Partial.enter (waits : Partial s settings (p :: rest) (p :: rest) t)
    (upToDate : s.UpToDate) (fresh : p ∉ rest) :
    (∃ u, enter (s.record p) t = .ok () u ∧ Partial s settings rest rest u) ∨
      settings.depthLimit < rows * columns ∧
        ∃ u, enter (s.record p) t = .error (.cascadeTooDeep settings.depthLimit) u := by
  rw [enter_record, Session.run_discard]
  rcases (waits.setBackground fresh).setText upToDate fresh with
    ⟨updates, u, succeeds, entered⟩ | ⟨small, u, refused⟩
  · rw [succeeds]
    exact .inl ⟨u, rfl, entered⟩
  · rw [refused]
    exact .inr ⟨small, u, rfl⟩

/-! ## Entering all records -/

theorem Partial.enterAll (waits : Partial s settings rest rest t) (upToDate : s.UpToDate)
    (nodup : rest.Nodup) :
    (∃ u, (rest.map s.record).forM Sheet.enter t = .ok () u ∧ Partial s settings [] [] u) ∨
      settings.depthLimit < rows * columns ∧
        ∃ u, (rest.map s.record).forM Sheet.enter t =
          .error (.cascadeTooDeep settings.depthLimit) u := by
  induction rest generalizing t with
  | nil => exact .inl ⟨t, rfl, waits⟩
  | cons p rest ih =>
    obtain ⟨fresh, nodup⟩ := List.nodup_cons.1 nodup
    rw [List.map_cons, Session.run_enter_cons]
    rcases waits.enter upToDate fresh with ⟨u, entered, waits⟩ | ⟨small, u, refused⟩
    · rw [entered]
      exact ih waits nodup
    · rw [refused]
      exact .inr ⟨small, u, rfl⟩

/-! ## Nothing left to enter -/

theorem Pruned.precedents_eq_targets (pruned : t.Pruned)
    (computes : Content.failure? (t.cell p).text = none) :
    (t.cell p).precedents = Content.targets p (t.cell p).text := by
  obtain ⟨content, read⟩ := Content.exists_read computes
  rw [pruned p, referencesOf_eq read, Content.targets_of_read read]

/-- Sheets that list the same places have the same records if their cells hold the same. -/
theorem records_eq (occupied : t.occupied = s.occupied)
    (text : ∀ p, (t.cell p).text = (s.cell p).text)
    (background : ∀ p, (t.cell p).background = (s.cell p).background) :
    t.records = s.records := by
  rw [records, records, occupied]
  apply List.map_congr_left
  intro p _
  rw [record, record, text, background]

end Sheet

namespace Session

/-- The records of a sheet without refused texts, in any order, are loaded into any sheet of its
size.  Then that sheet has the same records in the old order, and every cell has its text, its value
and its colour and is linked to what its text refers to; if the records were taken from a sheet that
drops stale links, the precedents are those of that sheet, and so are the dependents, in some order.
Or a cascade is refused, which is possible only if the limit is less than the number of cells. -/
theorem load_records {session : Session rows columns} (reachable : Reachable session)
    (accepted : ∀ q, ¬ session.Failed q) {records : List Record}
    (perm : records.Perm session.sheet.records) (target : Sheet rows columns) :
    (∃ t, Sheet.load records target = .ok () t ∧
        t.records = session.sheet.records ∧
        (∀ p, (t.cell p).text = (session.sheet.cell p).text ∧
          (t.cell p).value = (session.sheet.cell p).value ∧
          (t.cell p).background = (session.sheet.cell p).background ∧
          (t.cell p).precedents = Content.targets p (t.cell p).text) ∧
        (session.sheet.settings.dropStale = true →
          ∀ p, (t.cell p).precedents = (session.sheet.cell p).precedents ∧
            (t.cell p).dependents.Perm (session.sheet.cell p).dependents)) ∨
      target.settings.depthLimit < rows * columns ∧
        ∃ t, Sheet.load records target =
          .error (.cascadeTooDeep target.settings.depthLimit) t := by
  have upToDate := (confined_of_reachable reachable).upToDate accepted
  have indexed := indexed_of_reachable reachable
  obtain ⟨places, rfl, reordered⟩ : Comp (· = List.map session.sheet.record ·) List.Perm records
      session.sheet.occupied := by
    rw [List.eq_map_comp_perm]
    exact perm
  have nodup : places.Nodup := by
    rw [reordered.nodup_iff]
    exact indexed.ordered.imp fun before same => (same ▸ before).ne rfl
  have waits := Sheet.partial_clear indexed reordered target
  rcases waits.enterAll upToDate nodup with ⟨t, loaded, entered⟩ | refused
  · left
    have text : ∀ p, (t.cell p).text = (session.sheet.cell p).text := fun p => entered.text p
    have background : ∀ p, (t.cell p).background = (session.sheet.cell p).background := fun p =>
      entered.background p
    have occupied := indexed.occupied_eq entered.indexed fun p =>
      Sheet.isEmpty_congr (text p) (background p)
    refine ⟨t, loaded, Sheet.records_eq occupied text background, fun p => ⟨text p, ?_,
      background p, ?_⟩, fun drops => ?_⟩
    · exact upToDate.value_eq entered.upToDate text p
    · exact entered.pruned.precedents_eq_targets (entered.upToDate.computes p)
    · have precedents : ∀ p, (t.cell p).precedents = (session.sheet.cell p).precedents := by
        intro p
        rw [entered.pruned p, text, upToDate.linked.pruned drops upToDate.computes p]
      have mirrored := entered.upToDate.linked.mirrored
      exact fun p =>
        ⟨precedents p, upToDate.linked.mirrored.dependents_perm mirrored precedents p⟩
  · exact .inr refused

def occupiedBefore : Sheet 1 2 :=
  ((setText ⟨0, 0⟩ "=B1" { sheet := Sheet.blank 1 2 ⟨false, 2⟩ }).setText ⟨0, 1⟩ "=A1").sheet

theorem load_records_reversed :
    ∃ t, Sheet.load forward.sheet.records.reverse occupiedBefore = .ok () t ∧
      t.records = forward.sheet.records ∧
      (t.cell ⟨0, 0⟩).value = (forward.sheet.cell ⟨0, 0⟩).value ∧
      (t.cell ⟨0, 0⟩).precedents = (forward.sheet.cell ⟨0, 0⟩).precedents := by
  have accepted := @not_failed_of_all 1 2 forward (by decide +kernel)
  rcases @load_records 1 2 forward reachable_forward accepted _ (List.reverse_perm _)
    occupiedBefore with ⟨t, loaded, records, cells, links⟩ | ⟨small, -⟩
  · obtain ⟨-, value, -⟩ := cells ⟨0, 0⟩
    obtain ⟨precedents, -⟩ := links (by decide +kernel) ⟨0, 0⟩
    exact ⟨t, loaded, records, value, precedents⟩
  · exact absurd small (by decide +kernel)

end Session

end FormulaGrid
