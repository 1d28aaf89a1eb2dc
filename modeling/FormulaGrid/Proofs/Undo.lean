import FormulaGrid.Proofs.UpToDate

/-! # Taking an edit back

An edit of a sheet that is up to date can be taken back by entering the old text again, whatever the
edit has done: a text that failed, a cycle that it closed, a cascade that was never worked off.
With the old text the cell has its old links, so the graph is the old one and has no cycle, and
every value follows from the texts.
-/

namespace FormulaGrid

variable {rows columns : Nat}

namespace Session

/-- On a sheet without refused texts, that drops stale links and whose limit is no less than the
number of its cells, any text may be entered into any cell, with or without success.  Then the old
text can be entered again, and every cell has its old text, value, colour and precedents, and its
old dependents in some order. -/
theorem edit_undone {session : Session rows columns} (reachable : Reachable session)
    (accepted : ∀ q, ¬ session.Failed q) (drops : session.sheet.settings.dropStale = true)
    (ample : rows * columns ≤ session.sheet.settings.depthLimit) (o : Place rows columns)
    (text : String) :
    ∃ updates t, Sheet.setText o.address (session.sheet.cell o).text
        (Sheet.after (Sheet.setText o.address text session.sheet)) = .ok updates t ∧
      ∀ p, (t.cell p).text = (session.sheet.cell p).text ∧
        (t.cell p).value = (session.sheet.cell p).value ∧
        (t.cell p).background = (session.sheet.cell p).background ∧
        (t.cell p).precedents = (session.sheet.cell p).precedents ∧
        (t.cell p).dependents.Perm (session.sheet.cell p).dependents := by
  have confined := confined_of_reachable reachable
  have upToDate := confined.upToDate accepted
  have edited := edited_setText confined.linked o text
  have texts : ∀ p, (session.sheet.cell p).text =
      if p = o then (session.sheet.cell o).text
      else ((session.setText o.address text).sheet.cell p).text := by
    intro p
    by_cases same : p = o
    · rw [if_pos same, same]
    · rw [if_neg same, edited.text, if_neg same]
  -- what the edit did to links and values does not matter, as the texts will be the old ones
  obtain ⟨updates, t, succeeds⟩ := upToDate.exists_setText_ok edited.linked
    (edited.settings ▸ drops) (edited.settings ▸ ample) texts
  have left : Sheet.after (Sheet.setText o.address (session.sheet.cell o).text
      (session.setText o.address text).sheet) = t := by
    rw [succeeds, Sheet.after]
  have restored := Sheet.edited_setText edited.linked o (session.sheet.cell o).text
  rw [left] at restored
  have upToDate' : t.UpToDate := by
    apply (confined.setText o text).upToDate_of_setText _ succeeds
    intro q other
    rw [failed_setText_iff, if_neg other]
    exact accepted q
  have text' : ∀ p, (t.cell p).text = (session.sheet.cell p).text := fun p =>
    (restored.text p).trans (texts p).symm
  have drops' : t.settings.dropStale = true := by
    rw [restored.settings, edited.settings, drops]
  have background : ∀ p, (t.cell p).background = (session.sheet.cell p).background := by
    intro p
    rw [← left, Sheet.background_setText edited.linked]
    exact Sheet.background_setText confined.linked o p text
  have precedents : ∀ p, (t.cell p).precedents = (session.sheet.cell p).precedents := by
    intro p
    rw [restored.linked.pruned drops' upToDate'.computes p, text',
      confined.linked.pruned drops upToDate.computes p]
  have dependents := confined.linked.mirrored.dependents_perm restored.linked.mirrored precedents
  refine ⟨updates, t, succeeds, fun p => ?_⟩
  exact ⟨text' p, upToDate.value_eq upToDate' text' p, background p, precedents p, dependents p⟩

/-- The second cell is made to close a circle, and then gets its text back. -/
theorem edit_undone_circle :
    Sheet.succeeds (Sheet.setText ⟨0, 1⟩ "=A1" forward.sheet) = false ∧
      ∃ updates t, Sheet.setText ⟨0, 1⟩ (forward.sheet.cell ⟨0, 1⟩).text
          (Sheet.after (Sheet.setText ⟨0, 1⟩ "=A1" forward.sheet)) = .ok updates t ∧
        (t.cell ⟨0, 1⟩).value = (forward.sheet.cell ⟨0, 1⟩).value ∧
        (t.cell ⟨0, 1⟩).precedents = (forward.sheet.cell ⟨0, 1⟩).precedents := by
  have accepted := @not_failed_of_all 1 2 forward (by decide +kernel)
  obtain ⟨updates, t, succeeds, restored⟩ := @edit_undone 1 2 forward reachable_forward accepted
    (by decide +kernel) (by decide +kernel) ⟨0, 1⟩ "=A1"
  obtain ⟨-, value, -, precedents, -⟩ := restored ⟨0, 1⟩
  exact ⟨by decide +kernel, updates, t, succeeds, value, precedents⟩

end Session

end FormulaGrid
