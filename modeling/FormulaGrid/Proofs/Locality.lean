import FormulaGrid.Proofs.CycleVerdicts

namespace FormulaGrid

open Relation

variable {rows columns : Nat}

namespace Sheet

variable {s : Sheet rows columns} {o p : Place rows columns} {text : String}

theorem dependents_relink (s : Sheet rows columns) (o p : Place rows columns) (text : String) :
    ((s.relink o text).cell p).dependents =
      match Content.read text with
      | .error _ => (s.cell p).dependents
      | .ok content =>
        if p ∈ content.references o then Cell.enlist o (s.cell p).dependents
        else if s.settings.dropStale ∧ p ∈ (s.cell o).precedents then
          (s.cell p).dependents.filter (· != o)
        else (s.cell p).dependents := by
  rw [relink]
  cases Content.read text with
  | error fault => simp only [cell_withText]
  | ok content => simp only [dependents_link, settings_withText, cell_withText]

/-- A list of dependents stays as it is, or loses the edited cell, or gains it at its end. -/
theorem dependents_relink_cases (linked : s.Linked) (o p : Place rows columns) (text : String) :
    ((s.relink o text).cell p).dependents = (s.cell p).dependents ∨
      o ∈ (s.cell p).dependents ∧
        ((s.relink o text).cell p).dependents = (s.cell p).dependents.filter (· != o) ∨
      o ∉ (s.cell p).dependents ∧
        ((s.relink o text).cell p).dependents = (s.cell p).dependents ++ [o] := by
  rw [dependents_relink]
  cases Content.read text with
  | error fault => exact .inl rfl
  | ok content =>
    dsimp only
    split
    · by_cases member : o ∈ (s.cell p).dependents
      · exact .inl (Cell.enlist_of_mem member)
      · exact .inr (.inr ⟨member, if_neg member⟩)
    · split
      · rename_i stale
        exact .inr (.inl ⟨(linked.mirrored.mem_iff p o).2 stale.2, rfl⟩)
      · exact .inl rfl

/-- No cell refers to itself, so the edited cell neither joins nor leaves its own dependents. -/
theorem dependents_relink_self (linked : s.Linked) (o : Place rows columns) (text : String) :
    ((s.relink o text).cell o).dependents = (s.cell o).dependents := by
  rw [dependents_relink]
  cases Content.read text with
  | error fault => rfl
  | ok content =>
    dsimp only
    rw [if_neg (home_notMem_references o content),
      if_neg fun stale => linked.mirrored.irreflexive o stale.2]

end Sheet

namespace Session

/-- A call leaves every colour alone, and every text and every list of precedents but those of the
edited cell.  It leaves alone the value of a cell that does not depend on the edited cell, and the
dependents of the edited cell.  Every other list of dependents stays as it is, or loses the edited
cell and nothing else, or gains it at its end. -/
theorem edit_local {session : Session rows columns} (reachable : Reachable session)
    (o : Place rows columns) (text : String) {t : Sheet rows columns}
    (left : Sheet.after (Sheet.setText o.address text session.sheet) = t) :
    (∀ p, (t.cell p).background = (session.sheet.cell p).background) ∧
    (∀ p, p ≠ o → (t.cell p).text = (session.sheet.cell p).text) ∧
    (∀ p, ¬ ReflTransGen t.Feeds o p → (t.cell p).value = (session.sheet.cell p).value) ∧
    (∀ p, p ≠ o → (t.cell p).precedents = (session.sheet.cell p).precedents) ∧
    (t.cell o).dependents = (session.sheet.cell o).dependents ∧
    ∀ p, p ≠ o →
      (t.cell p).dependents = (session.sheet.cell p).dependents ∨
        o ∈ (session.sheet.cell p).dependents ∧
          (t.cell p).dependents = (session.sheet.cell p).dependents.filter (· != o) ∨
        o ∉ (session.sheet.cell p).dependents ∧
          (t.cell p).dependents = (session.sheet.cell p).dependents ++ [o] := by
  have linked := linked_of_reachable reachable
  subst left
  have edited := Sheet.edited_setText linked o text
  obtain ⟨ps, revalued⟩ := Sheet.revalued_setText linked o text
  refine ⟨?_, ?_, edited.values, edited.precedents, ?_, ?_⟩
  · exact fun p => Sheet.background_setText linked o p text
  · intro p other
    rw [edited.text, if_neg other]
  · rw [revalued.dependents, Sheet.dependents_relink_self linked]
  · intro p _
    rw [revalued.dependents]
    exact Sheet.dependents_relink_cases linked o p text

/-- The reference that closes the circle is refused, and all the same it is linked: the first cell
keeps its precedents and gains a dependent. -/
theorem edit_local_halfCircle :
    Sheet.succeeds (Sheet.setText ⟨0, 1⟩ "=A1" halfCircle.sheet) = false ∧
      ((Sheet.after (Sheet.setText ⟨0, 1⟩ "=A1" halfCircle.sheet)).cell ⟨0, 0⟩).precedents =
        (halfCircle.sheet.cell ⟨0, 0⟩).precedents ∧
      ((Sheet.after (Sheet.setText ⟨0, 1⟩ "=A1" halfCircle.sheet)).cell ⟨0, 0⟩).dependents =
        (halfCircle.sheet.cell ⟨0, 0⟩).dependents ++ [⟨0, 1⟩] := by
  have reachable : Reachable halfCircle := .called (.created rfl) (.setText ⟨0, 0⟩ "=B1")
  obtain ⟨-, -, -, precedents, -, dependents⟩ :=
    @edit_local 1 2 halfCircle reachable ⟨0, 1⟩ "=A1" _ rfl
  have new : (⟨0, 1⟩ : Place 1 2) ∈
      ((Sheet.after (Sheet.setText ⟨0, 1⟩ "=A1" halfCircle.sheet)).cell ⟨0, 0⟩).dependents := by
    decide +kernel
  have old : (⟨0, 1⟩ : Place 1 2) ∉ (halfCircle.sheet.cell ⟨0, 0⟩).dependents := by
    decide +kernel
  refine ⟨by decide +kernel, precedents ⟨0, 0⟩ (by decide), ?_⟩
  rcases dependents ⟨0, 0⟩ (by decide) with kept | ⟨member, -⟩ | ⟨-, gained⟩
  · exact absurd (kept ▸ new) old
  · exact absurd member old
  · exact gained

end Session

end FormulaGrid
