import FormulaGrid.Proofs.FailedEdits
import FormulaGrid.Proofs.Occupied

/-! # Entering a text twice

A call may stop at any point, and what it leaves is then a fixed point of the same call.  The cell
is linked already as its text asks for, so the second call walks the same graph in the same order.
What the first call evaluated is consistent with the values that it left, and evaluating it again
changes nothing; the text that failed fails again.
-/

namespace FormulaGrid

variable {rows columns : Nat}

namespace Sheet

variable {s : Sheet rows columns} {o p : Place rows columns}

/-! ## Entering what is there -/

theorem withText_eq (indexed : s.Indexed) (o : Place rows columns) :
    s.withText o (s.cell o).text = s := by
  have cells : ∀ q, (s.withText o (s.cell o).text).cell q = s.cell q := by
    intro q
    rw [cell_withText]
    split
    · rename_i same
      subst same
      rfl
    · rfl
  have listed : (s.withText o (s.cell o).text).Indexed := indexed.update o _
  apply ext_cell (settings_withText s o _) _ cells
  apply indexed.occupied_eq listed
  intro q
  rw [cells]

theorem relink_eq (indexed : s.Indexed) (linked : s.Linked) (o : Place rows columns) :
    s.relink o (s.cell o).text = s := by
  rw [relink, withText_eq indexed]
  cases read : Content.read (s.cell o).text with
  | error fault => rfl
  | ok content => exact (linked.fits o).link_eq linked.mirrored read

/-! ## Evaluating what is consistent -/

theorem withValue_eq (s : Sheet rows columns) (p : Place rows columns) :
    s.withValue p (s.cell p).value = s := by
  have revalued := revalued_withValue s p (s.cell p).value
  apply ext_cell revalued.settings revalued.occupied
  intro q
  rw [revalued.cells]
  by_cases same : q = p
  · subst same
    rw [value_withValue]
  · rw [revalued.values q (by simpa using same)]

theorem evaluateCell_of_consistent (linked : s.Linked) (consistent : s.Consistent p) :
    evaluateCell p s = .ok ⟨p, (s.cell p).value⟩ s := by
  obtain ⟨content, read, prescribed⟩ := consistent
  rw [evaluateCell_of_prescribed linked read prescribed, withValue_eq]

theorem mapM_evaluateCell_of_consistent (linked : s.Linked) {ps : List (Place rows columns)}
    (consistent : ∀ p ∈ ps, s.Consistent p) :
    ps.mapM evaluateCell s = .ok (ps.map fun p => ⟨p, (s.cell p).value⟩) s := by
  induction ps with
  | nil => rfl
  | cons p ps ih =>
    obtain ⟨first, others⟩ := List.forall_mem_cons.1 consistent
    rw [mapM_evaluateCell_cons, evaluateCell_of_consistent linked first]
    dsimp only
    rw [ih others]
    rfl

/-- Behind consistent cells, a text that fails ends the run. -/
theorem mapM_evaluateCell_of_failure (linked : s.Linked) {front back : List (Place rows columns)}
    {d : Place rows columns} {fault : Fault} (consistent : ∀ p ∈ front, s.Consistent p)
    (failure : Content.failure? (s.cell d).text = some fault) :
    (front ++ d :: back).mapM evaluateCell s = .error fault s := by
  induction front with
  | nil => rw [List.nil_append, mapM_evaluateCell_cons, evaluateCell_of_failure linked failure]
  | cons p front ih =>
    obtain ⟨first, others⟩ := List.forall_mem_cons.1 consistent
    rw [List.cons_append, mapM_evaluateCell_cons, evaluateCell_of_consistent linked first]
    dsimp only
    rw [ih others]

/-! ## Repeating a recalculation -/

/-- Where no cell is fed by a later one, a second run finds what the first one left. -/
theorem mapM_evaluateCell_after (linked : s.Linked) {ps : List (Place rows columns)}
    (apart : ps.Pairwise fun p q => ¬ s.Feeds q p) (nodup : ps.Nodup) :
    ps.mapM evaluateCell (after (ps.mapM evaluateCell s)) = ps.mapM evaluateCell s := by
  have linked' := (revalued_mapM_evaluateCell linked ps).linked linked
  cases run : ps.mapM evaluateCell s with
  | ok updates t =>
    rw [run, after] at linked'
    obtain ⟨answer, consistent⟩ := mapM_evaluateCell_ok linked apart nodup run
    rw [after, mapM_evaluateCell_of_consistent linked' consistent, answer]
  | error fault t =>
    rw [run, after] at linked'
    obtain ⟨front, d, back, updates, rfl, worked, failure⟩ := mapM_evaluateCell_error linked run
    have consistent : ∀ p ∈ front, t.Consistent p :=
      (mapM_evaluateCell_ok linked (List.pairwise_append.1 apart).1
        (List.nodup_append.1 nodup).1 worked).2
    rw [after, mapM_evaluateCell_of_failure linked' consistent failure]

theorem recalculate_after (linked : s.Linked) (o : Place rows columns) :
    recalculate o (after (recalculate o s)) = recalculate o s := by
  cases cascade : s.cascade o with
  | ok order =>
    have revalued := revalued_mapM_evaluateCell linked order
    have settled := Cascade.order_settled cascade
    have again := recalculate_of_order (revalued.linked linked) (revalued.cascade o ▸ cascade)
    rw [recalculate_of_order linked cascade, again]
    exact mapM_evaluateCell_after linked settled.pairwise settled.nodup
  | error fault =>
    rw [recalculate_of_refusal linked cascade]
    rcases evaluateCell_cases linked o with
      ⟨own, -, failed⟩ | ⟨-, content, value, read, prescribed, evaluated⟩
    · rw [failed]
      dsimp only [after]
      rw [recalculate_of_refusal linked cascade, failed]
    · rw [evaluated]
      have revalued := revalued_withValue s o value
      have again := evaluateCell_of_consistent (revalued.linked linked)
        (consistent_withValue linked read prescribed)
      dsimp only [after]
      rw [recalculate_of_refusal (revalued.linked linked) (revalued.cascade o ▸ cascade), again]

end Sheet

namespace Session

/-- A text that is entered twice is entered once: the second call ends with the same updates or with
the same fault, and with the sheet that the first call left. -/
theorem edit_repeated {session : Session rows columns} (reachable : Reachable session)
    (o : Place rows columns) (text : String) :
    Sheet.setText o.address text (Sheet.after (Sheet.setText o.address text session.sheet)) =
      Sheet.setText o.address text session.sheet := by
  have linked := linked_of_reachable reachable
  have edited := Sheet.edited_setText linked o text
  have indexed := (indexed_of_reachable reachable).setText linked o text
  have entered : ((Sheet.after (Sheet.setText o.address text session.sheet)).cell o).text =
      text := by
    rw [edited.text, if_pos rfl]
  have same := Sheet.relink_eq indexed edited.linked o
  rw [entered] at same
  rw [Sheet.setText_eq edited.linked, same, Sheet.setText_eq linked]
  exact Sheet.recalculate_after (Sheet.edited_relink linked o text).linked o

/-- The cascade of the first cell ends at the broken formula in the second, both times. -/
theorem edit_repeated_broken :
    Sheet.succeeds (Sheet.setText ⟨0, 0⟩ "none" broken.sheet) = false ∧
      Sheet.setText ⟨0, 0⟩ "none" (Sheet.after (Sheet.setText ⟨0, 0⟩ "none" broken.sheet)) =
        Sheet.setText ⟨0, 0⟩ "none" broken.sheet := by
  refine ⟨by decide +kernel, ?_⟩
  exact @edit_repeated 1 2 broken reachable_broken ⟨0, 0⟩ "none"

end Session

end FormulaGrid
