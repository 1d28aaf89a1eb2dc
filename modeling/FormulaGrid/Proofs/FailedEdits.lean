import FormulaGrid.Proofs.CascadeRefusal
import FormulaGrid.Proofs.Session
import FormulaGrid.Proofs.TextFaults

/-! # What a failed edit leaves

A call can fail at four moments: before the links of its cell change, after that, when the cell has
its new value, and in the middle of the cascade.  The cascade is worked off as far as its cells
compute, so in the last case a front part of it is up to date and nothing else has changed.
-/

namespace FormulaGrid

open Relation

variable {rows columns : Nat}

namespace Sheet

variable {s t : Sheet rows columns} {o : Place rows columns}

/-! ## Orders of a cascade -/

/-- The cells that depend on `o`, each once and none in front of its precedents; `o` comes first. -/
structure Topological (s : Sheet rows columns) (o : Place rows columns)
    (order : List (Place rows columns)) : Prop where
  head : order.head? = some o
  nodup : order.Nodup
  mem_iff : ∀ p, p ∈ order ↔ ReflTransGen s.Feeds o p
  precedents_first : order.Pairwise fun p q => q ∉ (s.cell p).precedents

theorem topological_cascade (linked : s.Linked) {order : List (Place rows columns)}
    (cascade : s.cascade o = .ok order) : s.Topological o order where
  head := by
    obtain ⟨others, rfl⟩ := Cascade.order_head cascade
    rfl
  nodup := (Cascade.order_settled cascade).nodup
  mem_iff := mem_cascade_iff cascade
  precedents_first := by
    apply (Cascade.order_settled cascade).pairwise.imp
    intro p q unfed precedent
    exact unfed ((linked.mirrored.mem_iff q p).2 precedent)

/-! ## Where a run stops -/

theorem Consistent.failure?_eq_none {p : Place rows columns} (consistent : s.Consistent p) :
    Content.failure? (s.cell p).text = none := by
  obtain ⟨content, read, prescribed⟩ := consistent
  rw [Content.failure?_of_read read p s.values, prescribed]

/-- A run that fails has evaluated the cells in front of the first whose text fails. -/
theorem mapM_evaluateCell_error (linked : s.Linked) {ps : List (Place rows columns)} {fault : Fault}
    (run : ps.mapM evaluateCell s = .error fault t) :
    ∃ front d back updates, ps = front ++ d :: back ∧
      front.mapM evaluateCell s = .ok updates t ∧
      Content.failure? (t.cell d).text = some fault := by
  induction ps generalizing s with
  | nil => cases run
  | cons p ps ih =>
    rw [mapM_evaluateCell_cons] at run
    rcases evaluateCell_cases linked p with
      ⟨own, failure, failed⟩ | ⟨-, content, value, -, -, evaluated⟩
    · rw [failed] at run
      cases run
      exact ⟨[], p, ps, [], rfl, rfl, failure⟩
    · rw [evaluated] at run
      dsimp only at run
      cases later : ps.mapM evaluateCell (s.withValue p value) with
      | ok others u =>
        rw [later] at run
        cases run
      | error fault' u =>
        rw [later] at run
        cases run
        have linked₁ := (revalued_withValue s p value).linked linked
        obtain ⟨front, d, back, updates, rfl, worked, failure⟩ := ih linked₁ later
        refine ⟨p :: front, d, back, ⟨p, value⟩ :: updates, rfl, ?_, failure⟩
        rw [mapM_evaluateCell_cons, evaluated]
        dsimp only
        rw [worked]

def midway (s t : Sheet rows columns) (front : List (Place rows columns)) (p : Place rows columns) :
    String :=
  if p ∈ front then (t.cell p).value else (s.cell p).value

/-- The value of the cell is what its text prescribes when the cells of `front` have their new
values and all others their old ones. -/
def Recomputed (s t : Sheet rows columns) (front : List (Place rows columns))
    (p : Place rows columns) : Prop :=
  ∃ content, Content.read (t.cell p).text = .ok content ∧
    content.prescribed p (midway s t front) = some (t.cell p).value

/-- A cell that is consistent in the end was computed from the cells in front of it, if none of its
precedents comes later. -/
theorem Consistent.recomputed {front back : List (Place rows columns)} {p : Place rows columns}
    (consistent : t.Consistent p) (linked : t.Linked)
    (values : ∀ q, q ∉ front ++ p :: back → (t.cell q).value = (s.cell q).value)
    (first : (front ++ p :: back).Pairwise fun p q => q ∉ (t.cell p).precedents) :
    Recomputed s t front p := by
  obtain ⟨content, read, prescribed⟩ := consistent
  refine ⟨content, read, ?_⟩
  rw [← prescribed]
  apply Content.prescribed_congr read
  intro q named
  have precedent := (linked.fits p).mem_precedents read named
  simp only [midway]
  split
  · rfl
  · rename_i behind
    symm
    apply values
    have later := (List.pairwise_cons.1 (List.pairwise_append.1 first).2.1).1
    simp only [List.mem_append, List.mem_cons, not_or]
    refine ⟨behind, ?_, fun member => later q member precedent⟩
    rintro rfl
    exact linked.mirrored.irreflexive q precedent

/-! ## The moments of a failure -/

theorem ofCascade_of_cascade {fault : Fault} (refused : s.cascade o = .error fault) :
    fault.OfCascade := by
  cases Cascade.order_refusal refused with
  | circular reach cycle => exact .circularReference _
  | tooDeep chained nodup deep => exact .cascadeTooDeep _

/-- A text that fails ends the call as soon as the cell is linked. -/
theorem setText_of_failure (linked : s.Linked) {text : String} {fault : Fault}
    (failure : Content.failure? text = some fault) :
    setText o.address text s = .error fault (s.relink o text) := by
  rw [← text_relink linked o text] at failure
  rw [setText_eq linked, recalculate_eq,
    evaluateCell_of_failure (edited_relink linked o text).linked failure]

/-- A text that computes gives its cell a value, and then the walk is refused or a later cell of the
cascade fails. -/
theorem setText_error_of_computes (linked : s.Linked) {text : String} {fault : Fault}
    (failed : setText o.address text s = .error fault t)
    (computes : Content.failure? text = none) :
    (t.cascade o = .error fault ∧
        ∃ content value, Content.read text = .ok content ∧
          content.prescribed o s.values = some value ∧
          t = (s.relink o text).withValue o value) ∨
      ∃ order, t.cascade o = .ok order ∧
        order.mapM evaluateCell (s.relink o text) = .error fault t := by
  have linked₁ := (edited_relink linked o text).linked
  have text_eq := text_relink linked o text
  have values : (s.relink o text).values = s.values := funext fun p => value_relink s o p text
  rw [setText_eq linked] at failed
  cases cascade : (s.relink o text).cascade o with
  | error refused =>
    rw [recalculate_of_refusal linked₁ cascade] at failed
    rcases evaluateCell_cases linked₁ o with
      ⟨own, failure, -⟩ | ⟨-, content, value, read, prescribed, evaluated⟩
    · rw [text_eq, computes] at failure
      cases failure
    · rw [evaluated] at failed
      cases failed
      rw [text_eq] at read
      rw [values] at prescribed
      refine .inl ⟨?_, content, value, read, prescribed, rfl⟩
      rw [(revalued_withValue _ o value).cascade, cascade]
  | ok order =>
    rw [recalculate_of_order linked₁ cascade] at failed
    have revalued := revalued_mapM_evaluateCell linked₁ order
    rw [failed, after] at revalued
    exact .inr ⟨order, revalued.cascade o ▸ cascade, failed⟩

/-- Where the cascade has an order, a call that fails has worked off a front part of it. -/
theorem setText_error_of_order (linked : s.Linked) {text : String} {fault : Fault}
    {order : List (Place rows columns)} (failed : setText o.address text s = .error fault t)
    (computes : Content.failure? text = none) (cascade : t.cascade o = .ok order) :
    ∃ front d back, order = front ++ d :: back ∧
      (∀ p ∈ front, Content.failure? (t.cell p).text = none) ∧
      Content.failure? (t.cell d).text = some fault ∧
      (∀ before p behind, front = before ++ p :: behind → Recomputed s t before p) ∧
      ∀ p, p ∉ front → (t.cell p).value = (s.cell p).value := by
  have linked₁ := (edited_relink linked o text).linked
  rcases setText_error_of_computes linked failed computes with
    ⟨refused, -⟩ | ⟨order', cascade', run⟩
  · rw [cascade] at refused
    cases refused
  · rw [cascade] at cascade'
    cases cascade'
    obtain ⟨front, d, back, updates, rfl, worked, failure⟩ := mapM_evaluateCell_error linked₁ run
    have revalued := revalued_mapM_evaluateCell linked₁ front
    rw [worked, after] at revalued
    have linked₂ := revalued.linked linked₁
    have topological := topological_cascade linked₂ cascade
    -- the graph that the order was taken from is the one that the run leaves
    have apart := (Cascade.order_settled cascade).pairwise
    rw [show Cascade.Feeds _ = (s.relink o text).Feeds from revalued.feeds] at apart
    have consistent : ∀ p ∈ front, t.Consistent p :=
      (mapM_evaluateCell_ok linked₁ (List.pairwise_append.1 apart).1
        (List.nodup_append.1 topological.nodup).1 worked).2
    have values : ∀ p, p ∉ front → (t.cell p).value = (s.cell p).value := by
      intro p apart
      rw [revalued.values p apart, value_relink]
    refine ⟨front, d, back, rfl, fun p member => (consistent p member).failure?_eq_none, failure,
      ?_, values⟩
    rintro before p behind rfl
    apply (consistent p (by simp)).recomputed linked₂ values
    exact (List.pairwise_append.1 topological.precedents_first).1

end Sheet

namespace Session

/-- A call that fails leaves its text and one of four states.  A formula that cannot be parsed
changes nothing else.  An empty formula changes no value.  If the walk along the dependents is
refused, the edited cell alone has its new value.  Otherwise the cascade is up to date in front of
the first cell whose text fails, and everything else has its old value. -/
theorem failed_edit {session : Session rows columns} (reachable : Reachable session)
    {o : Place rows columns} {text : String} {fault : Fault} {t : Sheet rows columns}
    (failed : Sheet.setText o.address text session.sheet = .error fault t) :
    (t.cell o).text = text ∧
    (∀ body own, text = "=" ++ body → Formula.parse body = .error own →
      fault = own ∧ ∀ p, (t.cell p).value = (session.sheet.cell p).value ∧
        (t.cell p).dependents = (session.sheet.cell p).dependents ∧
        (t.cell p).precedents = (session.sheet.cell p).precedents) ∧
    (∀ body f, text = "=" ++ body → Formula.parse body = .ok f → f.root = none →
      fault = .emptyExpression ∧ ∀ p, (t.cell p).value = (session.sheet.cell p).value) ∧
    (∀ own, Content.failure? text = none → t.cascade o = .error own →
      fault = own ∧ fault.OfCascade ∧
      (∃ content, Content.read text = .ok content ∧
        content.prescribed o session.sheet.values = some (t.cell o).value) ∧
      ∀ p, p ≠ o → (t.cell p).value = (session.sheet.cell p).value) ∧
    (∀ order, Content.failure? text = none → t.cascade o = .ok order →
      t.Topological o order ∧ ∃ front d back, order = front ++ d :: back ∧
        (∀ p ∈ front, Content.failure? (t.cell p).text = none) ∧
        Content.failure? (t.cell d).text = some fault ∧
        (∀ before p behind, front = before ++ p :: behind →
          Sheet.Recomputed session.sheet t before p) ∧
        ∀ p, p ∉ front → (t.cell p).value = (session.sheet.cell p).value) := by
  have linked := linked_of_reachable reachable
  have edited := Sheet.edited_setText linked o text
  rw [failed, Sheet.after] at edited
  refine ⟨?_, ?_, ?_, ?_, ?_⟩
  · rw [edited.text, if_pos rfl]
  · rintro body own rfl unparsed
    have unreadable : Content.read ("=" ++ body) = .error own := by
      rw [Content.read_formula, unparsed]
      rfl
    rw [Sheet.setText_of_failure linked (Content.failure?_of_error unreadable)] at failed
    cases failed
    refine ⟨rfl, fun p => ?_⟩
    rw [Sheet.relink, unreadable]
    simp only [Sheet.cell_withText, and_self]
  · rintro body f rfl parsed empty
    have failure : Content.failure? ("=" ++ body) = some .emptyExpression := by
      rw [Content.failure?, Content.read_formula, parsed]
      simp only [Except.map, empty]
      rfl
    rw [Sheet.setText_of_failure linked failure] at failed
    cases failed
    exact ⟨rfl, fun p => Sheet.value_relink session.sheet o p _⟩
  · intro own computes refused
    rcases Sheet.setText_error_of_computes linked failed computes with
      ⟨refused', content, value, read, prescribed, rfl⟩ | ⟨order, cascade, -⟩
    · rw [refused] at refused'
      cases refused'
      refine ⟨rfl, Sheet.ofCascade_of_cascade refused, ⟨content, read, ?_⟩, fun p other => ?_⟩
      · rw [Sheet.value_withValue, prescribed]
      · rw [(Sheet.revalued_withValue _ o value).values p (by simpa using other),
          Sheet.value_relink]
    · rw [refused] at cascade
      cases cascade
  · intro order computes cascade
    exact ⟨Sheet.topological_cascade edited.linked cascade,
      Sheet.setText_error_of_order linked failed computes cascade⟩

def broken : Session 1 2 :=
  (setText ⟨0, 1⟩ "=A1" { sheet := Sheet.blank 1 2 {} }).setText ⟨0, 1⟩ "=A1+"

theorem reachable_broken : Reachable broken :=
  .called (.called (.created rfl) (.setText ⟨0, 1⟩ "=A1")) (.setText ⟨0, 1⟩ "=A1+")

/-- A new text of the first cell is kept, and the cascade ends at the second. -/
theorem failed_edit_broken :
    ∃ fault t, Sheet.setText ⟨0, 0⟩ "none" broken.sheet = .error fault t ∧
      (t.cell ⟨0, 0⟩).text = "none" ∧
      ∃ order, t.cascade ⟨0, 0⟩ = .ok order ∧ ∃ front d back, order = front ++ d :: back ∧
        Content.failure? (t.cell d).text = some fault := by
  have refused : Sheet.succeeds (Sheet.setText ⟨0, 0⟩ "none" broken.sheet) = false := by
    decide +kernel
  have ordered : ((Sheet.after (Sheet.setText ⟨0, 0⟩ "none" broken.sheet)).cascade
      ⟨0, 0⟩).toBool = true := by
    decide +kernel
  cases failed : Sheet.setText ⟨0, 0⟩ "none" broken.sheet with
  | ok updates t =>
    rw [failed] at refused
    cases refused
  | error fault t =>
    rw [failed, Sheet.after] at ordered
    cases cascade : t.cascade ⟨0, 0⟩ with
    | error own =>
      rw [cascade] at ordered
      cases ordered
    | ok order =>
      obtain ⟨text, -, -, -, worked⟩ :=
        @failed_edit 1 2 broken reachable_broken ⟨0, 0⟩ "none" fault t failed
      obtain ⟨-, front, d, back, split, -, failure, -⟩ := worked order (by decide +kernel) cascade
      exact ⟨fault, t, rfl, text, order, cascade, front, d, back, split, failure⟩

end Session

end FormulaGrid
