import FormulaGrid.Proofs.FailedEdits

namespace FormulaGrid

open Relation

variable {rows columns : Nat}

namespace Sheet

def fault? {α : Type} : EStateM.Result Fault (Sheet rows columns) α → Option Fault
  | .ok _ _ => none
  | .error fault _ => some fault

variable {s t : Sheet rows columns} {o : Place rows columns} {text : String} {fault : Fault}

/-- A call whose text computes ends with a fault of the walk if and only if the walk on the graph
that it leaves does. -/
theorem fault?_eq_some_iff_of_computes (linked : s.Linked)
    (computes : Content.failure? text = none) (ofCascade : fault.OfCascade) :
    fault? (setText o.address text s) = some fault ↔
      (after (setText o.address text s)).cascade o = .error fault := by
  cases returned : setText o.address text s with
  | ok updates t =>
    obtain ⟨order, ordered, -⟩ := setText_ok linked returned
    simp [fault?, after, ordered]
  | error own t =>
    simp only [fault?, after, Option.some.injEq]
    rcases setText_error_of_computes linked returned computes with
      ⟨refused, -⟩ | ⟨order, ordered, run⟩
    · simp [refused]
    · obtain ⟨front, d, back, updates, -, -, failure⟩ :=
        mapM_evaluateCell_error (edited_relink linked o text).linked run
      have other : own ≠ fault := by
        rintro rfl
        exact (Content.ofText_of_failure? failure).not_ofCascade ofCascade
      simp [ordered, other]

theorem refusal_of_fault (linked : s.Linked) (computes : Content.failure? text = none)
    (failed : setText o.address text s = .error fault t) (ofCascade : fault.OfCascade) :
    Cascade.Refusal (fun p => (t.cell p).dependents) s.settings.depthLimit o fault := by
  have edited := edited_setText linked o text
  have ends : fault? (setText o.address text s) = some fault := by
    rw [failed, fault?]
  have refused := (fault?_eq_some_iff_of_computes linked computes ofCascade).1 ends
  rw [failed, after] at edited refused
  rw [cascade, edited.settings] at refused
  exact Cascade.order_refusal refused

/-- Where a cycle can be reached from the edited cell, the walk is refused. -/
theorem ofCascade_of_cycle (linked : s.Linked) (computes : Content.failure? text = none)
    {p : Place rows columns}
    (reach : ReflTransGen (after (setText o.address text s)).Feeds o p)
    (cycle : TransGen (after (setText o.address text s)).Feeds p p) :
    ∃ fault, fault? (setText o.address text s) = some fault ∧ fault.OfCascade := by
  cases walked : (after (setText o.address text s)).cascade o with
  | ok order => exact absurd cycle (acyclic_of_cascade walked reach)
  | error fault =>
    have ofCascade := ofCascade_of_cascade walked
    exact ⟨fault, (fault?_eq_some_iff_of_computes linked computes ofCascade).2 walked, ofCascade⟩

end Sheet

namespace Session

/-- The verdict of a call whose text computes, on the graph that the call leaves.  A circular
reference names a cell on a cycle that can be reached from the edited cell.  A cascade that is too
deep has a chain of more cells than the limit, none twice.  A cycle in reach brings one of these two
faults, and it brings the first where the limit is no less than the number of cells in reach. -/
theorem cycle_verdict {session : Session rows columns} (reachable : Reachable session)
    {o : Place rows columns} {text : String} (computes : Content.failure? text = none)
    {result : EStateM.Result Fault (Sheet rows columns) (List (Update rows columns))}
    (returned : Sheet.setText o.address text session.sheet = result) {t : Sheet rows columns}
    (left : Sheet.after result = t) :
    (∀ cell, Sheet.fault? result = some (.circularReference cell) →
      ∃ p : Place rows columns, cell = p.address ∧ ReflTransGen t.Feeds o p ∧
        TransGen t.Feeds p p) ∧
    (∀ n, Sheet.fault? result = some (.cascadeTooDeep n) →
      n = session.sheet.settings.depthLimit ∧
        ∃ chain, List.IsChain t.Feeds (o :: chain) ∧ (o :: chain).Nodup ∧
          n < (o :: chain).length) ∧
    (∀ p, ReflTransGen t.Feeds o p → TransGen t.Feeds p p →
      ∃ fault, Sheet.fault? result = some fault ∧ fault.OfCascade) ∧
    ({p | ReflTransGen t.Feeds o p}.ncard ≤ session.sheet.settings.depthLimit →
      ((∃ cell, Sheet.fault? result = some (.circularReference cell)) ↔
        ∃ p, ReflTransGen t.Feeds o p ∧ TransGen t.Feeds p p)) := by
  have linked := linked_of_reachable reachable
  have refusal : ∀ fault, Sheet.fault? result = some fault → fault.OfCascade →
      Cascade.Refusal (fun p => (t.cell p).dependents) session.sheet.settings.depthLimit o
        fault := by
    intro fault ends ofCascade
    cases result with
    | ok updates u => cases ends
    | error own u =>
      cases ends
      cases left
      exact Sheet.refusal_of_fault linked computes returned ofCascade
  have complete : ∀ p, ReflTransGen t.Feeds o p → TransGen t.Feeds p p →
      ∃ fault, Sheet.fault? result = some fault ∧ fault.OfCascade := by
    intro p reach cycle
    subst left returned
    exact Sheet.ofCascade_of_cycle linked computes reach cycle
  refine ⟨?_, ?_, complete, ?_⟩
  · intro cell ends
    cases refusal _ ends (.circularReference cell) with
    | circular reach cycle => exact ⟨_, rfl, reach, cycle⟩
  · intro n ends
    cases refusal _ ends (.cascadeTooDeep n) with
    | tooDeep chained nodup deep => exact ⟨rfl, _, chained, nodup, deep⟩
  · intro ample
    constructor
    · rintro ⟨cell, ends⟩
      cases refusal _ ends (.circularReference cell) with
      | circular reach cycle => exact ⟨_, reach, cycle⟩
    · rintro ⟨p, reach, cycle⟩
      obtain ⟨fault, ends, ofCascade⟩ := complete p reach cycle
      obtain ⟨q, rfl, -, -⟩ := (refusal fault ends ofCascade).exists_cycle ample
      exact ⟨q.address, ends⟩

def halfCircle : Session 1 2 :=
  setText ⟨0, 0⟩ "=B1" { sheet := Sheet.blank 1 2 {} }

/-- A reference back closes the circle, and the fault names a cell on it. -/
theorem cycle_verdict_halfCircle :
    Sheet.fault? (Sheet.setText ⟨0, 1⟩ "=A1" halfCircle.sheet) =
        some (.circularReference ⟨0, 1⟩) ∧
      ∃ p : Place 1 2, (⟨0, 1⟩ : Address) = p.address ∧
        TransGen (Sheet.after (Sheet.setText ⟨0, 1⟩ "=A1" halfCircle.sheet)).Feeds p p := by
  have reachable : Reachable halfCircle := .called (.created rfl) (.setText ⟨0, 0⟩ "=B1")
  have ends : Sheet.fault? (Sheet.setText ⟨0, 1⟩ "=A1" halfCircle.sheet) =
      some (.circularReference ⟨0, 1⟩) := by
    decide +kernel
  obtain ⟨named, -⟩ :=
    @cycle_verdict 1 2 halfCircle reachable ⟨0, 1⟩ "=A1" (by decide +kernel) _ rfl _ rfl
  obtain ⟨p, address, -, cycle⟩ := named _ ends
  exact ⟨ends, p, address, cycle⟩

end Session

end FormulaGrid
