import FormulaGrid.Proofs.CycleVerdicts

/-! # Where faults come from

Every stage guards against what the stage before it never hands on: the builder against numbers that
cannot be read, parentheses and unknown names, and the evaluation against slots and values that are
not there.  None of these guards is ever met.
-/

namespace FormulaGrid

variable {rows columns : Nat}

namespace Sheet

variable {s t : Sheet rows columns} {o : Place rows columns} {text : String} {fault : Fault}

theorem fault?_evaluateCell (s : Sheet rows columns) (p : Place rows columns) :
    fault? (evaluateCell p s) = Content.failure? (s.cell p).text := by
  rw [evaluateCell_eq]
  cases read : Content.read (s.cell p).text with
  | error fault =>
    rw [Content.failure?_of_error read]
    rfl
  | ok content =>
    rw [Content.failure?_of_read read p s.values]
    dsimp only
    cases content.prescribed p s.values <;> rfl

theorem origin_of_setText_error (linked : s.Linked)
    (failed : setText o.address text s = .error fault t) :
    fault.OfCascade ∨ ∃ p, Content.failure? (t.cell p).text = some fault := by
  cases failure : Content.failure? text with
  | some own =>
    rw [setText_of_failure linked failure] at failed
    cases failed
    refine .inr ⟨o, ?_⟩
    rw [text_relink linked, failure]
  | none =>
    rcases setText_error_of_computes linked failed failure with ⟨refused, -⟩ | ⟨order, -, run⟩
    · exact .inl (ofCascade_of_cascade refused)
    · obtain ⟨front, d, back, updates, -, -, stopped⟩ :=
        mapM_evaluateCell_error (edited_relink linked o text).linked run
      exact .inr ⟨d, stopped⟩

end Sheet

namespace Session

/-- The faults that can occur.  A formula is refused by the scanner, for its parentheses, or for
operands that are left or missing at one of the four operators, and every number that is scanned can
be read.  A call fails with one of these faults for the formula of some cell, with an empty formula,
or with a fault of the walk along the dependents.  Whether a cell fails, and with what, its text alone
decides. -/
theorem faults_accounted :
    (∀ formula fault, Formula.parse formula = .error fault → fault.OfFormula formula) ∧
    (∀ formula tokens, Token.scan formula = .ok tokens → ∀ t ∈ tokens, t.kind = .number →
      ∃ x, Number.parse? t.text = some x) ∧
    (∀ session : Session rows columns, Reachable session →
      ∀ (o : Place rows columns) (text : String) (fault : Fault) (t : Sheet rows columns),
        Sheet.setText o.address text session.sheet = .error fault t →
          fault = .emptyExpression ∨ fault.OfCascade ∨
            ∃ p body, (t.cell p).text = "=" ++ body ∧ Formula.parse body = .error fault ∧
              fault.OfFormula body) ∧
    (∀ (s : Sheet rows columns) (p : Place rows columns),
      Sheet.fault? (Sheet.evaluateCell p s) = Content.failure? (s.cell p).text) := by
  refine ⟨?_, ?_, ?_, Sheet.fault?_evaluateCell⟩
  · intro formula fault failed
    exact Formula.ofFormula_of_parse failed
  · intro formula tokens scanned t member kind
    exact ((Token.scan_sound scanned).2 t member).exists_parse kind
  · intro session reachable o text fault t failed
    rcases Sheet.origin_of_setText_error (linked_of_reachable reachable) failed with
      ofCascade | ⟨p, failure⟩
    · exact .inr (.inl ofCascade)
    rcases Content.failure?_eq_some failure with empty | ⟨body, text, unparsed⟩
    · exact .inl empty
    · exact .inr (.inr ⟨p, body, text, unparsed, Formula.ofFormula_of_parse unparsed⟩)

/-- A new text of the first cell is refused for the broken formula in the second, which misses an
operand. -/
theorem faults_accounted_broken :
    ∃ fault t, Sheet.setText ⟨0, 0⟩ "none" broken.sheet = .error fault t ∧
      (fault = .emptyExpression ∨ fault.OfCascade ∨
        ∃ p body, (t.cell p).text = "=" ++ body ∧ Formula.parse body = .error fault ∧
          fault.OfFormula body) ∧
      Sheet.fault? (Sheet.evaluateCell ⟨0, 1⟩ broken.sheet) = some (.insufficientOperands "+") := by
  obtain ⟨-, -, origins, own⟩ := @faults_accounted 1 2
  have refused : Sheet.succeeds (Sheet.setText ⟨0, 0⟩ "none" broken.sheet) = false := by
    decide +kernel
  cases failed : Sheet.setText ⟨0, 0⟩ "none" broken.sheet with
  | ok updates t =>
    rw [failed] at refused
    cases refused
  | error fault t =>
    refine ⟨fault, t, rfl, origins broken reachable_broken ⟨0, 0⟩ "none" fault t failed, ?_⟩
    rw [own]
    decide +kernel

end Session

end FormulaGrid
