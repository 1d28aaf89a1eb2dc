import FormulaGrid.Proofs.CascadeRefusal
import FormulaGrid.Proofs.Confinement
import Mathlib.Data.Fintype.Card

/-! # Values from the texts alone

Where no text was refused, the references between the cells have no cycle, and the texts alone
determine every value: each cell has the value that its text prescribes under the values of the
cells that it refers to, which come first.  How the sheet came to hold its texts does not matter.
-/

namespace FormulaGrid

open Relation

variable {rows columns : Nat}

/-! ## Recursion along the references -/

section References

variable {texts texts' : Place rows columns → String}

def RefersTo (texts : Place rows columns → String) (q p : Place rows columns) : Prop :=
  q ∈ Sheet.referencesOf p (texts p)

theorem refersTo_iff {p q : Place rows columns} {content : Content}
    (read : Content.read (texts p) = .ok content) :
    RefersTo texts q p ↔ q ∈ content.references p := by
  rw [RefersTo, Sheet.referencesOf_eq read]

/-- The value that the texts give to a cell: that of its own text, under the values that they give
to the cells it refers to. -/
noncomputable def fromScratch (wellFounded : WellFounded (RefersTo texts)) :
    Place rows columns → Option String :=
  wellFounded.fix fun p value =>
    match Content.read (texts p) with
    | .ok content =>
      content.prescribed p fun q =>
        if refers : q ∈ Sheet.referencesOf p (texts p) then (value q refers).getD "" else ""
    | .error _ => none

theorem fromScratch_eq (wellFounded : WellFounded (RefersTo texts)) {p : Place rows columns}
    {content : Content} (read : Content.read (texts p) = .ok content) :
    fromScratch wellFounded p =
      content.prescribed p fun q => (fromScratch wellFounded q).getD "" := by
  rw [fromScratch, WellFounded.fix_eq]
  simp only [read]
  apply Content.prescribed_congr read
  intro q named
  have refers : q ∈ Sheet.referencesOf p (texts p) := (refersTo_iff read).2 named
  rw [dif_pos refers]

theorem fromScratch_of_error (wellFounded : WellFounded (RefersTo texts)) {p : Place rows columns}
    {fault : Fault} (unreadable : Content.read (texts p) = .error fault) :
    fromScratch wellFounded p = none := by
  rw [fromScratch, WellFounded.fix_eq]
  simp only [unreadable]

/-- Only the texts that a cell refers to, directly or through others, matter to its value. -/
theorem fromScratch_congr (wellFounded : WellFounded (RefersTo texts))
    (wellFounded' : WellFounded (RefersTo texts')) {p : Place rows columns}
    (same : ∀ q, ReflTransGen (RefersTo texts) q p → texts' q = texts q) :
    fromScratch wellFounded' p = fromScratch wellFounded p := by
  -- along the references of the first texts, which the second texts share as far as they matter
  induction p using wellFounded.induction with
  | _ p ih =>
    have own := same p .refl
    cases read : Content.read (texts p) with
    | error fault =>
      rw [fromScratch_of_error wellFounded read, fromScratch_of_error wellFounded' (own ▸ read)]
    | ok content =>
      rw [fromScratch_eq wellFounded read, fromScratch_eq wellFounded' (own ▸ read)]
      apply Content.prescribed_congr read
      intro q named
      have refers := (refersTo_iff read).2 named
      rw [ih q refers fun r reach => same r (reach.tail refers)]

end References

/-! ## Sheets without a refused text -/

namespace Sheet

abbrev texts (s : Sheet rows columns) (p : Place rows columns) : String :=
  (s.cell p).text

theorem wellFounded_of_acyclic {s : Sheet rows columns}
    (acyclic : ∀ p, ¬ TransGen (RefersTo s.texts) p p) : WellFounded (RefersTo s.texts) := by
  have : IsTrans _ (TransGen (RefersTo s.texts)) := ⟨fun _ _ _ => TransGen.trans⟩
  have : Std.Irrefl (TransGen (RefersTo s.texts)) := ⟨acyclic⟩
  exact Subrelation.wf (fun refers => .single refers)
    (Finite.wellFounded_of_trans_of_irrefl (TransGen (RefersTo s.texts)))

/-- Where every cell has the value that its text prescribes, the texts alone determine them. -/
theorem fromScratch_of_consistent {s : Sheet rows columns} (consistent : ∀ p, s.Consistent p)
    (wellFounded : WellFounded (RefersTo s.texts)) (p : Place rows columns) :
    fromScratch wellFounded p = some (s.cell p).value := by
  induction p using wellFounded.induction with
  | _ p ih =>
    obtain ⟨content, read, prescribed⟩ := consistent p
    have ofText : Content.read (s.texts p) = .ok content := read
    rw [fromScratch_eq wellFounded ofText, ← prescribed]
    apply Content.prescribed_congr read
    intro q named
    rw [ih q ((refersTo_iff ofText).2 named), Option.getD_some]

end Sheet

namespace Session

theorem Confined.acyclic {session : Session rows columns} (confined : session.Confined)
    (accepted : ∀ q, ¬ session.Failed q) (p : Place rows columns) :
    ¬ TransGen (RefersTo session.sheet.texts) p p := by
  intro circular
  have feeds : TransGen session.sheet.Feeds p p :=
    TransGen.mono (fun _ _ refers => confined.linked.feeds_of_mem_referencesOf refers) p p circular
  obtain ⟨cycle, isCycle⟩ := Sheet.exists_isCycle feeds
  exact confined.not_isCycle accepted cycle isCycle

/-- Two sessions in which no text was refused.  Their references have no cycle, so recursion along
them is well founded, and it gives every value.  Cells with the same text, whose references have the
same texts, have the same value in both. -/
theorem values_agree {first second : Session rows columns} (reachable₁ : Reachable first)
    (reachable₂ : Reachable second) (accepted₁ : ∀ q, ¬ first.Failed q)
    (accepted₂ : ∀ q, ¬ second.Failed q) :
    (∀ p, ¬ TransGen (RefersTo first.sheet.texts) p p) ∧
    (∀ p, ¬ TransGen (RefersTo second.sheet.texts) p p) ∧
    ∃ (wellFounded₁ : WellFounded (RefersTo first.sheet.texts))
      (wellFounded₂ : WellFounded (RefersTo second.sheet.texts)),
      ∀ c, (∀ q, ReflTransGen (RefersTo first.sheet.texts) q c →
          second.sheet.texts q = first.sheet.texts q) →
        (second.sheet.cell c).value = (first.sheet.cell c).value ∧
        some (first.sheet.cell c).value = fromScratch wellFounded₁ c ∧
        some (second.sheet.cell c).value = fromScratch wellFounded₂ c := by
  have confined₁ := confined_of_reachable reachable₁
  have confined₂ := confined_of_reachable reachable₂
  have acyclic₁ := confined₁.acyclic accepted₁
  have acyclic₂ := confined₂.acyclic accepted₂
  have wellFounded₁ := Sheet.wellFounded_of_acyclic acyclic₁
  have wellFounded₂ := Sheet.wellFounded_of_acyclic acyclic₂
  have values₁ := Sheet.fromScratch_of_consistent (confined₁.consistent accepted₁) wellFounded₁
  have values₂ := Sheet.fromScratch_of_consistent (confined₂.consistent accepted₂) wellFounded₂
  refine ⟨acyclic₁, acyclic₂, wellFounded₁, wellFounded₂, ?_⟩
  intro c same
  refine ⟨?_, (values₁ c).symm, (values₂ c).symm⟩
  have agree := fromScratch_congr wellFounded₁ wellFounded₂ same
  rw [values₁, values₂] at agree
  exact Option.some.inj agree

theorem not_failed_of_all {session : Session rows columns}
    (accepted : session.entries.all Entry.accepted = true) (q : Place rows columns) :
    ¬ session.Failed q := by
  rintro ⟨e, found, refused⟩
  have := List.all_eq_true.1 accepted e (List.mem_of_find?_eq_some found)
  rw [refused] at this
  cases this

def forward : Session 1 2 :=
  (setText ⟨0, 0⟩ "=B1" { sheet := Sheet.blank 1 2 {} }).setText ⟨0, 1⟩ "none"

def backward : Session 1 2 :=
  ((setText ⟨0, 1⟩ "none" { sheet := Sheet.blank 1 2 ⟨false, 8⟩ }).setText ⟨0, 0⟩ "=B1+B1").setText
    ⟨0, 0⟩ "=B1"

theorem reachable_forward : Reachable forward :=
  .called (.called (.created rfl) (.setText ⟨0, 0⟩ "=B1")) (.setText ⟨0, 1⟩ "none")

theorem reachable_backward : Reachable backward :=
  .called (.called (.called (.created rfl) (.setText ⟨0, 1⟩ "none")) (.setText ⟨0, 0⟩ "=B1+B1"))
    (.setText ⟨0, 0⟩ "=B1")

theorem values_agree_backward :
    (∀ q, ¬ forward.Failed q) ∧ (∀ q, ¬ backward.Failed q) ∧
      (backward.sheet.cell ⟨0, 0⟩).value = (forward.sheet.cell ⟨0, 0⟩).value := by
  have accepted₁ := @not_failed_of_all 1 2 forward (by decide +kernel)
  have accepted₂ := @not_failed_of_all 1 2 backward (by decide +kernel)
  have same : ∀ q ∈ Place.all 1 2, backward.sheet.texts q = forward.sheet.texts q := by
    decide +kernel
  obtain ⟨-, -, _, _, agree⟩ :=
    values_agree reachable_forward reachable_backward accepted₁ accepted₂
  exact ⟨accepted₁, accepted₂, (agree ⟨0, 0⟩ fun q _ => same q (Place.mem_all q)).1⟩

end Session

end FormulaGrid
