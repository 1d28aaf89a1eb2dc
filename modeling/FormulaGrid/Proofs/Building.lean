import FormulaGrid.Proofs.Parsing
import FormulaGrid.Proofs.Scanning

namespace FormulaGrid.Expr

def slotIn (vs : Variables) (name : String) : Nat :=
  (vs.slot? name).getD 0

variable {vs : Variables} {tokens : List Token} {e : Expr}

theorem Listed.exists_tree (listed : Listed vs e tokens) (lexemes : ∀ t ∈ tokens, t.IsLexeme) :
    ∃ tree : Tree, tree.postorder = tokens ∧ e = tree.expr (slotIn vs) := by
  induction listed with
  | @const t x kind parsed =>
    cases (lexemes t List.mem_cons_self).kind_eq_iff.1 kind with
    | number isNumber =>
      let literal : Literal := ⟨t.text, isNumber⟩
      have value : x = literal.value := Option.some.inj (parsed.symm.trans literal.parse?_text)
      exact ⟨.number literal t.offset, rfl, value ▸ rfl⟩
  | @var t slot kind found =>
    cases (lexemes t List.mem_cons_self).kind_eq_iff.1 kind with
    | identifier isIdentifier =>
      have place : slot = slotIn vs t.text := by
        rw [slotIn, found, Option.getD_some]
      exact ⟨.name ⟨t.text, isIdentifier⟩ t.offset, rfl, place ▸ rfl⟩
  | @binary t op left right first second spelled _ _ ihLeft ihRight =>
    obtain ⟨leftTree, rfl, rfl⟩ := ihLeft fun t member => lexemes t (by simp [member])
    obtain ⟨rightTree, rfl, rfl⟩ := ihRight fun t member => lexemes t (by simp [member])
    have token : t = ⟨op.text, t.offset⟩ := by
      rw [← spelled]
    refine ⟨.binary op t.offset leftTree rightTree, ?_, rfl⟩
    rw [Tree.postorder, ← token]

/-- The tokens that an expression is built from are the post-order of its tree. -/
theorem exists_tree_of_ofReversePolish (lexemes : ∀ t ∈ tokens, t.IsLexeme)
    (built : ofReversePolish tokens vs = .ok (some e)) :
    ∃ tree : Tree, tree.postorder = tokens ∧ e = tree.expr (slotIn vs) :=
  (ofReversePolish_eq_some_iff.1 built).exists_tree lexemes

end FormulaGrid.Expr
