import FormulaGrid.Proofs.Evaluation
import FormulaGrid.Proofs.Grammar
import FormulaGrid.Proofs.Yard

namespace FormulaGrid

open Token (Ends ends_nil ends_symbol scanFrom)
open Token.Yard (Ordered)

/-! ## Scanning -/

/-- A repetition is empty or begins with an operator. -/
theorem Rest.ends_append {strength : Nat} {following : List Char} (ends : Ends following)
    (r : Rest strength) : Ends (r.text.toList ++ following) := by
  cases r with
  | done => exact ends
  | more op level operand rest =>
    rw [Rest.text, String.toList_append, String.toList_append, Operator.toList_text]
    exact ends_symbol (.binary op) _

mutual

theorem Phrase.scanFrom_text {strength : Nat} {following : List Char} (ends : Ends following)
    (offset : Nat) (done : List Token) :
    ∀ p : Phrase strength, scanFrom true offset done (p.text.toList ++ following) =
      scanFrom false (offset + p.width) ((p.tokens offset).reverse ++ done) following
  | .number n => Token.scanFrom_number n.isNumber ends
  | .name i => Token.scanFrom_name i.isIdentifier ends
  | .group inner => by
    have spelled : (Phrase.group inner).text.toList ++ following =
        '(' :: (inner.text.toList ++ ')' :: following) := by
      rw [Phrase.text, String.toList_append, String.toList_append]
      simp
    have width : offset + (Phrase.group inner).width = offset + 1 + inner.width + 1 := by
      rw [Phrase.width, Phrase.text, String.utf8ByteSize_append, String.utf8ByteSize_append]
      change offset + (1 + inner.width + 1) = _
      omega
    have closing : Ends (')' :: following) := ends_symbol .rightParen following
    rw [spelled, Token.scanFrom_leftParen, inner.scanFrom_text closing, Token.scanFrom_rightParen,
      width, Phrase.tokens]
    simp
  | .row first rest => by
    have width : offset + (Phrase.row first rest).width = offset + first.width + rest.width := by
      rw [Phrase.width, Phrase.text, String.utf8ByteSize_append, Nat.add_assoc]
      rfl
    rw [Phrase.text, String.toList_append, List.append_assoc,
      first.scanFrom_text (rest.ends_append ends), rest.scanFrom_text ends, width, Phrase.tokens,
      List.reverse_append, List.append_assoc]

theorem Rest.scanFrom_text {strength : Nat} {following : List Char} (ends : Ends following)
    (offset : Nat) (done : List Token) :
    ∀ r : Rest strength, scanFrom false offset done (r.text.toList ++ following) =
      scanFrom false (offset + r.width) ((r.tokens offset).reverse ++ done) following
  | .done => rfl
  | .more op level operand rest => by
    have spelled : (Rest.more op level operand rest).text.toList ++ following =
        op.char :: (operand.text.toList ++ (rest.text.toList ++ following)) := by
      rw [Rest.text, String.toList_append, String.toList_append, Operator.toList_text]
      simp
    have width : offset + (Rest.more op level operand rest).width =
        offset + 1 + operand.width + rest.width := by
      rw [Rest.width, Rest.text, String.utf8ByteSize_append, String.utf8ByteSize_append,
        Operator.utf8ByteSize_text, Phrase.width, Rest.width]
      omega
    rw [spelled, Token.scanFrom_operator, operand.scanFrom_text (rest.ends_append ends),
      rest.scanFrom_text ends, width, Rest.tokens]
    simp

end

theorem Phrase.scan_text {strength : Nat} (p : Phrase strength) :
    Token.scan p.text = .ok (p.tokens 0) := by
  have scanned := p.scanFrom_text ends_nil 0 []
  rw [List.append_nil, List.append_nil] at scanned
  rw [Token.scan, scanned, scanFrom, List.reverse_reverse]

/-! ## Reverse Polish order -/

mutual

theorem Phrase.ordered {strength : Nat} (offset : Nat) :
    ∀ p : Phrase strength, Ordered strength (p.tokens offset) (p.tree offset).postorder
  | .number n => .operand (n.isNumber.symbol?_eq offset) 3
  | .name i => .operand (i.isIdentifier.symbol?_eq offset) 3
  | .group inner =>
    .group (Token.symbol?_symbol .leftParen _) (Token.symbol?_symbol .rightParen _)
      (inner.ordered (offset + 1)) 3
  | .row first rest => rest.ordered _ (first.ordered offset).weaken

/-- What is ordered before a repetition stays ordered with it. -/
theorem Rest.ordered {strength : Nat} (offset : Nat) {tokens : List Token} {left : Tree}
    (before : Ordered strength tokens left.postorder) :
    ∀ r : Rest strength,
      Ordered strength (tokens ++ r.tokens offset) (r.tree offset left).postorder
  | .done => by
    rw [Rest.tokens, List.append_nil]
    exact before
  | .more op level operand rest => by
    -- with the next operand, what stands before the rest is a tree of the same strength again
    have next : Ordered strength (tokens ++ ⟨op.text, offset⟩ :: operand.tokens (offset + 1))
        (Tree.binary op offset left (operand.tree (offset + 1))).postorder :=
      before.more level (Token.symbol?_symbol (.binary op) offset) (operand.ordered (offset + 1))
    have whole := rest.ordered (offset + 1 + operand.width) next
    rw [List.append_assoc] at whole
    exact whole

end

theorem Phrase.reversePolish_tokens (p : Phrase 1) :
    Token.reversePolish (p.tokens 0) = .ok (p.tree 0).postorder :=
  Token.Yard.reversePolish_of_ordered (p.ordered 0)

/-! ## Names -/

theorem namesOf_symbol (s : Symbol) (offset : Nat) (tokens : List Token) :
    Formula.namesOf (⟨s.text, offset⟩ :: tokens) = Formula.namesOf tokens := by
  have other : (Token.kind ⟨s.text, offset⟩ == .identifier) = false := by
    rw [Token.kind_symbol]
    cases s <;> rfl
  rw [Formula.namesOf, List.filter_cons, other]
  rfl

mutual

theorem Phrase.namesOf_tokens {strength : Nat} (offset : Nat) :
    ∀ p : Phrase strength, Formula.namesOf (p.tokens offset) = p.names
  | .number n => by
    simp [Formula.namesOf, Phrase.tokens, Phrase.names, n.isNumber.kind_eq]
  | .name i => by
    simp [Formula.namesOf, Phrase.tokens, Phrase.names, i.isIdentifier.kind_eq]
  | .group inner => by
    have opened := namesOf_symbol .leftParen offset
      (inner.tokens (offset + 1) ++ [⟨")", offset + 1 + inner.width⟩])
    have closed := namesOf_symbol .rightParen (offset + 1 + inner.width) []
    refine opened.trans ?_
    rw [Formula.namesOf_append, inner.namesOf_tokens]
    exact (congrArg _ closed).trans (List.append_nil _)
  | .row first rest => by
    rw [Phrase.tokens, Formula.namesOf_append, first.namesOf_tokens, rest.namesOf_tokens, Phrase.names]

theorem Rest.namesOf_tokens {strength : Nat} (offset : Nat) :
    ∀ r : Rest strength, Formula.namesOf (r.tokens offset) = r.names
  | .done => rfl
  | .more op _ operand rest => by
    refine (namesOf_symbol (.binary op) offset _).trans ?_
    rw [Formula.namesOf_append, operand.namesOf_tokens, rest.namesOf_tokens, Rest.names]

end

/-! ## Building the expression -/

/-- The post-order of a tree lists its expression. -/
theorem Tree.listed {vs : Variables} {slot : String → Nat} (t : Tree)
    (known : ∀ name ∈ t.names, vs.slot? name = some (slot name)) :
    Expr.Listed vs (t.expr slot) t.postorder := by
  induction t with
  | number n offset => exact .const (n.isNumber.kind_eq offset) n.parse?_text
  | name i offset =>
    exact @Expr.Listed.var vs ⟨i.text, offset⟩ _ (i.isIdentifier.kind_eq offset)
      (known i.text List.mem_cons_self)
  | binary op offset left right ihLeft ihRight =>
    obtain ⟨knownLeft, knownRight⟩ := List.forall_mem_append.1 known
    exact .binary rfl (ihLeft knownLeft) (ihRight knownRight)

theorem Tree.ofReversePolish_postorder {vs : Variables} {slot : String → Nat} (t : Tree)
    (known : ∀ name ∈ t.names, vs.slot? name = some (slot name)) :
    Expr.ofReversePolish t.postorder vs = .ok (some (t.expr slot)) :=
  Expr.ofReversePolish_eq_some_iff.2 (t.listed known)

/-! ## Values -/

mutual

theorem Phrase.valueAt_tree {strength : Nat} (slot : String → Nat) (offset : Nat) :
    ∀ p : Phrase strength, ((p.tree offset).expr slot).valueAt (fun _ => 0) = p.value
  | .number _ => rfl
  | .name _ => rfl
  | .group inner => inner.valueAt_tree slot (offset + 1)
  | .row first rest => by
    rw [Phrase.tree, rest.valueAt_tree, first.valueAt_tree, Phrase.value]

theorem Rest.valueAt_tree {strength : Nat} (slot : String → Nat) (offset : Nat) (left : Tree) :
    ∀ r : Rest strength, ((r.tree offset left).expr slot).valueAt (fun _ => 0) =
      r.value ((left.expr slot).valueAt fun _ => 0)
  | .done => rfl
  | .more op _ operand rest => by
    rw [Rest.tree, rest.valueAt_tree, Tree.expr, Expr.valueAt, operand.valueAt_tree, Rest.value]

end

/-- Before any variable is set, every name is worth zero. -/
theorem Variables.number_ofNames {names : List String} {name : String} {slot : Nat}
    (found : (ofNames names).slot? name = some slot) : (ofNames names).number slot = .ok 0 := by
  have member := mem_names_ofNames.1 (mem_names_of_slot? found)
  rw [number_of_slot? found (get?_ofNames member), parse?_zero]

/-! ## All stages -/

/-- Every sum of the grammar is parsed.  Its expression is that of the tree of the derivation, its
tokens in reverse Polish order are the post-order of that tree, its variables are its names in order
of first appearance, and its value is that of the derivation. -/
theorem parse_text (p : Phrase 1) :
    ∃ f, Formula.parse p.text = .ok f ∧
      f.root = some ((p.tree 0).expr p.slot) ∧
      f.vars.names = p.names.eraseDups ∧
      f.reversePolish = (p.tree 0).postorder ∧
      Formula.valueOf p.text = .ok p.value := by
  have names : (Variables.ofNames p.names).names = p.names.eraseDups := Variables.names_ofNames _
  have known : ∀ name ∈ (p.tree 0).names,
      (Variables.ofNames p.names).slot? name = some (p.slot name) := by
    intro name member
    rw [p.names_tree] at member
    rw [Variables.slot?_eq_idxOf (Variables.mem_names_ofNames.2 member), names, Phrase.slot]
  have built := (p.tree 0).ofReversePolish_postorder known
  have parsed : Formula.parse p.text = .ok ⟨p.text, p.tokens 0, (p.tree 0).postorder,
      Variables.ofNames p.names, some ((p.tree 0).expr p.slot)⟩ := by
    rw [Formula.parse_eq_ok_iff]
    refine ⟨p.scan_text, p.reversePolish_tokens, built, ?_, rfl⟩
    rw [p.namesOf_tokens]
  refine ⟨_, parsed, rfl, names, rfl, ?_⟩
  have zero : ∀ name slot, (Variables.ofNames p.names).slot? name = some slot →
      (Variables.ofNames p.names).number slot = .ok ((fun _ => 0) name) :=
    fun _ _ found => Variables.number_ofNames found
  have evaluated := Expr.evaluate_of_bound zero (Expr.bound_ofReversePolish built)
  rw [p.valueAt_tree] at evaluated
  rw [Formula.valueOf, parsed]
  exact evaluated

end FormulaGrid
