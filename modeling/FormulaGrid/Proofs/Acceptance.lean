import FormulaGrid.Proofs.Building
import FormulaGrid.Proofs.Parentheses

/-! # What the parser accepts

The yard counts parentheses and the builder counts operands, but no stage looks at the order of
operands and operators in the formula itself.  A formula is derived by the grammar when its
parentheses match and operands and operators alternate.  The first the parser makes sure of, and the
second it takes on trust.
-/

namespace FormulaGrid

namespace Token

def Kind.beginsOperand : Kind → Bool
  | number | identifier | leftParen => true
  | operator | rightParen => false

/-- An operand begins wherever one is expected, and nowhere else: at first if `expected` says so,
and then behind an operator and behind an opening parenthesis. -/
def alternates (expected : Bool) : List Token → Bool
  | [] => !expected
  | t :: ts => t.kind.beginsOperand == expected && alternates (!t.kind.endsOperand) ts

/-- The parentheses match, where `opened` groups are open already. -/
def matched (opened : Nat) : List Token → Bool
  | [] => opened == 0
  | t :: ts =>
    match t.kind with
    | .leftParen => matched (opened + 1) ts
    | .rightParen => opened != 0 && matched (opened - 1) ts
    | .number | .identifier | .operator => matched opened ts

/-! ## Parentheses in the yard -/

variable {tokens order : List Token}

theorem kind_of_symbol? {t : Token} {s : Symbol} (symbol : t.symbol? = some s) :
    t.kind = kind ⟨s.text, t.offset⟩ :=
  kind_of_spelled (text_of_symbol? symbol)

/-- A token is counted as the parenthesis that it is, and must not close more than is open. -/
theorem matched_cons (opened : Nat) (t : Token) (tokens : List Token) :
    matched opened (t :: tokens) =
      (decide (closings [t] ≤ opened) && matched (opened + openings [t] - closings [t]) tokens) := by
  cases symbol : t.symbol? with
  | none =>
    rcases kind_of_operand symbol with kind | kind <;>
      simp [matched, kind, openings, closings, Yard.opensGroup, closesGroup, symbol]
  | some s =>
    have kind := kind_of_symbol? symbol
    rw [kind_symbol] at kind
    cases s with
    | leftParen =>
      simp [matched, kind, openings, closings, Yard.opensGroup, closesGroup, symbol]
    | binary op =>
      simp [matched, kind, openings, closings, Yard.opensGroup, closesGroup, symbol]
    | rightParen =>
      simp only [matched, kind, closings, openings, Yard.opensGroup, closesGroup, symbol,
        List.countP_singleton]
      cases opened <;> rfl

namespace Yard

/-- With the groups that wait, the parentheses of what is still to come match. -/
theorem matched_of_foldlM {y z : Yard} (run : tokens.foldlM accept y = .ok z)
    (closed : z.close = .ok order) : matched (openings y.waiting) tokens = true := by
  induction tokens generalizing y with
  | nil =>
    cases run
    have none : ¬ 0 < openings z.waiting := fun some => by
      rw [close_eq_error_iff.2 ⟨some, rfl⟩] at closed
      cases closed
    rw [matched, Nat.eq_zero_of_not_pos none]
    rfl
  | cons t tokens ih =>
    obtain ⟨next, accepted, run⟩ := exists_of_foldlM_cons run
    have count := (taken_of_accept accepted).openings_eq
    have one := openings_eq_zero_or t
    have left : openings next.waiting = openings y.waiting + openings [t] - closings [t] := by omega
    have possible : closings [t] ≤ openings y.waiting := by omega
    rw [matched_cons, ← left, ih run, decide_eq_true possible]
    rfl

end Yard

theorem matched_of_reversePolish (ordered : reversePolish tokens = .ok order) :
    matched 0 tokens = true := by
  obtain ⟨y, run, closed⟩ := exists_of_bind_eq_ok ordered
  exact Yard.matched_of_foldlM run closed

/-! ## Tokens inside and behind a group -/

theorem IsLexeme.text_rightParen {t : Token} (lexeme : t.IsLexeme)
    (closes : t.kind = .rightParen) : t.text = ")" := by
  cases lexeme.kind_eq_iff.1 closes with
  | rightParen spelled => exact spelled

/-- The first closing parenthesis that is one too many for what stands before it ends a group. -/
theorem exists_inner {opened inside : Nat}
    (balanced : matched (inside + 1 + opened) tokens = true) :
    ∃ inner closing rest, tokens = inner ++ closing :: rest ∧ closing.kind = .rightParen ∧
      matched inside inner = true ∧ matched opened rest = true := by
  induction tokens generalizing inside with
  | nil => simp [matched] at balanced
  | cons t tokens ih =>
    -- a token inside the group leaves some other number of groups to be closed before its end
    have onward : ∀ inside', (∀ ts, matched inside (t :: ts) = matched inside' ts) →
        matched (inside' + 1 + opened) tokens = true →
        ∃ inner closing rest, t :: tokens = inner ++ closing :: rest ∧
          closing.kind = .rightParen ∧ matched inside inner = true ∧
            matched opened rest = true := by
      intro inside' step later
      obtain ⟨inner, closing, rest, rfl, closes, within, behind⟩ := ih later
      exact ⟨t :: inner, closing, rest, rfl, closes, (step inner).trans within, behind⟩
    cases kind : t.kind with
    | leftParen =>
      have deeper : inside + 1 + opened + 1 = inside + 1 + 1 + opened := by omega
      simp only [matched, kind, deeper] at balanced
      exact onward (inside + 1) (fun ts => by simp [matched, kind]) balanced
    | rightParen =>
      simp only [matched, kind, Bool.and_eq_true] at balanced
      cases inside with
      | zero =>
        have closed : 0 + 1 + opened - 1 = opened := by omega
        exact ⟨[], t, tokens, rfl, kind, rfl, closed ▸ balanced.2⟩
      | succ inside =>
        have shallower : inside + 1 + 1 + opened - 1 = inside + 1 + opened := by omega
        exact onward inside (fun ts => by simp [matched, kind]) (shallower ▸ balanced.2)
    | _ =>
      simp only [matched, kind] at balanced
      exact onward inside (fun ts => by simp [matched, kind]) balanced

/-- A closing parenthesis ends an operand, and is one where none is expected. -/
theorem alternates_inner {expected : Bool} {inner rest : List Token} {closing : Token}
    (closes : closing.kind = .rightParen)
    (alternate : alternates expected (inner ++ closing :: rest) = true) :
    alternates expected inner = true ∧ alternates false rest = true := by
  induction inner generalizing expected with
  | nil =>
    rw [List.nil_append, alternates, closes] at alternate
    simpa [alternates, Kind.beginsOperand, Kind.endsOperand] using alternate
  | cons t inner ih =>
    simp only [List.cons_append, alternates, Bool.and_eq_true] at alternate ⊢
    obtain ⟨inside, behind⟩ := ih alternate.2
    exact ⟨⟨alternate.1, inside⟩, behind⟩

end Token

open Token (alternates matched spelling)

/-! ## Derivations alternate -/

mutual

theorem Phrase.alternates_tokens {strength : Nat} (offset : Nat) (following : List Token) :
    ∀ p : Phrase strength,
      alternates true (p.tokens offset ++ following) = alternates false following
  | .number n => by
    simp [Phrase.tokens, alternates, n.isNumber.kind_eq, Token.Kind.beginsOperand,
      Token.Kind.endsOperand]
  | .name i => by
    simp [Phrase.tokens, alternates, i.isIdentifier.kind_eq, Token.Kind.beginsOperand,
      Token.Kind.endsOperand]
  | .group inner => by
    have opens : Token.kind ⟨"(", offset⟩ = .leftParen := Token.kind_symbol .leftParen offset
    have closes : Token.kind ⟨")", offset + 1 + inner.width⟩ = .rightParen :=
      Token.kind_symbol .rightParen _
    have inside := inner.alternates_tokens (offset + 1)
      (⟨")", offset + 1 + inner.width⟩ :: following)
    simp [Phrase.tokens, alternates, opens, closes, inside, Token.Kind.beginsOperand,
      Token.Kind.endsOperand]
  | .row first rest => by
    rw [Phrase.tokens, List.append_assoc, first.alternates_tokens, rest.alternates_tokens]

theorem Rest.alternates_tokens {strength : Nat} (offset : Nat) (following : List Token) :
    ∀ r : Rest strength,
      alternates false (r.tokens offset ++ following) = alternates false following
  | .done => rfl
  | .more op _ operand rest => by
    have binary : Token.kind ⟨op.text, offset⟩ = .operator := Token.kind_symbol (.binary op) offset
    rw [Rest.tokens, List.cons_append, List.append_assoc]
    simp [alternates, binary, operand.alternates_tokens, rest.alternates_tokens,
      Token.Kind.beginsOperand, Token.Kind.endsOperand]

end

/-! ## What alternates is derived -/

/-- An operand can be put in front of a sum.  If the operator between them is one of a product, the
operand joins the first product of the sum. -/
theorem Phrase.exists_prepend (a : Phrase 3) (op : Operator) (p : Phrase 1) :
    ∃ q : Phrase 1, q.text = a.text ++ op.text ++ p.text := by
  have level : op.precedence = 1 ∨ op.precedence = 2 := by cases op <;> decide
  cases p with
  | row first rest =>
    rcases level with level | level
    · refine ⟨.row (.row a .done) (.more op level first rest), ?_⟩
      simp [Phrase.text, Rest.text, String.append_assoc]
    · cases first with
      | row atom product =>
        refine ⟨.row (.row a (.more op level atom product)) rest, ?_⟩
        simp [Phrase.text, Rest.text, String.append_assoc]

/-- What is balanced and alternates begins with a number, a name or a group. -/
theorem exists_operand {tokens : List Token} (lexemes : ∀ t ∈ tokens, t.IsLexeme)
    (alternate : alternates true tokens = true) (balanced : matched 0 tokens = true) :
    ∃ rest, alternates false rest = true ∧ matched 0 rest = true ∧
      ((∃ t, ∃ a : Phrase 3, tokens = t :: rest ∧ a.text = t.text) ∨
        ∃ opening inner closing, tokens = opening :: (inner ++ closing :: rest) ∧
          opening.text = "(" ∧ closing.text = ")" ∧
          alternates true inner = true ∧ matched 0 inner = true) := by
  cases tokens with
  | nil => cases alternate
  | cons t rest =>
    have ofKind := (lexemes t List.mem_cons_self).kind_eq_iff.1 rfl
    simp only [alternates, matched, Bool.and_eq_true] at alternate balanced
    generalize t.kind = kind at ofKind alternate balanced
    cases ofKind with
    | number isNumber =>
      exact ⟨rest, alternate.2, balanced, .inl ⟨t, .number ⟨t.text, isNumber⟩, rfl, rfl⟩⟩
    | identifier isIdentifier =>
      exact ⟨rest, alternate.2, balanced, .inl ⟨t, .name ⟨t.text, isIdentifier⟩, rfl, rfl⟩⟩
    | operator op spelled => cases alternate.1
    | rightParen spelled => cases balanced
    | leftParen spelled =>
      obtain ⟨inner, closing, rest, rfl, closes, within, behind⟩ :=
        Token.exists_inner (show matched (0 + 1 + 0) rest = true from balanced)
      obtain ⟨alternate₁, alternate₂⟩ := Token.alternates_inner closes alternate.2
      have lexeme := lexemes closing (by simp)
      exact ⟨rest, alternate₂, behind, .inr ⟨t, inner, closing, rfl, spelled,
        lexeme.text_rightParen closes, alternate₁, within⟩⟩

/-- Behind an operand there is nothing, or an operator and what is derived. -/
theorem Phrase.exists_row (a : Phrase 3) {rest : List Token} (lexemes : ∀ t ∈ rest, t.IsLexeme)
    (alternate : alternates false rest = true) (balanced : matched 0 rest = true)
    (derived : ∀ t ts, rest = t :: ts → alternates true ts = true → matched 0 ts = true →
      ∃ p : Phrase 1, p.text.toList = spelling ts) :
    ∃ p : Phrase 1, p.text.toList = a.text.toList ++ spelling rest := by
  cases rest with
  | nil =>
    refine ⟨.row (.row a .done) .done, ?_⟩
    simp [Phrase.text, Rest.text]
  | cons t ts =>
    have ofKind := (lexemes t List.mem_cons_self).kind_eq_iff.1 rfl
    simp only [alternates, matched, Bool.and_eq_true] at alternate balanced
    generalize t.kind = kind at ofKind alternate balanced
    cases ofKind with
    | number isNumber => cases alternate.1
    | identifier isIdentifier => cases alternate.1
    | leftParen spelled => cases alternate.1
    | rightParen spelled => cases balanced
    | operator op spelled =>
      obtain ⟨p, text⟩ := derived t ts rfl alternate.2 balanced
      obtain ⟨q, joined⟩ := a.exists_prepend op p
      refine ⟨q, ?_⟩
      rw [joined, Token.spelling_cons, spelled, ← text]
      simp [String.toList_append]

/-- Lexemes whose parentheses match and that alternate spell what is derived. -/
theorem exists_phrase {tokens : List Token} (lexemes : ∀ t ∈ tokens, t.IsLexeme)
    (alternate : alternates true tokens = true) (balanced : matched 0 tokens = true) :
    ∃ p : Phrase 1, p.text.toList = spelling tokens := by
  -- the inside of a group is shorter, and so is what stands behind an operator
  induction len : tokens.length using Nat.strong_induction_on generalizing tokens with
  | _ n ih =>
    subst len
    obtain ⟨rest, alternate', balanced', first⟩ := exists_operand lexemes alternate balanced
    have whole : ∀ a : Phrase 3, rest.length < tokens.length → (∀ t ∈ rest, t.IsLexeme) →
        ∃ p : Phrase 1, p.text.toList = a.text.toList ++ spelling rest := by
      intro a shorter lexemes'
      apply a.exists_row lexemes' alternate' balanced'
      rintro t ts rfl alternate balanced
      rw [List.length_cons] at shorter
      exact ih ts.length (by omega) (List.forall_mem_cons.1 lexemes').2 alternate balanced rfl
    rcases first with ⟨t, a, rfl, text⟩ | ⟨opening, inner, closing, rfl, opens, closes, within⟩
    · obtain ⟨q, joined⟩ := whole a (by simp) (List.forall_mem_cons.1 lexemes).2
      exact ⟨q, by rw [joined, text, Token.spelling_cons]⟩
    · have inside : ∀ t ∈ inner, t.IsLexeme := fun t member => lexemes t (by simp [member])
      have behind : ∀ t ∈ rest, t.IsLexeme := fun t member => lexemes t (by simp [member])
      have count : (opening :: (inner ++ closing :: rest)).length =
          inner.length + rest.length + 2 := by
        simp only [List.length_cons, List.length_append]
        omega
      obtain ⟨p, text⟩ := ih inner.length (by omega) inside within.1 within.2 rfl
      obtain ⟨q, joined⟩ := whole (.group p) (by omega) behind
      refine ⟨q, ?_⟩
      rw [joined, Phrase.text]
      simp [String.toList_append, text, opens, closes]

namespace Formula

/-- A formula that the parser accepts with an expression, held against the grammar.  Its tokens
spell it, its parentheses match, and the expression has every operand as a leaf, in the order of the
formula, and every operator as a node with two operands.  The grammar derives it if and only if
operands and operators alternate in it. -/
theorem grammar_verdict {text : String} {f : Formula} (parsed : parse text = .ok f) {e : Expr}
    (root : f.root = some e) :
    ((∃ p : Phrase 1, p.text = text) ↔ alternates true f.tokens = true) ∧
      spelling f.tokens = text.toList ∧ matched 0 f.tokens = true ∧
      ∃ t : Tree, e = t.expr (Expr.slotIn f.vars) ∧
        t.postorder.filter Token.isOperand = f.tokens.filter Token.isOperand ∧
        t.postorder.Perm (f.tokens.filter fun t => !t.isParenthesis) := by
  obtain ⟨scanned, ordered, built, -, -⟩ := parse_eq_ok_iff.1 parsed
  obtain ⟨spelled, lexemes⟩ := Token.scan_sound scanned
  have balanced := Token.matched_of_reversePolish ordered
  have perm := Token.reversePolish_perm ordered
  have lexemes' : ∀ t ∈ f.reversePolish, t.IsLexeme := fun t member =>
    lexemes t (List.mem_filter.1 (perm.subset member)).1
  rw [root] at built
  obtain ⟨t, postorder, expr⟩ := Expr.exists_tree_of_ofReversePolish lexemes' built
  refine ⟨?_, spelled, balanced, t, expr, ?_, ?_⟩
  · constructor
    · rintro ⟨p, rfl⟩
      have tokens := p.scan_text
      rw [scanned] at tokens
      have alternate := p.alternates_tokens 0 []
      rw [List.append_nil, ← Except.ok.inj tokens] at alternate
      exact alternate
    · intro alternate
      obtain ⟨p, derived⟩ := exists_phrase lexemes alternate balanced
      exact ⟨p, String.toList_inj.1 (derived.trans spelled)⟩
  · rw [postorder, Token.filter_reversePolish ordered]
  · rw [postorder]
    exact perm

theorem exists_of_isSome {text : String}
    (rooted : ((parse text).toOption.bind Formula.root).isSome = true) :
    ∃ f e, parse text = .ok f ∧ f.root = some e := by
  cases parsed : parse text with
  | error fault =>
    rw [parsed] at rooted
    cases rooted
  | ok f =>
    rw [parsed] at rooted
    obtain ⟨e, root⟩ := Option.isSome_iff_exists.1 rooted
    exact ⟨f, e, rfl, root⟩

/-- A product with a group is derived, as its tokens alternate. -/
theorem grammar_verdict_group : ∃ p : Phrase 1, p.text = "A1*(B1-C1)" := by
  have alternate : (Token.scan "A1*(B1-C1)").toOption.any (alternates true) = true := by
    decide +kernel
  obtain ⟨f, e, parsed, root⟩ := exists_of_isSome
    (show ((parse "A1*(B1-C1)").toOption.bind Formula.root).isSome = true by decide +kernel)
  obtain ⟨derivable, -⟩ := @grammar_verdict "A1*(B1-C1)" f parsed e root
  rw [(parse_eq_ok_iff.1 parsed).1] at alternate
  exact derivable.2 alternate

/-- The parser takes operands that stand side by side, if operators for them come later.  The
grammar derives no such formula. -/
theorem juxtaposition_accepted :
    (∃ f e, parse "A1B+" = .ok f ∧ f.root = some e) ∧ ¬ ∃ p : Phrase 1, p.text = "A1B+" := by
  constructor
  · apply exists_of_isSome
    decide +kernel
  · rintro ⟨p, text⟩
    have alternate := p.alternates_tokens 0 []
    have juxtaposed : (Token.scan "A1B+").toOption.any (alternates true) = false := by
      decide +kernel
    rw [← text, p.scan_text] at juxtaposed
    rw [List.append_nil] at alternate
    exact Bool.false_ne_true (juxtaposed.symm.trans alternate)

end Formula

end FormulaGrid
