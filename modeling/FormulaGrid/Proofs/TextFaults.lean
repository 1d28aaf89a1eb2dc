import FormulaGrid.Proofs.Parentheses
import FormulaGrid.Proofs.Scanning

namespace FormulaGrid

/-! ## Kinds of faults -/

inductive Fault.OfText : Fault → Prop
  | unsupportedToken (fragment : String) : OfText (.unsupportedToken fragment)
  | unmatchedParenthesis : OfText .unmatchedParenthesis
  | unbalancedExpression : OfText .unbalancedExpression
  | insufficientOperands (symbol : String) : OfText (.insufficientOperands symbol)
  | unsupportedOperator (symbol : String) : OfText (.unsupportedOperator symbol)
  | unknownVariable (name : String) : OfText (.unknownVariable name)
  | emptyExpression : OfText .emptyExpression

/-- The faults that a formula can be refused with: no lexeme begins where the scanner is, parentheses
do not match, operands are left, or one of the four operators misses some. -/
inductive Fault.OfFormula (formula : String) : Fault → Prop
  | unsupportedToken {fragment : String}
    (scanned : Token.scan formula = .error (.unsupportedToken fragment)) :
    OfFormula formula (.unsupportedToken fragment)
  | unmatchedParenthesis : OfFormula formula .unmatchedParenthesis
  | unbalancedExpression : OfFormula formula .unbalancedExpression
  | insufficientOperands (op : Operator) : OfFormula formula (.insufficientOperands op.text)

inductive Fault.OfCascade : Fault → Prop
  | circularReference (cell : Address) : OfCascade (.circularReference cell)
  | cascadeTooDeep (limit : Nat) : OfCascade (.cascadeTooDeep limit)

theorem Fault.OfFormula.ofText {formula : String} {fault : Fault} (refused : fault.OfFormula formula) :
    fault.OfText := by
  cases refused with
  | unsupportedToken _ => exact .unsupportedToken _
  | unmatchedParenthesis => exact .unmatchedParenthesis
  | unbalancedExpression => exact .unbalancedExpression
  | insufficientOperands op => exact .insufficientOperands op.text

theorem Fault.OfText.not_ofCascade {fault : Fault} (ofText : fault.OfText) : ¬ fault.OfCascade := by
  intro ofCascade
  cases ofCascade <;> cases ofText

/-! ## Stage by stage -/

theorem Token.scanFrom_error {operandExpected : Bool} {offset : Nat} {done : List Token}
    {cs : List Char} {fault : Fault}
    (failed : scanFrom operandExpected offset done cs = .error fault) :
    ∃ fragment, fault = .unsupportedToken fragment := by
  induction operandExpected, offset, done, cs using scanFrom.induct with
  | case1 operandExpected offset done =>
    rw [scanFrom] at failed
    cases failed
  | case2 operandExpected offset done c cs none =>
    rw [scanFrom, none] at failed
    cases failed
    exact ⟨_, rfl⟩
  | case3 operandExpected offset done c cs n some token ih =>
    rw [scanFrom, some] at failed
    exact ih failed

theorem Token.reversePolish_error {tokens : List Token} {fault : Fault}
    (failed : reversePolish tokens = .error fault) :
    fault = .unmatchedParenthesis ∨ fault = .unbalancedExpression :=
  (reversePolish_eq_error_iff.1 failed).imp And.left And.left

/-- A number that is cut out can be read. -/
theorem Token.IsLexeme.exists_parse {t : Token} (lexeme : t.IsLexeme) (kind : t.kind = .number) :
    ∃ x, Number.parse? t.text = some x := by
  cases lexeme.kind_eq_iff.1 kind with
  | number isNumber => exact isNumber.exists_parse

/-- A symbol that is no parenthesis is an operator. -/
theorem Token.exists_operator {t : Token} {s : Symbol} (spelled : t.text = s.text)
    (plain : t.isParenthesis = false) : ∃ op : Operator, s = .binary op := by
  have symbol : t.symbol? = some s := symbol?_of_text spelled
  cases s with
  | leftParen => simp [isParenthesis, symbol] at plain
  | rightParen => simp [isParenthesis, symbol] at plain
  | binary op => exact ⟨op, rfl⟩

/-- Lexemes are refused for missing operands only, if no parenthesis is among them and the table has
their names. -/
theorem Expr.exists_operator_of_push {vs : Variables} {stack : List Expr} {t : Token} {fault : Fault}
    (lexeme : t.IsLexeme) (plain : t.isParenthesis = false)
    (known : t.kind = .identifier → t.text ∈ vs.names) (failed : push vs stack t = .error fault) :
    ∃ op : Operator, fault = .insufficientOperands op.text := by
  -- of the four reasons to refuse a token, the other three never arise
  cases refused_of_push failed with
  | number kind strange =>
    obtain ⟨x, parsed⟩ := lexeme.exists_parse kind
    rw [strange] at parsed
    cases parsed
  | name kind unknown => exact absurd (known kind) (Variables.slot?_eq_none_iff.1 unknown)
  | operands s spelled few =>
    obtain ⟨op, rfl⟩ := Token.exists_operator spelled plain
    exact ⟨op, congrArg _ spelled⟩
  | parenthesis s spelled other enough =>
    obtain ⟨op, rfl⟩ := Token.exists_operator spelled plain
    exact absurd rfl (other op)

theorem Expr.ofReversePolish_error {vs : Variables} {tokens : List Token} {fault : Fault}
    (lexemes : ∀ t ∈ tokens, t.IsLexeme) (plain : ∀ t ∈ tokens, t.isParenthesis = false)
    (known : ∀ t ∈ tokens, t.kind = .identifier → t.text ∈ vs.names)
    (failed : ofReversePolish tokens vs = .error fault) :
    fault = .unbalancedExpression ∨ ∃ op : Operator, fault = .insufficientOperands op.text := by
  rcases error_of_bind_eq_error failed with run | ⟨stack, -, left⟩
  · obtain ⟨front, t, back, stack, rfl, -, refused⟩ := foldlM_eq_error_iff.1 run
    have member : t ∈ front ++ t :: back := List.mem_append_right front List.mem_cons_self
    exact .inr (exists_operator_of_push (lexemes t member) (plain t member) (known t member) refused)
  · simp only [single] at left
    split at left
    · cases left
    · cases left
    · cases left
      exact .inl rfl

/-! ## Formulas and texts -/

theorem Formula.mem_namesOf {tokens : List Token} {t : Token} (member : t ∈ tokens)
    (kind : t.kind = .identifier) : t.text ∈ namesOf tokens :=
  List.mem_map_of_mem (List.mem_filter.2 ⟨member, beq_iff_eq.2 kind⟩)

theorem Formula.ofFormula_of_parse {text : String} {fault : Fault}
    (failed : parse text = .error fault) : fault.OfFormula text := by
  rcases stage_of_parse_eq_error failed with scanned | ⟨tokens, scanned, later⟩
  · obtain ⟨fragment, rfl⟩ := Token.scanFrom_error scanned
    exact .unsupportedToken scanned
  rcases later with unordered | ⟨order, ordered, unbuilt⟩
  · rcases Token.reversePolish_error unordered with rfl | rfl
    · exact .unmatchedParenthesis
    · exact .unbalancedExpression
  have kept {t : Token} (member : t ∈ order) := Token.mem_of_reversePolish ordered member
  have lexemes := (Token.scan_sound scanned).2
  have known : ∀ t ∈ order, t.kind = .identifier →
      t.text ∈ (Variables.ofNames (namesOf tokens)).names := by
    intro t member kind
    exact Variables.mem_names_ofNames.2 (mem_namesOf (kept member).1 kind)
  rcases Expr.ofReversePolish_error (fun t member => lexemes t (kept member).1)
    (fun t member => (kept member).2) known unbuilt with rfl | ⟨op, rfl⟩
  · exact .unbalancedExpression
  · exact .insufficientOperands op

/-- A text fails because it is an empty formula, or because it is a formula that fails. -/
theorem Content.failure?_eq_some {text : String} {fault : Fault} (failed : failure? text = some fault) :
    fault = .emptyExpression ∨ ∃ body, text = "=" ++ body ∧ Formula.parse body = .error fault := by
  rcases read_cases text with plain | ⟨body, rfl, formula⟩
  · rw [failure?, plain] at failed
    cases failed
  · rw [failure?, formula] at failed
    cases parsed : Formula.parse body with
    | error own =>
      rw [parsed] at failed
      cases failed
      exact .inr ⟨body, rfl, parsed⟩
    | ok f =>
      rw [parsed] at failed
      simp only [Except.map] at failed
      split at failed
      · cases failed
      · cases failed
        exact .inl rfl

theorem Content.ofText_of_failure? {text : String} {fault : Fault}
    (failed : failure? text = some fault) : fault.OfText := by
  rcases failure?_eq_some failed with rfl | ⟨body, -, unparsed⟩
  · exact .emptyExpression
  · exact (Formula.ofFormula_of_parse unparsed).ofText

end FormulaGrid
