import FormulaGrid.Proofs.TextFaults

/-! # The leftmost token at fault

The builder stops at the first token that it cannot take, and which one that is can be told by
counting.  An operand adds an expression to the stack and an operator takes one away, so up to the
first token at fault the stack has as many expressions as there are operands more than operators and
parentheses.
-/

namespace FormulaGrid

def Token.Scanned (t : Token) : Prop :=
  ∃ formula tokens, scan formula = .ok tokens ∧ t ∈ tokens

theorem Token.Scanned.isLexeme {t : Token} (scanned : t.Scanned) : t.IsLexeme := by
  obtain ⟨formula, tokens, scan, member⟩ := scanned
  exact (scan_sound scan).2 t member

namespace Expr

variable {vs : Variables} {t : Token} {tokens : List Token} {stack stack' : List Expr}
  {fault : Fault}

/-! ## Counting -/

/-- The operands among tokens less the operators and parentheses. -/
def balance (tokens : List Token) : Int :=
  (tokens.countP Token.isOperand : Int) - tokens.countP fun t => !t.isOperand

theorem balance_append (front back : List Token) :
    balance (front ++ back) = balance front + balance back := by
  simp only [balance, List.countP_append]
  omega

theorem balance_operand (operand : t.isOperand) : balance [t] = 1 := by
  simp [balance, operand]

theorem balance_symbol {s : Symbol} (symbol : t.symbol? = some s) : balance [t] = -1 := by
  simp [balance, Token.isOperand_of_symbol? symbol]

/-- The stack grows by what the token adds to the balance. -/
theorem Pushed.length_eq (pushed : Pushed vs t stack stack') :
    (stack'.length : Int) = stack.length + balance [t] := by
  cases pushed with
  | number kind parsed =>
    rw [balance_operand (Token.isOperand_iff.2 (.inl kind)), List.length_cons]
    omega
  | name kind found =>
    rw [balance_operand (Token.isOperand_iff.2 (.inr kind)), List.length_cons]
    omega
  | @operator op left right rest spelled =>
    rw [balance_symbol (Token.symbol?_of_text (s := .binary op) spelled)]
    simp only [List.length_cons]
    omega

theorem length_of_foldlM (run : tokens.foldlM (push vs) [] = .ok stack) :
    (stack.length : Int) = balance tokens := by
  have step : ∀ (taken : List Token) (t : Token) (stack next : List Expr),
      (stack.length : Int) = balance taken → push vs stack t = .ok next →
        (next.length : Int) = balance (taken ++ [t]) := by
    intro taken t stack next counted pushed
    rw [(push_eq_ok_iff.1 pushed).length_eq, counted, balance_append]
  rw [← List.nil_append tokens]
  exact foldlM_keeps step rfl run

/-! ## Faults -/

/-- What is wrong with a token that stands behind tokens of the given balance.  A name may be unknown,
an operator or a parenthesis may have too few expressions before it, and a parenthesis is no operator
even if it has enough of them. -/
def faultBehind? (vs : Variables) (before : Int) (t : Token) : Option Fault :=
  match t.kind with
  | .number => none
  | .identifier => if t.text ∈ vs.names then none else some (.unknownVariable t.text)
  | .operator => if before < 2 then some (.insufficientOperands t.text) else none
  | .leftParen | .rightParen =>
    if before < 2 then some (.insufficientOperands t.text) else some (.unsupportedOperator t.text)

def Faultless (vs : Variables) (tokens : List Token) : Prop :=
  ∀ front t back, tokens = front ++ t :: back → faultBehind? vs (balance front) t = none

theorem Pushed.faultBehind?_eq_none (pushed : Pushed vs t stack stack') :
    faultBehind? vs stack.length t = none := by
  cases pushed with
  | number kind parsed => simp only [faultBehind?, kind]
  | name kind found => simp only [faultBehind?, kind, if_pos (Variables.mem_names_of_slot? found)]
  | operator spelled =>
    simp only [faultBehind?, Token.kind_of_operator spelled, List.length_cons]
    exact if_neg (by omega)

theorem Refused.faultBehind?_eq_some (refused : Refused vs t stack fault) (lexeme : t.IsLexeme) :
    faultBehind? vs stack.length t = some fault := by
  cases refused with
  | number kind strange =>
    obtain ⟨x, parsed⟩ := lexeme.exists_parse kind
    rw [strange] at parsed
    cases parsed
  | name kind unknown =>
    simp only [faultBehind?, kind, if_neg (Variables.slot?_eq_none_iff.1 unknown)]
  | operands s spelled few =>
    have few : (stack.length : Int) < 2 := by omega
    rw [faultBehind?, Token.kind_of_spelled spelled, Token.kind_symbol]
    cases s <;> simp only [few, if_true]
  | parenthesis s spelled other enough =>
    have enough : ¬ (stack.length : Int) < 2 := by omega
    rw [faultBehind?, Token.kind_of_spelled spelled, Token.kind_symbol]
    cases s with
    | binary op => exact absurd rfl (other op)
    | leftParen => simp only [enough, if_false]
    | rightParen => simp only [enough, if_false]

theorem push_eq_error_iff (lexeme : t.IsLexeme) :
    push vs stack t = .error fault ↔ faultBehind? vs stack.length t = some fault := by
  cases result : push vs stack t with
  | ok next => simp [(push_eq_ok_iff.1 result).faultBehind?_eq_none]
  | error fault' => simp [(refused_of_push result).faultBehind?_eq_some lexeme]

/-! ## From the left -/

/-- None is at fault if and only if all are taken. -/
theorem faultless_iff (lexemes : ∀ t ∈ tokens, t.IsLexeme) :
    Faultless vs tokens ↔ ∃ stack, tokens.foldlM (push vs) [] = .ok stack := by
  constructor
  · intro faultless
    cases run : tokens.foldlM (push vs) [] with
    | ok stack => exact ⟨stack, rfl⟩
    | error fault =>
      obtain ⟨front, t, back, stack, rfl, run, failed⟩ := foldlM_eq_error_iff.1 run
      have wrong := (push_eq_error_iff (lexemes t (by simp))).1 failed
      rw [length_of_foldlM run, faultless front t back rfl] at wrong
      cases wrong
  · rintro ⟨stack, run⟩ front t back rfl
    obtain ⟨stack₁, run₁, run₂⟩ := exists_of_foldlM_append run
    obtain ⟨stack₂, pushed, -⟩ := exists_of_foldlM_cons run₂
    rw [← length_of_foldlM run₁]
    exact (push_eq_ok_iff.1 pushed).faultBehind?_eq_none

theorem single_eq_error_iff :
    single stack = .error fault ↔ 2 ≤ stack.length ∧ fault = .unbalancedExpression := by
  cases stack with
  | nil => simp [single]
  | cons e rest =>
    cases rest with
    | nil => simp [single]
    | cons e' rest => simp [single, eq_comm]

/-- The builder fails with the fault of the leftmost token that has one.  If no token has, it fails
where two or more expressions are left, as the balance of all tokens tells. -/
theorem leftmost_blamed (scanned : ∀ t ∈ tokens, t.Scanned) (vs : Variables) (fault : Fault) :
    ofReversePolish tokens vs = .error fault ↔
      (∃ front t back, tokens = front ++ t :: back ∧ Faultless vs front ∧
        faultBehind? vs (balance front) t = some fault) ∨
      (Faultless vs tokens ∧ 2 ≤ balance tokens ∧ fault = .unbalancedExpression) := by
  have lexemes : ∀ t ∈ tokens, t.IsLexeme := fun t member => (scanned t member).isLexeme
  constructor
  · intro failed
    rcases error_of_bind_eq_error failed with run | ⟨stack, run, left⟩
    · obtain ⟨front, t, back, stack, rfl, run, refused⟩ := foldlM_eq_error_iff.1 run
      obtain ⟨lexemesFront, lexemesBack⟩ := List.forall_mem_append.1 lexemes
      have wrong := (push_eq_error_iff (lexemesBack t List.mem_cons_self)).1 refused
      rw [length_of_foldlM run] at wrong
      exact .inl ⟨front, t, back, rfl, (faultless_iff lexemesFront).2 ⟨stack, run⟩, wrong⟩
    · obtain ⟨enough, rfl⟩ := single_eq_error_iff.1 left
      have count := length_of_foldlM run
      exact .inr ⟨(faultless_iff lexemes).2 ⟨stack, run⟩, by omega, rfl⟩
  · rintro (⟨front, t, back, rfl, faultless, wrong⟩ | ⟨faultless, enough, rfl⟩)
    · obtain ⟨lexemesFront, lexemesBack⟩ := List.forall_mem_append.1 lexemes
      obtain ⟨stack, run⟩ := (faultless_iff lexemesFront).1 faultless
      rw [← length_of_foldlM run] at wrong
      have refused := (push_eq_error_iff (lexemesBack t List.mem_cons_self)).2 wrong
      rw [ofReversePolish, foldlM_eq_error_iff.2 ⟨front, t, back, stack, rfl, run, refused⟩]
      rfl
    · obtain ⟨stack, run⟩ := (faultless_iff lexemes).1 faultless
      have count := length_of_foldlM run
      rw [ofReversePolish, run]
      exact single_eq_error_iff.2 ⟨by omega, rfl⟩

/-- A parenthesis behind two operands is blamed, and not the name behind it that the table lacks. -/
theorem leftmost_blamed_parenthesis :
    ofReversePolish [⟨"A1", 0⟩, ⟨"B1", 3⟩, ⟨"(", 6⟩, ⟨"C1", 7⟩] (.ofNames ["A1", "B1"]) =
      .error (.unsupportedOperator "(") := by
  have scan : Token.scan "A1+B1*(C1" = .ok
      [⟨"A1", 0⟩, ⟨"+", 2⟩, ⟨"B1", 3⟩, ⟨"*", 5⟩, ⟨"(", 6⟩, ⟨"C1", 7⟩] := by
    decide +kernel
  have scanned : ∀ t ∈ [⟨"A1", 0⟩, ⟨"B1", 3⟩, ⟨"(", 6⟩, ⟨"C1", 7⟩], Token.Scanned t := by
    intro t member
    refine ⟨_, _, scan, ?_⟩
    revert t
    decide
  have taken : (List.foldlM (push (.ofNames ["A1", "B1"])) [] [⟨"A1", 0⟩, ⟨"B1", 3⟩]).toBool := by
    decide +kernel
  have faultless : Faultless (.ofNames ["A1", "B1"]) [⟨"A1", 0⟩, ⟨"B1", 3⟩] := by
    refine (faultless_iff fun t member => (scanned t ?_).isLexeme).2 ?_
    · exact List.mem_append_left [⟨"(", 6⟩, ⟨"C1", 7⟩] member
    · cases run : List.foldlM (push (.ofNames ["A1", "B1"])) [] [⟨"A1", 0⟩, ⟨"B1", 3⟩] with
      | ok stack => exact ⟨stack, rfl⟩
      | error fault =>
        rw [run] at taken
        cases taken
  refine (leftmost_blamed scanned _ _).2 (.inl ⟨_, ⟨"(", 6⟩, _, rfl, faultless, ?_⟩)
  decide +kernel

end Expr

end FormulaGrid
