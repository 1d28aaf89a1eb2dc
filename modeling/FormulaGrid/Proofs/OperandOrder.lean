import FormulaGrid.Proofs.Evaluation
import FormulaGrid.Proofs.Yard
import Mathlib.Data.List.TakeWhile

namespace FormulaGrid

namespace Token

def isParenthesis (t : Token) : Bool :=
  t.symbol? == some .leftParen || t.symbol? == some .rightParen

def isOperand (t : Token) : Bool :=
  t.symbol?.isNone

theorem isOperand_of_symbol? {t : Token} {s : Symbol} (symbol : t.symbol? = some s) :
    t.isOperand = false := by
  rw [isOperand, symbol]
  rfl

theorem isParenthesis_of_isOperand {t : Token} (operand : t.isOperand) :
    t.isParenthesis = false := by
  have plain : t.symbol? = none := Option.isNone_iff_eq_none.1 operand
  rw [isParenthesis, plain]
  rfl

theorem isOperand_iff {t : Token} : t.isOperand ↔ t.kind = .number ∨ t.kind = .identifier := by
  constructor
  · exact fun operand => kind_of_operand (Option.isNone_iff_eq_none.1 operand)
  · intro kind
    refine Option.isNone_iff_eq_none.2 ?_
    cases symbol : t.symbol? with
    | none => rfl
    | some s =>
      rw [kind_of_spelled (text_of_symbol? symbol), kind_symbol] at kind
      cases s <;> simp at kind

/-! ## In the yard -/

namespace Yard

/-- Of the tokens taken, the operands are out in their order, operators are out or wait, and of the
parentheses none is out and only opening ones wait. -/
structure Keeps (taken : List Token) (y : Yard) : Prop where
  waiting : ∀ t ∈ y.waiting, t.isOperand = false ∧ t.symbol? ≠ some .rightParen
  output : ∀ t ∈ y.output, t.isParenthesis = false
  operands : y.output.reverse.filter isOperand = taken.filter isOperand
  perm : ((y.output ++ y.waiting).filter fun t => !t.isParenthesis).Perm
    (taken.filter fun t => !t.isParenthesis)

theorem one_le_precedence (op : Operator) : 1 ≤ op.precedence := by
  cases op <;> decide

theorem not_isParenthesis_of_binds {t : Token} (binding : binds 1 t) : t.isParenthesis = false := by
  simp only [binds] at binding
  cases found : t.symbol? with
  | none => simp [found] at binding
  | some symbol =>
    cases symbol with
    | binary op => simp [isParenthesis, found]
    | leftParen => simp [found, Symbol.precedence] at binding
    | rightParen => simp [found, Symbol.precedence] at binding

/-- One more token on both sides. -/
theorem filter_cons_perm {p : Token → Bool} {ts us : List Token}
    (perm : (ts.filter p).Perm (us.filter p)) (t : Token) :
    ((t :: ts).filter p).Perm ((us ++ [t]).filter p) := by
  have moved : (t :: us).Perm (us ++ [t]) := (List.perm_append_singleton t us).symm
  refine List.Perm.trans ?_ (moved.filter p)
  rw [List.filter_cons, List.filter_cons]
  split
  · exact perm.cons t
  · exact perm

variable {taken : List Token} {y : Yard}

/-- An operand is put out. -/
theorem Keeps.putOut (keeps : y.Keeps taken) {t : Token} (operand : t.isOperand) :
    Keeps (taken ++ [t]) { y with output := t :: y.output } where
  waiting := keeps.waiting
  output := List.forall_mem_cons.2 ⟨isParenthesis_of_isOperand operand, keeps.output⟩
  operands := by
    simp [operand, keeps.operands]
  perm := filter_cons_perm keeps.perm t

/-- An operator or an opening parenthesis waits. -/
theorem Keeps.wait (keeps : y.Keeps taken) {t : Token} (symbol : t.isOperand = false)
    (other : t.symbol? ≠ some .rightParen) :
    Keeps (taken ++ [t]) { y with waiting := t :: y.waiting } where
  waiting := List.forall_mem_cons.2 ⟨⟨symbol, other⟩, keeps.waiting⟩
  output := keeps.output
  operands := by
    simp [symbol, keeps.operands]
  perm := (List.perm_middle.filter _).trans (filter_cons_perm keeps.perm t)

/-- Sending out loses nothing, and what waits is no operand, so none is passed. -/
theorem Keeps.send (keeps : y.Keeps taken) {sent kept : List Token} (waits : y.waiting = sent ++ kept)
    (operators : ∀ t ∈ sent, t.isParenthesis = false) :
    Keeps taken ⟨sent.reverse ++ y.output, kept⟩ where
  waiting t member := keeps.waiting t (waits ▸ List.mem_append_right sent member)
  output t member := by
    rcases List.mem_append.1 member with out | old
    · exact operators t (List.mem_reverse.1 out)
    · exact keeps.output t old
  operands := by
    have none : sent.filter isOperand = [] := by
      rw [List.filter_eq_nil_iff]
      intro t member
      rw [(keeps.waiting t (waits ▸ List.mem_append_left kept member)).1]
      exact Bool.false_ne_true
    simp only [List.reverse_append, List.reverse_reverse, List.filter_append, none, List.append_nil]
    exact keeps.operands
  perm := by
    have front : (sent.reverse ++ y.output).Perm (y.output ++ sent) :=
      ((List.reverse_perm _).append_right _).trans List.perm_append_comm
    have whole := front.append_right kept
    rw [List.append_assoc y.output, ← waits] at whole
    exact (whole.filter _).trans keeps.perm

/-- A closing parenthesis takes its opening one with it. -/
theorem Keeps.closeGroup (keeps : y.Keeps taken) {opening closing : Token} {below : List Token}
    (top : y.waiting = opening :: below) (opens : opening.isParenthesis)
    (closes : closing.symbol? = some .rightParen) :
    Keeps (taken ++ [closing]) { y with waiting := below } where
  waiting t member := keeps.waiting t (top ▸ List.mem_cons_of_mem _ member)
  output := keeps.output
  operands := by
    simpa [isOperand_of_symbol? closes] using keeps.operands
  perm := by
    have parenthesis : closing.isParenthesis = true := by
      simp [isParenthesis, closes]
    have perm := keeps.perm
    rw [top] at perm
    simpa [parenthesis, opens] using perm

theorem Keeps.accept (keeps : y.Keeps taken) {t : Token} {z : Yard}
    (accepted : y.accept t = .ok z) : z.Keeps (taken ++ [t]) := by
  cases taken_of_accept accepted with
  | operand plain => exact keeps.putOut (Option.isNone_iff_eq_none.2 plain)
  | opening opens => exact keeps.wait (isOperand_of_symbol? opens) (by simp [opens])
  | @closing inside below opening closes opens within waits =>
    have operators : ∀ w ∈ inside, w.isParenthesis = false := by
      intro w member
      have other := (keeps.waiting w (waits ▸ List.mem_append_left _ member)).2
      have outside := within w member
      simp only [opensGroup, beq_eq_false_iff_ne] at outside
      simp [isParenthesis, outside, other]
    refine (keeps.send waits operators).closeGroup rfl ?_ closes
    simp only [opensGroup] at opens
    rw [isParenthesis, opens, Bool.true_or]
  | @operator sent kept op binary goes stays waits =>
    have operators : ∀ w ∈ sent, w.isParenthesis = false := by
      intro w member
      have binding := goes w member
      rw [goesBefore_eq] at binding
      exact not_isParenthesis_of_binds (binds_of_le (one_le_precedence op) binding)
    exact (keeps.send waits operators).wait (isOperand_of_symbol? binary) (by simp [binary])

theorem keeps_of_foldlM {tokens : List Token} (run : tokens.foldlM Yard.accept {} = .ok y) :
    y.Keeps tokens := by
  have empty : Yard.Keeps [] {} := ⟨by simp, by simp, rfl, .nil⟩
  rw [← List.nil_append tokens]
  exact foldlM_keeps (fun _ _ _ _ keeps accepted => keeps.accept accepted) empty run

theorem keeps_of_reversePolish {tokens order : List Token}
    (ordered : reversePolish tokens = .ok order) :
    ∃ y : Yard, y.Keeps tokens ∧ order = y.output.reverse ++ y.waiting ∧
      ∀ t ∈ y.waiting, t.isParenthesis = false := by
  obtain ⟨y, run, closed⟩ := exists_of_bind_eq_ok ordered
  have keeps := keeps_of_foldlM run
  simp only [Yard.close] at closed
  split at closed
  · cases closed
  · rename_i shut
    cases closed
    refine ⟨y, keeps, rfl, ?_⟩
    intro t member
    have inside : opensGroup t = false := by
      simpa using List.any_eq_false.1 (Bool.not_eq_true _ ▸ shut) t member
    have other := (keeps.waiting t member).2
    simp only [opensGroup, beq_eq_false_iff_ne] at inside
    simp [isParenthesis, inside, other]

end Yard

/-! ## Out of the yard -/

variable {tokens order : List Token}

/-- The tokens in reverse Polish order are those of the formula without the parentheses. -/
theorem reversePolish_perm (ordered : reversePolish tokens = .ok order) :
    order.Perm (tokens.filter fun t => !t.isParenthesis) := by
  obtain ⟨y, keeps, rfl, closed⟩ := Yard.keeps_of_reversePolish ordered
  have whole : (y.output ++ y.waiting).filter (fun t => !t.isParenthesis) =
      y.output ++ y.waiting := by
    rw [List.filter_eq_self]
    intro t member
    rcases List.mem_append.1 member with out | waits
    · rw [keeps.output t out, Bool.not_false]
    · rw [closed t waits, Bool.not_false]
  have perm := keeps.perm
  rw [whole] at perm
  exact ((List.reverse_perm y.output).append_right y.waiting).trans perm

theorem mem_of_reversePolish (ordered : reversePolish tokens = .ok order) {t : Token}
    (member : t ∈ order) : t ∈ tokens ∧ t.isParenthesis = false := by
  have kept := List.mem_filter.1 ((reversePolish_perm ordered).subset member)
  exact ⟨kept.1, by simpa using kept.2⟩

/-- The operands come in the order of the formula. -/
theorem filter_reversePolish (ordered : reversePolish tokens = .ok order) :
    order.filter isOperand = tokens.filter isOperand := by
  obtain ⟨y, keeps, rfl, -⟩ := Yard.keeps_of_reversePolish ordered
  have none : y.waiting.filter isOperand = [] := by
    rw [List.filter_eq_nil_iff]
    intro t member
    rw [(keeps.waiting t member).1]
    exact Bool.false_ne_true
  rw [List.filter_append, none, List.append_nil, keeps.operands]

theorem reversePolish_eq_nil_iff (ordered : reversePolish tokens = .ok order) :
    order = [] ↔ ∀ t ∈ tokens, t.isParenthesis := by
  rw [← List.perm_nil, (reversePolish_perm ordered).congr_left, List.perm_nil,
    List.filter_eq_nil_iff]
  simp

end Token

/-! ## In the builder -/

namespace Expr

def names : Expr → List String
  | const _ => []
  | var name _ => [name]
  | binary _ left right => left.names ++ right.names

/-- An expression has the names of the tokens that list it, in their order. -/
theorem Listed.names_eq {vs : Variables} {e : Expr} {tokens : List Token}
    (listed : Listed vs e tokens) : e.names = Formula.namesOf tokens := by
  induction listed with
  | const kind parsed => simp [names, Formula.namesOf, kind]
  | var kind found => simp [names, Formula.namesOf, kind]
  | @binary t op left right first second spelled _ _ ihLeft ihRight =>
    have none : Formula.namesOf [t] = [] := by
      simp [Formula.namesOf, Token.kind_of_operator spelled]
    rw [Formula.namesOf_append, Formula.namesOf_append, none, List.append_nil, names, ihLeft, ihRight]

end Expr

/-! ## In a formula -/

namespace Formula

variable {text : String} {f : Formula}

theorem namesOf_filter (tokens : List Token) :
    namesOf (tokens.filter Token.isOperand) = namesOf tokens := by
  simp only [namesOf, List.filter_filter]
  congr 1
  apply List.filter_congr
  intro t _
  cases name : t.kind == .identifier with
  | false => rfl
  | true => rw [Token.isOperand_iff.2 (.inr (eq_of_beq name)), Bool.and_self]

/-- The expression has the names of the formula, in the order in which they stand in it. -/
theorem names_root (parsed : parse text = .ok f) {e : Expr} (root : f.root = some e) :
    e.names = namesOf f.tokens := by
  obtain ⟨-, ordered, built, -, -⟩ := parse_eq_ok_iff.1 parsed
  rw [root, Expr.ofReversePolish_eq_some_iff] at built
  rw [built.names_eq, ← namesOf_filter f.reversePolish, Token.filter_reversePolish ordered,
    namesOf_filter]

theorem root_eq_none_iff (parsed : parse text = .ok f) :
    f.root = none ↔ ∀ t ∈ f.tokens, t.isParenthesis := by
  obtain ⟨-, ordered, built, -, -⟩ := parse_eq_ok_iff.1 parsed
  rw [← Token.reversePolish_eq_nil_iff ordered, ← Expr.ofReversePolish_eq_none_iff, built]
  simp

end Formula

end FormulaGrid
