import FormulaGrid.Proofs.OperandOrder

/-! # Parentheses in the yard

Operators share a stack with the parentheses that are open.  No operator passes one of these, and a
closing parenthesis takes the topmost of them away, so the stack has as many as the tokens opened
and did not close.  Whether the yard takes the tokens is therefore decided by counting parentheses,
whatever stands between them.
-/

namespace FormulaGrid.Token

open Yard (opensGroup)

def closesGroup (t : Token) : Bool :=
  t.symbol? == some .rightParen

def openings (tokens : List Token) : Nat :=
  tokens.countP opensGroup

def closings (tokens : List Token) : Nat :=
  tokens.countP closesGroup

variable {tokens : List Token} {t : Token} {fault : Fault}

theorem openings_append (front back : List Token) :
    openings (front ++ back) = openings front + openings back :=
  List.countP_append

theorem closings_append (front back : List Token) :
    closings (front ++ back) = closings front + closings back :=
  List.countP_append

theorem openings_eq_zero_iff : openings tokens = 0 ↔ ∀ t ∈ tokens, opensGroup t = false := by
  simp [openings, List.countP_eq_zero]

theorem openings_eq_zero_or (t : Token) : openings [t] = 0 ∨ closings [t] = 0 := by
  cases symbol : t.symbol? with
  | none => simp [openings, opensGroup, symbol]
  | some s => cases s <;> simp [openings, closings, opensGroup, closesGroup, symbol]

/-! ## What waits -/

namespace Yard

variable {y z : Yard}

/-- No operator passes an open parenthesis. -/
theorem not_opensGroup_of_goesBefore {op : Operator} (goes : goesBefore op t) :
    opensGroup t = false := by
  rw [goesBefore_eq] at goes
  exact not_opensGroup_of_binds (binds_of_le (one_le_precedence op) goes)

/-- One more is open behind an opening parenthesis, and one fewer behind a closing one. -/
theorem Taken.openings_eq (taken : Taken y t z) :
    openings z.waiting + closings [t] = openings y.waiting + openings [t] := by
  cases taken with
  | operand plain => simp [openings, closings, opensGroup, closesGroup, plain]
  | opening opens => simp [openings, closings, opensGroup, closesGroup, opens]
  | @closing inside below opening closes opens within waits =>
    have none : openings inside = 0 := openings_eq_zero_iff.2 within
    have one : openings (opening :: below) = openings below + 1 := List.countP_cons_of_pos opens
    rw [waits, openings_append, none, one]
    simp [openings, closings, opensGroup, closesGroup, closes]
  | @operator sent kept op binary goes stays waits =>
    have none : openings sent = 0 :=
      openings_eq_zero_iff.2 fun w member => not_opensGroup_of_goesBefore (goes w member)
    rw [waits, openings_append, none]
    simp [openings, closings, opensGroup, closesGroup, binary]

theorem openings_of_foldlM (run : tokens.foldlM accept {} = .ok y) :
    openings y.waiting + closings tokens = openings tokens := by
  have step : ∀ (taken : List Token) (t : Token) (y z : Yard),
      openings y.waiting + closings taken = openings taken → y.accept t = .ok z →
        openings z.waiting + closings (taken ++ [t]) = openings (taken ++ [t]) := by
    intro taken t y z counted accepted
    have next := (taken_of_accept accepted).openings_eq
    rw [closings_append, openings_append]
    omega
  rw [← List.nil_append tokens]
  exact foldlM_keeps step rfl run

/-! ## What is refused -/

/-- Only a closing parenthesis is refused, where none is open. -/
theorem accept_eq_error_iff :
    y.accept t = .error fault ↔
      closesGroup t ∧ openings y.waiting = 0 ∧ fault = .unmatchedParenthesis := by
  constructor
  · intro failed
    simp only [accept] at failed
    split at failed
    · cases failed
    · cases failed
    · rename_i closes
      split at failed
      · rename_i left
        cases failed
        refine ⟨by simp [closesGroup, closes], openings_eq_zero_iff.2 fun w member => ?_, rfl⟩
        simpa using List.dropWhile_eq_nil_iff.1 left w member
      · cases failed
    · cases failed
  · rintro ⟨closes, none, rfl⟩
    have left : (y.sendWhile fun w => !opensGroup w).waiting = [] :=
      List.dropWhile_eq_nil_iff.2 fun w member => by
        rw [openings_eq_zero_iff.1 none w member, Bool.not_false]
    rw [accept, eq_of_beq closes]
    dsimp only
    rw [left]

theorem close_eq_error_iff :
    y.close = .error fault ↔ 0 < openings y.waiting ∧ fault = .unbalancedExpression := by
  have some : y.waiting.any opensGroup ↔ 0 < openings y.waiting := by
    rw [List.any_eq_true, openings, List.countP_pos_iff]
  rw [← some, close]
  split
  · simp [*, eq_comm]
  · simp [*]

/-- The yard takes tokens if and only if, wherever one stops, at least as many groups were opened as
were closed. -/
theorem exists_foldlM_iff :
    (∃ y, tokens.foldlM accept {} = .ok y) ↔
      ∀ front, front <+: tokens → closings front ≤ openings front := by
  constructor
  · rintro ⟨y, run⟩ front ⟨back, rfl⟩
    obtain ⟨z, run, -⟩ := exists_of_foldlM_append run
    have count := openings_of_foldlM run
    omega
  · intro enough
    cases run : tokens.foldlM accept {} with
    | ok y => exact ⟨y, rfl⟩
    | error fault =>
      obtain ⟨front, t, back, y, rfl, run, refused⟩ := foldlM_eq_error_iff.1 run
      obtain ⟨closes, none, -⟩ := accept_eq_error_iff.1 refused
      have count := openings_of_foldlM run
      have more := enough (front ++ [t]) ⟨back, by simp⟩
      have closed : closings [t] = 1 := by simp [closings, closes]
      have unopened : openings [t] = 0 := by
        simp [openings, opensGroup, eq_of_beq closes]
      rw [closings_append, openings_append] at more
      omega

end Yard

/-! ## The verdict -/

theorem reversePolish_eq_error_iff :
    reversePolish tokens = .error fault ↔
      (fault = .unmatchedParenthesis ∧ ∃ front, front <+: tokens ∧ openings front < closings front) ∨
      (fault = .unbalancedExpression ∧
        (∀ front, front <+: tokens → closings front ≤ openings front) ∧
        closings tokens < openings tokens) := by
  have some_iff : (∃ front, front <+: tokens ∧ openings front < closings front) ↔
      ¬ ∃ y, tokens.foldlM Yard.accept {} = .ok y := by
    rw [Yard.exists_foldlM_iff]
    simp only [not_forall, Nat.not_le, exists_prop]
  rw [some_iff, ← Yard.exists_foldlM_iff]
  cases run : tokens.foldlM Yard.accept {} with
  | error own =>
    obtain ⟨front, t, back, y, -, -, refused⟩ := foldlM_eq_error_iff.1 run
    obtain ⟨-, -, rfl⟩ := Yard.accept_eq_error_iff.1 refused
    rw [reversePolish, run]
    change Except.error _ = Except.error _ ↔ _
    simp [eq_comm]
  | ok y =>
    have count := Yard.openings_of_foldlM run
    rw [reversePolish, run]
    change y.close = .error fault ↔ _
    rw [Yard.close_eq_error_iff]
    have open_iff : 0 < openings y.waiting ↔ closings tokens < openings tokens := by omega
    simp [open_iff, and_comm]

/-- A parenthesis is counted by its text, and nothing else has that text. -/
theorem countP_eq_count {s : Symbol} (parenthesis : s = .leftParen ∨ s = .rightParen)
    (tokens : List Token) :
    (tokens.countP fun t => t.symbol? == some s) =
      ((tokens.filter isParenthesis).map text).count s.text := by
  rw [List.count, List.countP_map, List.countP_filter]
  apply List.countP_congr
  intro t _
  rw [Bool.and_eq_true, beq_iff_eq]
  constructor
  · intro symbol
    refine ⟨beq_iff_eq.2 (text_of_symbol? symbol), ?_⟩
    rcases parenthesis with rfl | rfl <;> simp [isParenthesis, symbol]
  · exact fun spelled => symbol?_of_text (beq_iff_eq.1 spelled.1)

theorem counts_of_parentheses {others : List Token}
    (same : (others.filter isParenthesis).map text = (tokens.filter isParenthesis).map text) :
    openings others = openings tokens ∧ closings others = closings tokens := by
  have opened := countP_eq_count (.inl rfl : Symbol.leftParen = _ ∨ _)
  have closed := countP_eq_count (.inr rfl : Symbol.rightParen = _ ∨ _)
  exact ⟨(opened others).trans (same ▸ (opened tokens).symm),
    (closed others).trans (same ▸ (closed tokens).symm)⟩

/-- Where the parentheses are the same, one can stop with the same counts. -/
theorem exists_prefix {others front : List Token}
    (same : (others.filter isParenthesis).map text = (tokens.filter isParenthesis).map text)
    (stop : front <+: tokens) :
    ∃ front', front' <+: others ∧ openings front' = openings front ∧
      closings front' = closings front := by
  obtain ⟨back, rfl⟩ := stop
  rw [List.filter_append, List.map_append] at same
  obtain ⟨first, second, split, texts, -⟩ := List.map_eq_append_iff.1 same
  obtain ⟨front', back', rfl, rfl, -⟩ := List.filter_eq_append_iff.1 split
  exact ⟨front', List.prefix_append front' back', counts_of_parentheses texts⟩

theorem error_of_parentheses {others : List Token}
    (same : (others.filter isParenthesis).map text = (tokens.filter isParenthesis).map text)
    (failed : reversePolish tokens = .error fault) : reversePolish others = .error fault := by
  rw [reversePolish_eq_error_iff] at failed ⊢
  rcases failed with ⟨rfl, front, stop, fewer⟩ | ⟨rfl, enough, fewer⟩
  · obtain ⟨front', stop', opened, closed⟩ := exists_prefix same stop
    exact .inl ⟨rfl, front', stop', by omega⟩
  · refine .inr ⟨rfl, fun front stop => ?_, ?_⟩
    · obtain ⟨front', stop', opened, closed⟩ := exists_prefix same.symm stop
      have := enough front' stop'
      omega
    · obtain ⟨opened, closed⟩ := counts_of_parentheses same
      omega

/-- What becomes of tokens is decided by their parentheses.  Where some tokens from the first one on
close more groups than they open, a closing parenthesis is unmatched; where none do, but more groups
are opened than closed in all, the formula is unbalanced; and in all other cases the tokens are put
in order.  Tokens with the same parentheses meet with the same verdict, whatever operands and
operators stand between them. -/
theorem parentheses_decide (tokens : List Token) :
    (reversePolish tokens = .error .unmatchedParenthesis ↔
      ∃ front, front <+: tokens ∧ openings front < closings front) ∧
    (reversePolish tokens = .error .unbalancedExpression ↔
      (∀ front, front <+: tokens → closings front ≤ openings front) ∧
        closings tokens < openings tokens) ∧
    ((∃ order, reversePolish tokens = .ok order) ↔
      (∀ front, front <+: tokens → closings front ≤ openings front) ∧
        closings tokens = openings tokens) ∧
    (∀ others : List Token,
      (others.filter isParenthesis).map text = (tokens.filter isParenthesis).map text →
      ∀ fault, reversePolish others = .error fault ↔ reversePolish tokens = .error fault) := by
  have unmatched : reversePolish tokens = .error .unmatchedParenthesis ↔
      ∃ front, front <+: tokens ∧ openings front < closings front := by
    simp [reversePolish_eq_error_iff]
  have unbalanced : reversePolish tokens = .error .unbalancedExpression ↔
      (∀ front, front <+: tokens → closings front ≤ openings front) ∧
        closings tokens < openings tokens := by
    simp [reversePolish_eq_error_iff]
  refine ⟨unmatched, unbalanced, ?_, fun others same fault =>
    ⟨error_of_parentheses same.symm, error_of_parentheses same⟩⟩
  constructor
  · rintro ⟨order, ordered⟩
    have enough : ∀ front, front <+: tokens → closings front ≤ openings front := by
      intro front stop
      by_contra fewer
      have failed := unmatched.2 ⟨front, stop, Nat.not_le.1 fewer⟩
      rw [ordered] at failed
      cases failed
    refine ⟨enough, Nat.le_antisymm (enough tokens List.prefix_rfl) ?_⟩
    by_contra fewer
    have failed := unbalanced.2 ⟨enough, Nat.not_le.1 fewer⟩
    rw [ordered] at failed
    cases failed
  · rintro ⟨enough, equal⟩
    cases result : reversePolish tokens with
    | ok order => exact ⟨order, rfl⟩
    | error fault =>
      rcases reversePolish_eq_error_iff.1 result with ⟨-, front, stop, fewer⟩ | ⟨-, -, fewer⟩
      · exact absurd (enough front stop) (Nat.not_le.2 fewer)
      · exact absurd equal (Nat.ne_of_lt fewer)

end FormulaGrid.Token
