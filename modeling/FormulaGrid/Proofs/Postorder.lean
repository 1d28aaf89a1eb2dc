import FormulaGrid.Proofs.Lexemes

/-! # What the builder makes of its tokens

The builder has a stack, and what it returns can be told without one.  The tokens of an expression
are listed left operand first, then the right one, then the operator, and the builder answers with
the expression that its tokens list.  On the way every expression on the stack is listed by the
tokens that it was made of.
-/

namespace FormulaGrid

/-! ## Steps that may fail -/

theorem exists_of_bind_eq_ok {α β ε : Type} {first : Except ε α} {next : α → Except ε β} {b : β}
    (ended : first >>= next = .ok b) : ∃ a, first = .ok a ∧ next a = .ok b := by
  cases first with
  | error e => cases ended
  | ok a => exact ⟨a, rfl, ended⟩

theorem error_of_bind_eq_error {α β ε : Type} {first : Except ε α} {next : α → Except ε β} {e : ε}
    (failed : first >>= next = .error e) :
    first = .error e ∨ ∃ a, first = .ok a ∧ next a = .error e := by
  cases first with
  | error e' =>
    cases failed
    exact .inl rfl
  | ok a => exact .inr ⟨a, rfl, failed⟩

theorem exists_of_foldlM_cons {α β ε : Type} {step : β → α → Except ε β} {a : α} {as : List α} {b d : β}
    (run : (a :: as).foldlM step b = .ok d) :
    ∃ c, step b a = .ok c ∧ as.foldlM step c = .ok d := by
  rw [List.foldlM_cons] at run
  exact exists_of_bind_eq_ok run

/-- What every step keeps for the elements taken so far holds when all of them are taken. -/
theorem foldlM_keeps {α β ε : Type} {step : β → α → Except ε β} {Holds : List α → β → Prop}
    (keeps : ∀ taken a b c, Holds taken b → step b a = .ok c → Holds (taken ++ [a]) c)
    {taken as : List α} {b c : β} (start : Holds taken b) (run : as.foldlM step b = .ok c) :
    Holds (taken ++ as) c := by
  induction as generalizing taken b with
  | nil =>
    cases run
    rwa [List.append_nil]
  | cons a as ih =>
    obtain ⟨next, first, others⟩ := exists_of_foldlM_cons run
    rw [List.append_cons]
    exact ih (keeps taken a b next start first) others

theorem foldlM_invariant {α β ε : Type} {step : β → α → Except ε β} (Holds : β → Prop)
    {as : List α} {b c : β} (start : Holds b) (run : as.foldlM step b = .ok c)
    (keeps : ∀ a b c, Holds b → step b a = .ok c → Holds c) : Holds c :=
  @foldlM_keeps α β ε step (fun _ => Holds) (fun _ => keeps) [] as b c start run

theorem exists_of_foldlM_append {α β ε : Type} {step : β → α → Except ε β} {as as' : List α} {b d : β}
    (run : (as ++ as').foldlM step b = .ok d) :
    ∃ c, as.foldlM step b = .ok c ∧ as'.foldlM step c = .ok d := by
  rw [List.foldlM_append] at run
  exact exists_of_bind_eq_ok run

theorem foldlM_append_of_ok {α β ε : Type} {step : β → α → Except ε β} {as as' : List α} {b c : β}
    (run : as.foldlM step b = .ok c) : (as ++ as').foldlM step b = as'.foldlM step c := by
  rw [List.foldlM_append, run]
  rfl

/-- A fold fails if and only if it comes to an element whose step fails. -/
theorem foldlM_eq_error_iff {α β ε : Type} {step : β → α → Except ε β} {as : List α} {b : β} {e : ε} :
    as.foldlM step b = .error e ↔
      ∃ front a back c, as = front ++ a :: back ∧ front.foldlM step b = .ok c ∧
        step c a = .error e := by
  constructor
  · intro failed
    induction as generalizing b with
    | nil => cases failed
    | cons a as ih =>
      rw [List.foldlM_cons] at failed
      rcases error_of_bind_eq_error failed with first | ⟨c, first, others⟩
      · exact ⟨[], a, as, b, rfl, rfl, first⟩
      · obtain ⟨front, a', back, d, rfl, run, later⟩ := ih others
        refine ⟨a :: front, a', back, d, rfl, ?_, later⟩
        rw [List.foldlM_cons, first]
        exact run
  · rintro ⟨front, a, back, c, rfl, run, failed⟩
    rw [foldlM_append_of_ok run, List.foldlM_cons, failed]
    rfl

namespace Expr

variable {vs : Variables} {t : Token} {stack stack' : List Expr} {tokens : List Token}

/-! ## One token -/

/-- What a token makes of a stack: an operand lies on top of it, and an operator has joined the two
topmost expressions. -/
inductive Pushed (vs : Variables) (t : Token) : List Expr → List Expr → Prop
  | number {x : Float} {stack : List Expr} (kind : t.kind = .number)
    (parsed : Number.parse? t.text = some x) : Pushed vs t stack (const x :: stack)
  | name {slot : Nat} {stack : List Expr} (kind : t.kind = .identifier)
    (found : vs.slot? t.text = some slot) : Pushed vs t stack (var t.text slot :: stack)
  | operator {op : Operator} {left right : Expr} {stack : List Expr} (spelled : t.text = op.text) :
    Pushed vs t (right :: left :: stack) (binary op left right :: stack)

inductive Refused (vs : Variables) (t : Token) (stack : List Expr) : Fault → Prop
  | number (kind : t.kind = .number) (strange : Number.parse? t.text = none) :
    Refused vs t stack (.unsupportedToken t.text)
  | name (kind : t.kind = .identifier) (unknown : vs.slot? t.text = none) :
    Refused vs t stack (.unknownVariable t.text)
  | operands (s : Symbol) (spelled : t.text = s.text) (few : stack.length < 2) :
    Refused vs t stack (.insufficientOperands t.text)
  | parenthesis (s : Symbol) (spelled : t.text = s.text) (other : ∀ op, s ≠ .binary op)
    (enough : 2 ≤ stack.length) : Refused vs t stack (.unsupportedOperator t.text)

theorem exists_symbol_of_kind (number : t.kind ≠ .number) (name : t.kind ≠ .identifier) :
    ∃ s : Symbol, t.text = s.text := by
  cases symbol : t.symbol? with
  | none =>
    rcases Token.kind_of_operand symbol with kind | kind
    · exact absurd kind number
    · exact absurd kind name
  | some s => exact ⟨s, Token.text_of_symbol? symbol⟩

theorem push_eq_ok_iff : push vs stack t = .ok stack' ↔ Pushed vs t stack stack' := by
  constructor
  · intro pushed
    simp only [push] at pushed
    split at pushed
    · rename_i kind
      split at pushed
      · rename_i x parsed
        cases pushed
        exact .number kind parsed
      · cases pushed
    · rename_i kind
      split at pushed
      · rename_i slot found
        cases pushed
        exact .name kind found
      · cases pushed
    -- operators and parentheses are treated alike: it is the text that has to be an operator
    all_goals
      split at pushed
      · obtain ⟨op, read, joined⟩ := exists_of_bind_eq_ok pushed
        cases joined
        exact .operator (Operator.ofText_eq_ok_iff.1 read)
      · cases pushed
  · intro pushed
    cases pushed with
    | number kind parsed =>
      simp only [push]
      rw [kind]
      dsimp only
      rw [parsed]
    | name kind found =>
      simp only [push]
      rw [kind]
      dsimp only
      rw [found]
    | operator spelled =>
      simp only [push]
      rw [Token.kind_of_operator spelled]
      dsimp only
      rw [Operator.ofText_eq_ok_iff.2 spelled]
      rfl

theorem refused_of_push {fault : Fault} (failed : push vs stack t = .error fault) :
    Refused vs t stack fault := by
  simp only [push] at failed
  split at failed
  · rename_i kind
    split at failed
    · cases failed
    · rename_i strange
      cases failed
      exact .number kind strange
  · rename_i kind
    split at failed
    · cases failed
    · rename_i unknown
      cases failed
      exact .name kind unknown
  all_goals
    rename_i kind
    obtain ⟨s, spelled⟩ := exists_symbol_of_kind (t := t) (by simp [kind]) (by simp [kind])
    split at failed
    · rename_i right left rest
      rcases error_of_bind_eq_error failed with unread | ⟨op, -, joined⟩
      · cases Operator.eq_of_ofText_eq_error unread
        refine .parenthesis s spelled ?_ (by simp)
        rintro op rfl
        rw [Operator.ofText_eq_ok_iff.2 spelled] at unread
        cases unread
      · cases joined
    · rename_i short
      cases failed
      refine .operands s spelled ?_
      cases stack with
      | nil => exact Nat.zero_lt_two
      | cons right rest =>
        cases rest with
        | nil => exact Nat.one_lt_two
        | cons left rest => exact absurd rfl (short right left rest)

/-! ## All tokens -/

/-- The expression that is left, if there is any. -/
theorem single_eq_ok_iff {root : Option Expr} : single stack = .ok root ↔ stack = root.toList := by
  constructor
  · intro left
    simp only [single] at left
    split at left
    all_goals cases left
    all_goals rfl
  · rintro rfl
    cases root <;> rfl

theorem ofReversePolish_eq_ok_iff {root : Option Expr} :
    ofReversePolish tokens vs = .ok root ↔ tokens.foldlM (push vs) [] = .ok root.toList := by
  constructor
  · intro built
    obtain ⟨stack, run, left⟩ := exists_of_bind_eq_ok built
    rw [run, single_eq_ok_iff.1 left]
  · intro run
    rw [ofReversePolish, run]
    exact single_eq_ok_iff.2 rfl

/-- The tokens in which an expression is listed: an operand is one token, and an operator stands
behind the tokens of its left operand and those of its right one. -/
inductive Listed (vs : Variables) : Expr → List Token → Prop
  | const {t : Token} {x : Float} (kind : t.kind = .number)
    (parsed : Number.parse? t.text = some x) : Listed vs (const x) [t]
  | var {t : Token} {slot : Nat} (kind : t.kind = .identifier)
    (found : vs.slot? t.text = some slot) : Listed vs (var t.text slot) [t]
  | binary {t : Token} {op : Operator} {left right : Expr} {first second : List Token}
    (spelled : t.text = op.text) (leftListed : Listed vs left first)
    (rightListed : Listed vs right second) :
    Listed vs (binary op left right) (first ++ second ++ [t])

inductive Stacked (vs : Variables) : List Token → List Expr → Prop
  | nil : Stacked vs [] []
  | cons {e : Expr} {stack : List Expr} {taken tokens : List Token} (below : Stacked vs taken stack)
    (top : Listed vs e tokens) : Stacked vs (taken ++ tokens) (e :: stack)

/-- An operand begins a list of its own, and an operator ends the two topmost ones. -/
theorem Stacked.push {taken : List Token} (stacked : Stacked vs taken stack)
    (pushed : push vs stack t = .ok stack') : Stacked vs (taken ++ [t]) stack' := by
  cases push_eq_ok_iff.1 pushed with
  | number kind parsed => exact stacked.cons (.const kind parsed)
  | name kind found => exact stacked.cons (.var kind found)
  | operator spelled =>
    cases stacked with
    | @cons _ _ _ second stacked rightListed =>
      cases stacked with
      | @cons _ _ taken first stacked leftListed =>
        have joined := stacked.cons (.binary spelled leftListed rightListed)
        rw [List.append_assoc, List.append_assoc]
        rwa [List.append_assoc] at joined

/-- The tokens of an expression put it on the stack, and leave alone what lies below. -/
theorem Listed.foldlM_push {e : Expr} (listed : Listed vs e tokens) (stack : List Expr) :
    tokens.foldlM (Expr.push vs) stack = .ok (e :: stack) := by
  -- for every stack, since a right operand is built above the left one
  induction listed generalizing stack with
  | const kind parsed =>
    rw [List.foldlM_cons, push_eq_ok_iff.2 (.number kind parsed)]
    rfl
  | var kind found =>
    rw [List.foldlM_cons, push_eq_ok_iff.2 (.name kind found)]
    rfl
  | binary spelled _ _ ihLeft ihRight =>
    rw [List.append_assoc, foldlM_append_of_ok (ihLeft stack),
      foldlM_append_of_ok (ihRight (_ :: stack)), List.foldlM_cons,
      push_eq_ok_iff.2 (.operator spelled)]
    rfl

theorem stacked_of_ofReversePolish {root : Option Expr}
    (built : ofReversePolish tokens vs = .ok root) : Stacked vs tokens root.toList := by
  have run := ofReversePolish_eq_ok_iff.1 built
  rw [← List.nil_append tokens]
  exact foldlM_keeps (fun _ _ _ _ stacked pushed => stacked.push pushed) .nil run

theorem ofReversePolish_eq_some_iff {e : Expr} :
    ofReversePolish tokens vs = .ok (some e) ↔ Listed vs e tokens := by
  constructor
  · intro built
    cases stacked_of_ofReversePolish built with
    | cons below top =>
      cases below
      exact top
  · exact fun listed => ofReversePolish_eq_ok_iff.2 (listed.foldlM_push [])

theorem ofReversePolish_eq_none_iff : ofReversePolish tokens vs = .ok none ↔ tokens = [] := by
  constructor
  · intro built
    cases stacked_of_ofReversePolish built
    rfl
  · rintro rfl
    rfl

/-- The builder turns the listing of expressions around.  It answers with an expression if and only
if the tokens list that one, in whatever order and how often they were taken, and with none if and
only if there are no tokens. -/
theorem postorder_inverted (tokens : List Token) (vs : Variables) :
    (∀ e, ofReversePolish tokens vs = .ok (some e) ↔ Listed vs e tokens) ∧
      (ofReversePolish tokens vs = .ok none ↔ tokens = []) :=
  ⟨fun _ => ofReversePolish_eq_some_iff, ofReversePolish_eq_none_iff⟩

end Expr

end FormulaGrid
