import FormulaGrid.Token.ReversePolish
import Mathlib.Data.List.TakeWhile

/-! # What the yard puts out

A run of tokens is ordered at a strength when the yard puts it out in a given order, apart from
operators of at least that strength, which may still wait.  Sending these out completes the run, and
whatever waited before is untouched.
-/

namespace FormulaGrid.Token.Yard

/-! ## One token -/

inductive Taken (y : Yard) (t : Token) : Yard → Prop
  | operand (plain : t.symbol? = none) : Taken y t ⟨t :: y.output, y.waiting⟩
  | opening (opens : t.symbol? = some .leftParen) : Taken y t ⟨y.output, t :: y.waiting⟩
  | closing {inside below : List Token} {opening : Token} (closes : t.symbol? = some .rightParen)
    (opens : opensGroup opening) (within : ∀ w ∈ inside, opensGroup w = false)
    (waits : y.waiting = inside ++ opening :: below) :
    Taken y t ⟨inside.reverse ++ y.output, below⟩
  | operator {sent kept : List Token} {op : Operator} (binary : t.symbol? = some (.binary op))
    (goes : ∀ w ∈ sent, goesBefore op w) (stays : ∀ w ∈ kept.head?, goesBefore op w = false)
    (waits : y.waiting = sent ++ kept) : Taken y t ⟨sent.reverse ++ y.output, t :: kept⟩

theorem taken_of_accept {y z : Yard} {t : Token} (accepted : y.accept t = .ok z) : Taken y t z := by
  simp only [accept] at accepted
  split at accepted
  · rename_i plain
    cases accepted
    exact .operand plain
  · rename_i opens
    cases accepted
    exact .opening opens
  · rename_i closes
    split at accepted
    · cases accepted
    · rename_i opening below left
      cases accepted
      have waits := List.takeWhile_append_dropWhile (p := fun w => !opensGroup w) (l := y.waiting)
      have found : y.waiting.find? opensGroup = some opening := by
        rw [List.find?_eq_head?_dropWhile_not]
        exact congrArg List.head? left
      refine .closing closes (List.find?_some found) ?_ (waits.symm.trans (congrArg _ left))
      intro w member
      simpa using List.mem_takeWhile_imp member
  · rename_i op binary
    cases accepted
    refine .operator binary (fun w member => List.mem_takeWhile_imp member) ?_
      List.takeWhile_append_dropWhile.symm
    intro w (top : (y.waiting.dropWhile (goesBefore op)).head? = some w)
    have other := List.head?_dropWhile_not (goesBefore op) y.waiting
    rwa [top] at other

/-! ## Sending out -/

/-- Whether a waiting token is an operator of at least the given strength, or, at strength zero, any
symbol. -/
def binds (strength : Nat) (t : Token) : Bool :=
  match t.symbol? with
  | some symbol => strength ≤ symbol.precedence
  | none => false

theorem goesBefore_eq (op : Operator) : goesBefore op = binds op.precedence :=
  rfl

theorem binds_of_le {m n : Nat} (le : m ≤ n) {t : Token} (binding : binds n t) : binds m t := by
  simp only [binds] at *
  split
  · rename_i symbol found
    simp only [found, decide_eq_true_eq] at binding ⊢
    omega
  · rename_i found
    simp only [found, Bool.false_eq_true] at binding

theorem not_opensGroup_of_binds {t : Token} (binding : binds 1 t) : opensGroup t = false := by
  simp only [binds] at binding
  simp only [opensGroup]
  cases found : t.symbol? with
  | none => rfl
  | some symbol =>
    cases symbol with
    | leftParen => simp [found, Symbol.precedence] at binding
    | rightParen => rfl
    | binary op => rfl

theorem sendWhile_of_head {p : Token → Bool} {output waiting : List Token}
    (stays : ∀ w ∈ waiting.head?, p w = false) :
    sendWhile p ⟨output, waiting⟩ = ⟨output, waiting⟩ := by
  cases waiting with
  | nil => rfl
  | cons t ts =>
    have keep := stays t rfl
    simp [sendWhile, keep]

theorem sendWhile_cons {p : Token → Bool} {output waiting : List Token} {t : Token} (goes : p t) :
    sendWhile p ⟨output, t :: waiting⟩ = sendWhile p ⟨t :: output, waiting⟩ := by
  simp [sendWhile, goes]

/-- Who sends out more need not care whether some of it is gone already. -/
theorem sendWhile_sendWhile {p q : Token → Bool} (also : ∀ t, q t → p t) (y : Yard) :
    (y.sendWhile q).sendWhile p = y.sendWhile p := by
  obtain ⟨output, waiting⟩ := y
  induction waiting generalizing output with
  | nil => rfl
  | cons t ts ih =>
    by_cases goes : q t
    · rw [sendWhile_cons goes, sendWhile_cons (also t goes)]
      exact ih (t :: output)
    · have stays : sendWhile q ⟨output, t :: ts⟩ = ⟨output, t :: ts⟩ := by
        apply sendWhile_of_head
        intro w member
        cases member
        exact Bool.eq_false_iff.2 goes
      rw [stays]

/-! ## Ordered runs -/

/-- Where nothing on top binds at the strength, the yard takes the tokens, and puts them out in the
order given once the operators of this strength are sent out. -/
def Ordered (strength : Nat) (tokens order : List Token) : Prop :=
  ∀ y : Yard, (∀ w ∈ y.waiting.head?, binds strength w = false) →
    ∃ z, tokens.foldlM accept y = .ok z ∧
      z.sendWhile (binds strength) = ⟨order.reverse ++ y.output, y.waiting⟩

variable {strength : Nat} {tokens order : List Token}

theorem Ordered.operand {t : Token} (plain : t.symbol? = none) (strength : Nat) :
    Ordered strength [t] [t] := by
  intro y weak
  have accepted : accept y t = .ok ⟨t :: y.output, y.waiting⟩ := by
    rw [accept, plain]
  refine ⟨⟨t :: y.output, y.waiting⟩, ?_, sendWhile_of_head weak⟩
  rw [List.foldlM_cons, accepted]
  rfl

theorem Ordered.weaken (ordered : Ordered (strength + 1) tokens order) :
    Ordered strength tokens order := by
  intro y weak
  have weaker : ∀ w ∈ y.waiting.head?, binds (strength + 1) w = false := by
    intro w member
    cases binding : binds (strength + 1) w with
    | false => rfl
    | true =>
      have := binds_of_le (Nat.le_succ strength) binding
      rw [weak w member] at this
      cases this
  obtain ⟨z, run, sent⟩ := ordered y weaker
  refine ⟨z, run, ?_⟩
  rw [← sendWhile_sendWhile (fun t => binds_of_le (Nat.le_succ strength)), sent]
  exact sendWhile_of_head weak

/-- The tokens of a group are put out as they would be alone, and the parentheses not at all. -/
theorem Ordered.group {opening closing : Token} (opens : opening.symbol? = some .leftParen)
    (closes : closing.symbol? = some .rightParen) (ordered : Ordered 1 tokens order)
    (strength : Nat) : Ordered strength (opening :: (tokens ++ [closing])) order := by
  intro y weak
  obtain ⟨z, run, sent⟩ := ordered ⟨y.output, opening :: y.waiting⟩ fun w member => by
    cases member
    simp [binds, opens, Symbol.precedence]
  have opened : accept y opening = .ok ⟨y.output, opening :: y.waiting⟩ := by
    simp [accept, opens]
  have down : z.sendWhile (fun w => !opensGroup w) =
      ⟨order.reverse ++ y.output, opening :: y.waiting⟩ := by
    have also : ∀ t, binds 1 t → (!opensGroup t) = true := fun t binding => by
      rw [not_opensGroup_of_binds binding]
      rfl
    rw [← sendWhile_sendWhile also, sent]
    apply sendWhile_of_head
    intro w member
    cases member
    simp [opensGroup, opens]
  have closed : accept z closing = .ok ⟨order.reverse ++ y.output, y.waiting⟩ := by
    simp [accept, closes, down]
  refine ⟨_, ?_, sendWhile_of_head weak⟩
  rw [List.foldlM_cons, opened]
  change (tokens ++ [closing]).foldlM accept _ = _
  rw [List.foldlM_append, run]
  change [closing].foldlM accept z = _
  rw [List.foldlM_cons, closed]
  rfl

/-- What waits of the left run goes out before the operator, and what waits of the right one after
it has come. -/
theorem Ordered.more {op : Operator} (level : op.precedence = strength) {t : Token}
    (symbol : t.symbol? = some (.binary op)) {left right order₁ order₂ : List Token}
    (ordered₁ : Ordered strength left order₁) (ordered₂ : Ordered (strength + 1) right order₂) :
    Ordered strength (left ++ t :: right) (order₁ ++ order₂ ++ [t]) := by
  subst level
  intro y weak
  obtain ⟨z, run, sent⟩ := ordered₁ y weak
  have accepted : accept z t = .ok ⟨order₁.reverse ++ y.output, t :: y.waiting⟩ := by
    simp [accept, symbol, goesBefore_eq, sent]
  have weaker : ∀ w ∈ (t :: y.waiting).head?, binds (op.precedence + 1) w = false := by
    intro w member
    cases member
    simp only [binds, symbol, Symbol.precedence]
    exact decide_eq_false (Nat.not_succ_le_self op.precedence)
  obtain ⟨z', run', sent'⟩ := ordered₂ ⟨order₁.reverse ++ y.output, t :: y.waiting⟩ weaker
  -- an operator of its own strength stays below the right operand, and goes out with the run
  refine ⟨z', ?_, ?_⟩
  · rw [List.foldlM_append, run]
    change (t :: right).foldlM accept z = _
    rw [List.foldlM_cons, accepted]
    exact run'
  · have binding : binds op.precedence t = true := by
      simp [binds, symbol, Symbol.precedence]
    rw [← sendWhile_sendWhile (fun t => binds_of_le (Nat.le_succ op.precedence)), sent',
      sendWhile_cons binding]
    refine (sendWhile_of_head weak).trans ?_
    simp

/-! ## Whole formulas -/

theorem close_of_sendWhile {z : Yard} {output : List Token}
    (sent : z.sendWhile (binds 1) = ⟨output, []⟩) : z.close = .ok output.reverse := by
  obtain ⟨done, waiting⟩ := z
  obtain ⟨out, rest⟩ := Yard.mk.inj sent
  have all : ∀ t ∈ waiting, binds 1 t := List.dropWhile_eq_nil_iff.1 rest
  have noGroup : waiting.any opensGroup = false := by
    rw [List.any_eq_false]
    intro t member
    rw [not_opensGroup_of_binds (all t member)]
    exact Bool.false_ne_true
  have whole : waiting.takeWhile (binds 1) = waiting := List.takeWhile_eq_self_iff.2 all
  rw [close, noGroup, ← out]
  simp [whole]

theorem reversePolish_of_ordered (ordered : Ordered 1 tokens order) :
    reversePolish tokens = .ok order := by
  obtain ⟨z, run, sent⟩ := ordered {} fun w member => by cases member
  rw [reversePolish, run]
  change z.close = _
  rw [close_of_sendWhile sent]
  simp

end FormulaGrid.Token.Yard
