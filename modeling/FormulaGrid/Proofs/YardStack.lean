import FormulaGrid.Proofs.Acceptance
import Mathlib.Data.List.Chain

/-! # Which of two tokens leaves the yard first

This is settled when the yard takes the later of the two.  Either the earlier one is out by then and
comes first, or the later one lies above it on the stack and comes first.  The operators of a group
lie on the stack in rising strength, so the strengths tell which of the two it is.
-/

namespace FormulaGrid.Token

namespace Yard

variable {y z : Yard} {t e : Token} {tokens order above below : List Token} {p q : Operator}

/-! ## What is settled -/

/-- The tokens, without the parentheses, in the order in which they come out if no more are taken. -/
def listing (y : Yard) : List Token :=
  (y.output.reverse ++ y.waiting).filter fun t => !t.isParenthesis

/-- A token comes in between what is out and what waits, and changes the order of no others. -/
theorem Taken.listing_sublist (taken : Taken y t z) : y.listing.Sublist z.listing := by
  cases taken with
  | operand plain =>
    refine List.Sublist.filter _ ?_
    simp
  | opening opens =>
    refine List.Sublist.filter _ ?_
    simp
  | @closing inside below opening closes opens within waits =>
    have parenthesis : opening.isParenthesis := by
      simp only [opensGroup] at opens
      rw [isParenthesis, opens, Bool.true_or]
    simp [listing, waits, parenthesis]
  | operator binary goes stays waits =>
    refine List.Sublist.filter _ ?_
    simp [waits]

theorem listing_sublist_of_foldlM (run : tokens.foldlM accept y = .ok z)
    (closed : z.close = .ok order) : y.listing.Sublist order := by
  have settled : y.listing.Sublist z.listing := by
    refine foldlM_invariant (fun z => y.listing.Sublist z.listing) (List.Sublist.refl _) run ?_
    intro t x x' before accepted
    exact before.trans (taken_of_accept accepted).listing_sublist
  simp only [close] at closed
  split at closed
  · cases closed
  · cases closed
    exact settled.trans List.filter_sublist

theorem Taken.output_subset (taken : Taken y t z) : y.output ⊆ z.output := by
  cases taken with
  | operand plain => exact List.subset_cons_self t y.output
  | opening opens => exact List.Subset.refl y.output
  | closing closes opens within waits => exact List.subset_append_right _ y.output
  | operator binary goes stays waits => exact List.subset_append_right _ y.output

theorem output_subset_of_foldlM (run : tokens.foldlM accept y = .ok z) : y.output ⊆ z.output := by
  refine foldlM_invariant (fun z => y.output ⊆ z.output) (List.Subset.refl _) run ?_
  intro t x x' before accepted
  exact List.Subset.trans before (taken_of_accept accepted).output_subset

/-! ## Strengths on the stack -/

/-- How tightly a token binds; an open parenthesis, and an operand, does not at all. -/
def strength (t : Token) : Nat :=
  match t.symbol? with
  | some symbol => symbol.precedence
  | none => 0

theorem strength_binary (binary : t.symbol? = some (.binary p)) : strength t = p.precedence := by
  rw [strength, binary]
  rfl

theorem goesBefore_iff : goesBefore p t ↔ p.precedence ≤ strength t := by
  have positive := one_le_precedence p
  simp only [goesBefore, strength]
  cases t.symbol? with
  | none => simp only [Bool.false_eq_true, false_iff]; omega
  | some symbol => exact decide_eq_true_iff

/-- Down to the next open parenthesis, every token on the stack is stronger than the one below. -/
def Rising (waiting : List Token) : Prop :=
  waiting.IsChain fun upper lower => opensGroup upper ∨ strength lower < strength upper

theorem Rising.suffix {kept : List Token} (rising : Rising tokens) (rest : kept <:+ tokens) :
    Rising kept :=
  List.IsChain.suffix rising rest

theorem Taken.rising (taken : Taken y t z) (rising : Rising y.waiting) : Rising z.waiting := by
  cases taken with
  | operand plain => exact rising
  | opening opens =>
    have group : opensGroup t := by simp [opensGroup, opens]
    exact List.isChain_cons.2 ⟨fun w _ => .inl group, rising⟩
  | @closing inside below opening closes opens within waits =>
    rw [waits] at rising
    exact rising.suffix ((List.suffix_cons opening below).trans (List.suffix_append inside _))
  | @operator sent kept op binary goes stays waits =>
    rw [waits] at rising
    refine List.isChain_cons.2 ⟨fun w top => .inr ?_, rising.suffix (List.suffix_append sent kept)⟩
    have weaker : ¬ op.precedence ≤ strength w := by
      rw [← goesBefore_iff, stays w top]
      exact Bool.false_ne_true
    rw [strength_binary binary]
    exact Nat.not_le.1 weaker

theorem rising_of_foldlM (run : tokens.foldlM accept {} = .ok y) : Rising y.waiting := by
  have start : Rising (Yard.waiting {}) := List.isChain_nil
  refine foldlM_invariant (fun y => Rising y.waiting) start run ?_
  intro t x x' rising accepted
  exact (taken_of_accept accepted).rising rising

/-- What lies above a token in its group is stronger. -/
theorem Rising.lt_strength (rising : Rising (above ++ e :: below)) (inside : openings above = 0) :
    ∀ w ∈ above, strength e < strength w := by
  rw [openings_eq_zero_iff] at inside
  induction above with
  | nil => simp
  | cons upper above ih =>
    rw [List.forall_mem_cons] at inside
    obtain ⟨next, rising⟩ := List.isChain_cons.1 rising
    have others := ih rising inside.2
    refine List.forall_mem_cons.2 ⟨?_, others⟩
    have stronger : ∀ w ∈ (above ++ e :: below).head?, strength w < strength upper := by
      intro w top
      simpa [inside.1] using next w top
    cases above with
    | nil => exact stronger e rfl
    | cons w above => exact (others w List.mem_cons_self).trans (stronger w rfl)

/-! ## How long an operator waits -/

/-- An operator that has come lies on top. -/
theorem Taken.exists_kept (taken : Taken y t z) (binary : t.symbol? = some (.binary q)) :
    ∃ kept, z.waiting = t :: kept := by
  cases taken with
  | operand plain => simp [binary] at plain
  | opening opens => simp [binary] at opens
  | closing closes opens within waits => simp [binary] at closes
  | operator arrived goes stays waits => exact ⟨_, rfl⟩

/-- An operator waits on, below what comes to lie above it, unless an operator of its group comes
that is not stronger. -/
theorem Taken.waits (taken : Taken y t z) (stack : y.waiting = above ++ e :: below)
    (binary : e.symbol? = some (.binary p)) (inside : closings [t] ≤ openings above) :
    (∃ above', z.waiting = above' ++ e :: below) ∨
      openings above = 0 ∧ e ∈ z.output ∧
        ∃ q, t.symbol? = some (.binary q) ∧ q.precedence ≤ p.precedence := by
  cases taken with
  | operand plain => exact .inl ⟨above, stack⟩
  | opening opens => exact .inl ⟨t :: above, by rw [stack, List.cons_append]⟩
  | @closing inner under opening closes opens within waits =>
    rw [waits, List.append_eq_append_iff] at stack
    rcases stack with ⟨more, rfl, split⟩ | ⟨more, rfl, -⟩
    · cases more with
      | nil =>
        cases split
        simp [opensGroup, binary] at opens
      | cons w more =>
        cases split
        exact .inl ⟨more, rfl⟩
    · have none : openings above = 0 :=
        openings_eq_zero_iff.2 fun w member => within w (List.mem_append_left more member)
      simp [closings, closesGroup, closes, none] at inside
  | @operator sent kept q arrived goes stays waits =>
    rw [waits, List.append_eq_append_iff] at stack
    rcases stack with ⟨more, rfl, rfl⟩ | ⟨more, rfl, split⟩
    · exact .inl ⟨t :: more, rfl⟩
    · cases more with
      | nil =>
        cases split
        exact .inl ⟨[t], rfl⟩
      | cons w more =>
        cases split
        have sent : goesBefore q e := goes e (by simp)
        have none : openings above = 0 := openings_eq_zero_iff.2 fun w member =>
          not_opensGroup_of_goesBefore (goes w (List.mem_append_left _ member))
        refine .inr ⟨none, by simp, q, arrived, ?_⟩
        rw [← strength_binary binary]
        exact goesBefore_iff.1 sent

/-- An operator waits while the groups behind it are closed, unless an operator of its own group
comes that is not stronger. -/
theorem waits_or_sent (run : tokens.foldlM accept y = .ok z)
    (stack : y.waiting = above ++ e :: below) (binary : e.symbol? = some (.binary p))
    (inside : matched (openings above) tokens = true) :
    (∃ above', z.waiting = above' ++ e :: below ∧ openings above' = 0) ∨
      e ∈ z.output ∧ ∃ front t back q, tokens = front ++ t :: back ∧
        matched (openings above) front = true ∧ t.symbol? = some (.binary q) ∧
        q.precedence ≤ p.precedence := by
  induction tokens generalizing y above with
  | nil =>
    cases run
    exact .inl ⟨above, stack, beq_iff_eq.1 inside⟩
  | cons t tokens ih =>
    obtain ⟨next, accepted, run⟩ := exists_of_foldlM_cons run
    rw [matched_cons, Bool.and_eq_true, decide_eq_true_iff] at inside
    obtain ⟨possible, later⟩ := inside
    have taken := taken_of_accept accepted
    rcases taken.waits stack binary possible with ⟨above', stack'⟩ | ⟨none, out, q, weak⟩
    · have count := taken.openings_eq
      rw [stack, stack', openings_append, openings_append] at count
      have left : openings above + openings [t] - closings [t] = openings above' := by omega
      rw [left] at later
      rcases ih run stack' later with waiting | ⟨out, front, t', back, q, rfl, within, weak⟩
      · exact .inl waiting
      · refine .inr ⟨out, t :: front, t', back, q, rfl, ?_, weak⟩
        rw [matched_cons, left, within, decide_eq_true possible, Bool.and_true]
    · refine .inr ⟨output_subset_of_foldlM run out, [], t, tokens, q, rfl, ?_, weak⟩
      rw [none]
      rfl

end Yard

/-! ## The order of two tokens -/

open Yard

variable {front between back order : List Token} {e t : Token} {p q : Operator}

/-- The yard before and behind a token, and what is settled by then. -/
theorem exists_stop (ordered : reversePolish (front ++ t :: back) = .ok order) :
    ∃ y z : Yard, front.foldlM accept {} = .ok y ∧ Taken y t z ∧ Rising z.waiting ∧
      z.listing.Sublist order := by
  obtain ⟨last, run, closed⟩ := exists_of_bind_eq_ok ordered
  obtain ⟨y, before, rest⟩ := exists_of_foldlM_append run
  obtain ⟨z, accepted, behind⟩ := exists_of_foldlM_cons rest
  have taken := taken_of_accept accepted
  exact ⟨y, z, before, taken, taken.rising (rising_of_foldlM before),
    listing_sublist_of_foldlM behind closed⟩

theorem pair_sublist {as bs : List Token} (first : e ∈ as) (second : t ∈ bs) :
    [e, t].Sublist (as ++ bs) :=
  (List.singleton_sublist.2 first).append (List.singleton_sublist.2 second)

/-- Two tokens come out in the order in which they are listed. -/
theorem sublist_of_listing {z : Yard} (settled : z.listing.Sublist order)
    (pair : [e, t].Sublist (z.output.reverse ++ z.waiting)) (first : e.isParenthesis = false)
    (second : t.isParenthesis = false) : [e, t].Sublist order := by
  have kept := pair.filter fun t => !t.isParenthesis
  simp only [List.filter_cons, first, second, Bool.not_false, if_true, List.filter_nil] at kept
  exact kept.trans settled

/-- An operand comes out before every later operand or operator. -/
theorem operand_first (ordered : reversePolish (front ++ t :: back) = .ok order)
    (member : e ∈ front) (operand : e.isOperand) (plain : t.isParenthesis = false) :
    [e, t].Sublist order := by
  obtain ⟨y, z, before, taken, -, settled⟩ := exists_stop ordered
  have out : e ∈ y.output.reverse := by
    have among : e ∈ y.output.reverse.filter isOperand := by
      rw [(keeps_of_foldlM before).operands]
      exact List.mem_filter.2 ⟨member, operand⟩
    exact (List.mem_filter.1 among).1
  refine sublist_of_listing settled ?_ (isParenthesis_of_isOperand operand) plain
  cases taken with
  | operand plain =>
    rw [List.reverse_cons, List.append_assoc]
    exact pair_sublist out List.mem_cons_self
  | opening opens => simp [isParenthesis, opens] at plain
  | closing closes opens within waits => simp [isParenthesis, closes] at plain
  | operator binary goes stays waits =>
    rw [List.reverse_append, List.reverse_reverse, List.append_assoc]
    exact pair_sublist out (List.mem_append_right _ List.mem_cons_self)

theorem isParenthesis_of_binary (binary : t.symbol? = some (.binary q)) :
    t.isParenthesis = false := by
  simp [isParenthesis, binary]

/-- An operator that has come and lies above another one of its group is stronger. -/
theorem Yard.Taken.stronger {y z : Yard} (taken : Taken y t z) (rising : Rising z.waiting)
    (first : e.symbol? = some (.binary p)) (second : t.symbol? = some (.binary q))
    (other : e ≠ t) {above below : List Token} (waits : z.waiting = above ++ e :: below)
    (group : openings above = 0) : [t, e].Sublist z.waiting ∧ p.precedence < q.precedence := by
  obtain ⟨kept, top⟩ := taken.exists_kept second
  have lower := (waits ▸ rising).lt_strength group
  rw [top] at waits
  cases above with
  | nil => exact absurd (List.cons.inj waits).1.symm other
  | cons w more =>
    obtain ⟨rfl, rfl⟩ := List.cons.inj waits
    have looser := lower t List.mem_cons_self
    rw [strength_binary first, strength_binary second] at looser
    refine ⟨?_, looser⟩
    simp [top]

/-- When an operator has come, an earlier one of its group is out, sent by the later one or by one
between the two that is not stronger, or lies below the later one, which is stronger. -/
theorem out_or_below (ordered : reversePolish (front ++ e :: (between ++ t :: back)) = .ok order)
    (first : e.symbol? = some (.binary p)) (second : t.symbol? = some (.binary q))
    (other : e ≠ t) (group : matched 0 between = true) :
    ([e, t].Sublist order ∧ (q.precedence ≤ p.precedence ∨
      ∃ inner w rest r, between = inner ++ w :: rest ∧ matched 0 inner = true ∧
        w.symbol? = some (.binary r) ∧ r.precedence ≤ p.precedence)) ∨
      [t, e].Sublist order ∧ p.precedence < q.precedence := by
  rw [← List.cons_append, ← List.append_assoc] at ordered
  obtain ⟨y, z, before, taken, rising, settled⟩ := exists_stop ordered
  obtain ⟨start, -, run⟩ := exists_of_foldlM_append before
  obtain ⟨next, accepted, run⟩ := exists_of_foldlM_cons run
  obtain ⟨below, stack⟩ := (taken_of_accept accepted).exists_kept first
  have plain₁ := isParenthesis_of_binary first
  have plain₂ := isParenthesis_of_binary second
  have sooner : e ∈ z.output → [e, t].Sublist order := fun out => by
    obtain ⟨kept, top⟩ := taken.exists_kept second
    refine sublist_of_listing settled ?_ plain₁ plain₂
    exact pair_sublist (List.mem_reverse.2 out) (top ▸ List.mem_cons_self)
  have alone : next.waiting = [] ++ e :: below := stack
  rcases waits_or_sent run alone first group with ⟨above, waits, inside⟩ | ⟨out, sent⟩
  · have possible : closings [t] ≤ openings above := by
      simp [closings, closesGroup, second]
    rcases taken.waits waits first possible with ⟨above', waits'⟩ | ⟨-, out, q', arrived, weak⟩
    · have none : openings [t] = 0 := by simp [openings, opensGroup, second]
      have count := taken.openings_eq
      rw [waits, waits', openings_append, openings_append] at count
      obtain ⟨pair, looser⟩ := taken.stronger rising first second other waits' (by omega)
      refine .inr ⟨sublist_of_listing settled ?_ plain₂ plain₁, looser⟩
      exact pair.trans (List.sublist_append_right _ _)
    · rw [second] at arrived
      cases arrived
      exact .inl ⟨sooner out, .inl weak⟩
  · exact .inl ⟨sooner (taken.output_subset out), .inr sent⟩

/-- Of two operators of a group the earlier one comes out first if it is at least as strong. -/
theorem tighter_first (ordered : reversePolish (front ++ e :: (between ++ t :: back)) = .ok order)
    (first : e.symbol? = some (.binary p)) (second : t.symbol? = some (.binary q))
    (other : e ≠ t) (group : matched 0 between = true) (tighter : q.precedence ≤ p.precedence) :
    [e, t].Sublist order := by
  rcases out_or_below ordered first second other group with ⟨sooner, -⟩ | ⟨-, looser⟩
  · exact sooner
  · omega

/-- Of two operators of a group the later one comes out first if it is stronger than the earlier one
and so is every operator of the group between them. -/
theorem looser_last (ordered : reversePolish (front ++ e :: (between ++ t :: back)) = .ok order)
    (first : e.symbol? = some (.binary p)) (second : t.symbol? = some (.binary q))
    (other : e ≠ t) (group : matched 0 between = true) (looser : p.precedence < q.precedence)
    (stronger : ∀ inner w rest r, between = inner ++ w :: rest → matched 0 inner = true →
      w.symbol? = some (.binary r) → p.precedence < r.precedence) :
    [t, e].Sublist order := by
  rcases out_or_below ordered first second other group with ⟨-, weak | sent⟩ | ⟨later, -⟩
  · omega
  · obtain ⟨inner, w, rest, r, split, inside, binary, weak⟩ := sent
    have := stronger inner w rest r split inside binary
    omega
  · exact later

end FormulaGrid.Token
