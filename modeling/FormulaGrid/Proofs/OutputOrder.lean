import FormulaGrid.Proofs.YardStack
import Mathlib.Data.List.FinRange
import Mathlib.Data.List.Perm.Basic

namespace FormulaGrid.Token

open Yard (opensGroup)

/-! ## Groups -/

def openBehind (place : Nat) (opened : List Nat) (t : Token) : List Nat :=
  match t.symbol? with
  | some .leftParen => place :: opened
  | some .rightParen => opened.tail
  | some (.binary _) | none => opened

/-- The places of the parentheses that are open behind tokens that begin at `place`. -/
def openPlaces (place : Nat) (opened : List Nat) : List Token → List Nat
  | [] => opened
  | t :: ts => openPlaces (place + 1) (openBehind place opened t) ts

/-- The innermost group around the token at a place, told by the place of its opening parenthesis;
none if the token stands outside all groups. -/
def group? (tokens : List Token) (place : Nat) : Option Nat :=
  (openPlaces 0 [] (tokens.take place)).head?

variable {tokens front between back order : List Token} {e t : Token} {place start i : Nat}
  {above opened : List Nat}

theorem openBehind_plain (plain : t.isParenthesis = false) : openBehind place opened t = opened := by
  simp only [isParenthesis, Bool.or_eq_false_iff, beq_eq_false_iff_ne] at plain
  rw [openBehind]
  split
  · exact absurd ‹_› plain.1
  · exact absurd ‹_› plain.2
  · rfl
  · rfl

theorem length_openBehind (place : Nat) (opened : List Nat) (t : Token) :
    (openBehind place opened t).length = opened.length + openings [t] - closings [t] := by
  simp only [openBehind]
  split <;> rename_i symbol <;> simp [openings, closings, opensGroup, closesGroup, symbol]

theorem mem_openBehind (member : i ∈ openBehind place opened t) : i ∈ opened ∨ i = place := by
  simp only [openBehind] at member
  split at member
  · exact (List.mem_cons.1 member).symm
  · exact .inl (List.mem_of_mem_tail member)
  · exact .inl member
  · exact .inl member

/-- An inner group was opened behind the outer ones. -/
theorem pairwise_openBehind (nested : (place :: opened).Pairwise (· > ·)) (t : Token) :
    ((place + 1) :: openBehind place opened t).Pairwise (· > ·) := by
  obtain ⟨later, inner⟩ := List.pairwise_cons.1 nested
  refine List.pairwise_cons.2 ⟨fun i member => ?_, ?_⟩
  · rcases mem_openBehind member with old | rfl
    · exact Nat.lt_succ_of_lt (later i old)
    · exact Nat.lt_succ_self i
  · simp only [openBehind]
    split
    · exact nested
    · exact inner.tail
    · exact inner
    · exact inner

/-- A token that closes none of the outer groups leaves them alone. -/
theorem openBehind_append (possible : closings [t] ≤ above.length) (place : Nat) (opened : List Nat) :
    openBehind place (above ++ opened) t = openBehind place above t ++ opened := by
  simp only [openBehind]
  split
  · rfl
  · rename_i closes
    cases above with
    | nil => simp [closings, closesGroup, closes] at possible
    | cons i above => rfl
  · rfl
  · rfl

theorem openPlaces_append (front back : List Token) (place : Nat) (opened : List Nat) :
    openPlaces place opened (front ++ back) =
      openPlaces (place + front.length) (openPlaces place opened front) back := by
  induction front generalizing place opened with
  | nil => rfl
  | cons t front ih =>
    rw [List.cons_append, openPlaces, ih, List.length_cons, Nat.add_assoc, Nat.add_comm 1]
    rfl

theorem le_of_mem_openPlaces (member : i ∈ openPlaces place opened tokens) :
    i ∈ opened ∨ place ≤ i := by
  induction tokens generalizing place opened with
  | nil => exact .inl member
  | cons t tokens ih =>
    rcases ih member with before | new
    · exact (mem_openBehind before).imp_right fun here => Nat.le_of_eq here.symm
    · exact .inr (Nat.le_of_succ_le new)

theorem pairwise_openPlaces (nested : (place :: opened).Pairwise (· > ·)) (tokens : List Token) :
    ((place + tokens.length) :: openPlaces place opened tokens).Pairwise (· > ·) := by
  induction tokens generalizing place opened with
  | nil => exact nested
  | cons t tokens ih =>
    rw [List.length_cons, Nat.add_comm tokens.length, ← Nat.add_assoc]
    exact ih (pairwise_openBehind nested t)

theorem matched_openPlaces (balanced : matched opened.length (front ++ back) = true) :
    matched (openPlaces place opened front).length back = true := by
  induction front generalizing place opened with
  | nil => exact balanced
  | cons t front ih =>
    rw [List.cons_append, matched_cons, Bool.and_eq_true] at balanced
    rw [← length_openBehind place] at balanced
    exact ih balanced.2

/-- Tokens whose parentheses match leave the groups open that were open before. -/
theorem openPlaces_of_matched (inside : matched above.length tokens = true) :
    openPlaces place (above ++ opened) tokens = opened := by
  induction tokens generalizing place above with
  | nil =>
    rw [List.length_eq_zero_iff.1 (beq_iff_eq.1 inside)]
    rfl
  | cons t tokens ih =>
    rw [matched_cons, Bool.and_eq_true, decide_eq_true_iff, ← length_openBehind place] at inside
    rw [openPlaces, openBehind_append inside.1]
    exact ih inside.2

/-- Where the innermost group is the same as before, the parentheses in between match. -/
theorem matched_of_openPlaces
    (same : (openPlaces place (above ++ opened) tokens).head? = opened.head?)
    (nested : (start :: opened).Pairwise (· > ·)) (since : ∀ i ∈ above, start ≤ i)
    (later : start ≤ place) (enough : matched (above ++ opened).length (tokens ++ back) = true) :
    matched above.length tokens = true := by
  obtain ⟨outer, -⟩ := List.pairwise_cons.1 nested
  induction tokens generalizing place above with
  | nil =>
    cases above with
    | nil => rfl
    | cons i above =>
      have old : i ∈ opened := List.mem_of_mem_head? (same ▸ rfl)
      have := outer i old
      have := since i List.mem_cons_self
      omega
  | cons t tokens ih =>
    rw [List.cons_append, matched_cons, Bool.and_eq_true, decide_eq_true_iff,
      ← length_openBehind place] at enough
    by_cases possible : closings [t] ≤ above.length
    · rw [openPlaces, openBehind_append possible] at same
      rw [openBehind_append possible] at enough
      have behind : ∀ i ∈ openBehind place above t, start ≤ i := fun i member => by
        rcases mem_openBehind member with old | rfl
        · exact since i old
        · exact later
      rw [matched_cons, ← length_openBehind place, ih same behind (by omega) enough.2,
        decide_eq_true possible]
      rfl
    · have closes : closesGroup t := by
        by_contra other
        simp [closings, other] at possible
      have none : above = [] := by
        simpa [closings, closes] using possible
      subst none
      cases opened with
      | nil => simp [closings, closes] at enough
      | cons i opened =>
        have left : openBehind place (i :: opened) t = opened := by
          rw [openBehind, eq_of_beq closes]
          rfl
        rw [List.nil_append, openPlaces, left] at same
        have again : i ∈ openPlaces (place + 1) opened tokens := List.mem_of_mem_head? (same ▸ rfl)
        have first := outer i List.mem_cons_self
        rcases le_of_mem_openPlaces again with within | new
        · have := List.rel_of_pairwise_cons nested.tail within
          omega
        · omega

/-- Two tokens stand in one group if and only if the parentheses between them match. -/
theorem group?_eq_iff (plain : e.isParenthesis = false)
    (balanced : matched 0 (front ++ e :: (between ++ back)) = true) :
    group? (front ++ e :: (between ++ back)) (front ++ e :: between).length =
        group? (front ++ e :: (between ++ back)) front.length ↔
      matched 0 between = true := by
  have unchanged : openPlaces 0 [] (front ++ [e]) = openPlaces 0 [] front := by
    rw [openPlaces_append, openPlaces, openBehind_plain plain]
    rfl
  have here : group? (front ++ e :: (between ++ back)) front.length =
      (openPlaces 0 [] (front ++ [e])).head? := by
    rw [group?, List.take_left, unchanged]
  have there : group? (front ++ e :: (between ++ back)) (front ++ e :: between).length =
      (openPlaces (front ++ [e]).length ([] ++ openPlaces 0 [] (front ++ [e])) between).head? := by
    rw [group?, ← List.cons_append, ← List.append_assoc, List.take_left, List.append_cons,
      openPlaces_append, Nat.zero_add, List.nil_append]
  rw [here, there]
  constructor
  · intro same
    have nested := pairwise_openPlaces (List.pairwise_singleton (· > ·) 0) (front ++ [e])
    rw [Nat.zero_add] at nested
    rw [List.append_cons] at balanced
    exact matched_of_openPlaces same nested (fun i member => absurd member List.not_mem_nil) le_rfl
      (matched_openPlaces balanced)
  · intro inside
    have within : matched ([] : List Nat).length between = true := inside
    rw [openPlaces_of_matched within]

/-! ## Two places -/

theorem exists_at (here : tokens[i]? = some e) :
    ∃ front back, tokens = front ++ e :: back ∧ front.length = i := by
  obtain ⟨bound, rfl⟩ := List.getElem?_eq_some_iff.1 here
  refine ⟨tokens.take i, tokens.drop (i + 1), ?_, List.length_take_of_le bound.le⟩
  rw [← List.drop_eq_getElem_cons bound, List.take_append_drop]

theorem exists_between {j : Nat} (behind : i < j) (here : tokens[i]? = some e)
    (there : tokens[j]? = some t) :
    ∃ front between back, tokens = front ++ e :: (between ++ t :: back) ∧ front.length = i ∧
      (front ++ e :: between).length = j := by
  obtain ⟨before, back, rfl, rfl⟩ := exists_at there
  rw [List.getElem?_append_left behind] at here
  obtain ⟨front, between, rfl, rfl⟩ := exists_at here
  exact ⟨front, between, back, by simp, rfl, rfl⟩

variable {j : Nat} {p q : Operator}

theorem operand_sooner (ordered : reversePolish tokens = .ok order) (behind : i < j)
    (here : tokens[i]? = some e) (there : tokens[j]? = some t) (operand : e.isOperand)
    (plain : t.isParenthesis = false) : [e, t].Sublist order := by
  obtain ⟨front, between, back, rfl, -, -⟩ := exists_between behind here there
  rw [← List.cons_append, ← List.append_assoc] at ordered
  exact operand_first ordered (by simp) operand plain

theorem tighter_sooner (ordered : reversePolish tokens = .ok order) (behind : i < j)
    (here : tokens[i]? = some e) (there : tokens[j]? = some t)
    (first : e.symbol? = some (.binary p)) (second : t.symbol? = some (.binary q))
    (other : e ≠ t) (same : group? tokens j = group? tokens i)
    (tighter : q.precedence ≤ p.precedence) : [e, t].Sublist order := by
  obtain ⟨front, between, back, rfl, rfl, rfl⟩ := exists_between behind here there
  have group := (group?_eq_iff (isParenthesis_of_binary first)
    (matched_of_reversePolish ordered)).1 same
  exact tighter_first ordered first second other group tighter

theorem looser_later (ordered : reversePolish tokens = .ok order) (behind : i < j)
    (here : tokens[i]? = some e) (there : tokens[j]? = some t)
    (first : e.symbol? = some (.binary p)) (second : t.symbol? = some (.binary q))
    (other : e ≠ t) (same : group? tokens j = group? tokens i)
    (looser : p.precedence < q.precedence)
    (stronger : ∀ k w r, i < k → k < j → tokens[k]? = some w → group? tokens k = group? tokens i →
      w.symbol? = some (.binary r) → p.precedence < r.precedence) :
    [t, e].Sublist order := by
  obtain ⟨front, between, back, rfl, rfl, rfl⟩ := exists_between behind here there
  have plain := isParenthesis_of_binary first
  have balanced := matched_of_reversePolish ordered
  have group := (group?_eq_iff plain balanced).1 same
  refine looser_last ordered first second other group looser ?_
  rintro inner w rest r rfl inside binary
  have regroup : (inner ++ w :: rest) ++ t :: back = inner ++ (w :: rest ++ t :: back) := by simp
  rw [regroup] at balanced stronger
  refine stronger (front ++ e :: inner).length w r (by simp) (by simp) ?_
    ((group?_eq_iff plain balanced).2 inside) binary
  rw [← List.cons_append, ← List.append_assoc, List.getElem?_append_right le_rfl, Nat.sub_self]
  rfl

/-! ## Nothing but the texts is read -/

namespace Yard

def map (h : Token → Token) (y : Yard) : Yard :=
  ⟨y.output.map h, y.waiting.map h⟩

theorem sendWhile_map {h : Token → Token} {p : Token → Bool} (alike : ∀ t, p (h t) = p t)
    (y : Yard) : (y.map h).sendWhile p = (y.sendWhile p).map h := by
  have alike : p ∘ h = p := funext alike
  simp only [sendWhile, map, List.takeWhile_map, List.dropWhile_map, alike, List.map_append,
    List.map_reverse]

end Yard

section Texts

variable {h : Token → Token} (same : ∀ t, (h t).text = t.text)

include same

theorem symbol?_map (t : Token) : (h t).symbol? = t.symbol? := by
  rw [symbol?, same, symbol?]

namespace Yard

theorem opensGroup_map (t : Token) : opensGroup (h t) = opensGroup t := by
  rw [opensGroup, symbol?_map same, opensGroup]

theorem accept_map (y : Yard) (t : Token) :
    (y.map h).accept (h t) = (y.accept t).map (Yard.map h) := by
  simp only [accept, symbol?_map same]
  split
  · rfl
  · rfl
  · rw [sendWhile_map fun t => by rw [opensGroup_map same]]
    cases left : (y.sendWhile fun w => !opensGroup w).waiting with
    | nil => simp [map, left, Except.map]
    | cons opening below => simp [map, left, Except.map]
  · rename_i op binary
    rw [sendWhile_map fun t => by rw [goesBefore, symbol?_map same, goesBefore]]
    rfl

theorem foldlM_accept_map (y : Yard) (tokens : List Token) :
    (tokens.map h).foldlM accept (y.map h) = (tokens.foldlM accept y).map (Yard.map h) := by
  induction tokens generalizing y with
  | nil => rfl
  | cons t tokens ih =>
    rw [List.map_cons, List.foldlM_cons, List.foldlM_cons, accept_map same]
    cases y.accept t with
    | error fault => rfl
    | ok z => exact ih z

theorem close_map (y : Yard) : (y.map h).close = y.close.map (List.map h) := by
  have alike : opensGroup ∘ h = opensGroup := funext (opensGroup_map same)
  simp only [close, map, List.any_map, alike]
  split
  · rfl
  · simp [Except.map]

end Yard

/-- Other tokens with the same texts are put in the same order. -/
theorem reversePolish_map (tokens : List Token) :
    reversePolish (tokens.map h) = (reversePolish tokens).map (List.map h) := by
  have run := Yard.foldlM_accept_map same {} tokens
  rw [reversePolish, reversePolish]
  change (tokens.map h).foldlM Yard.accept {} = _ at run
  rw [run]
  cases tokens.foldlM Yard.accept {} with
  | error fault => rfl
  | ok y => exact Yard.close_map same y

theorem openPlaces_map (place : Nat) (opened : List Nat) (tokens : List Token) :
    openPlaces place opened (tokens.map h) = openPlaces place opened tokens := by
  induction tokens generalizing place opened with
  | nil => rfl
  | cons t tokens ih =>
    have step : openBehind place opened (h t) = openBehind place opened t := by
      rw [openBehind, symbol?_map same, openBehind]
    rw [List.map_cons, openPlaces, openPlaces, step, ih]

theorem group?_map (tokens : List Token) (place : Nat) :
    group? (tokens.map h) place = group? tokens place := by
  rw [group?, ← List.map_take, openPlaces_map same, group?]

end Texts

/-! ## Tokens told apart -/

/-- The token at a place, with the place for its offset: no two of these are the same. -/
def mark (tokens : List Token) (i : Fin tokens.length) : Token :=
  ⟨tokens[i].text, i⟩

def marked (tokens : List Token) : List Token :=
  (List.finRange tokens.length).map (mark tokens)

def unmark (tokens : List Token) (t : Token) : Token :=
  { t with offset := (tokens[t.offset]?.map offset).getD 0 }

theorem mark_injective (tokens : List Token) : (mark tokens).Injective := by
  intro i j equal
  exact Fin.ext (congrArg offset equal)

theorem unmark_mark (tokens : List Token) (i : Fin tokens.length) :
    unmark tokens (mark tokens i) = tokens.get i := by
  simp [unmark, mark]

theorem map_unmark (tokens : List Token) (places : List (Fin tokens.length)) :
    (places.map (mark tokens)).map (unmark tokens) = places.map tokens.get := by
  rw [List.map_map]
  exact List.map_congr_left fun i _ => unmark_mark tokens i

theorem map_unmark_marked (tokens : List Token) : (marked tokens).map (unmark tokens) = tokens := by
  rw [marked, map_unmark, List.map_get_finRange]

theorem marked_at (tokens : List Token) (i : Fin tokens.length) :
    (marked tokens)[(i : Nat)]? = some (mark tokens i) := by
  simp [marked]

theorem group?_marked (tokens : List Token) (place : Nat) :
    group? (marked tokens) place = group? tokens place := by
  have same : ∀ t, (unmark tokens t).text = t.text := fun _ => rfl
  rw [← group?_map same, map_unmark_marked]

/-- Tokens leave the yard as the marked ones do, which tells the place of each. -/
theorem exists_places (ordered : reversePolish tokens = .ok order) :
    ∃ places : List (Fin tokens.length), order = places.map tokens.get ∧
      reversePolish (marked tokens) = .ok (places.map (mark tokens)) ∧
      places.Perm ((List.finRange tokens.length).filter fun i => !tokens[i].isParenthesis) := by
  have same : ∀ t, (unmark tokens t).text = t.text := fun _ => rfl
  have both := reversePolish_map same (marked tokens)
  rw [map_unmark_marked, ordered] at both
  cases run : reversePolish (marked tokens) with
  | error fault =>
    rw [run] at both
    cases both
  | ok sequence =>
    rw [run] at both
    cases both
    have perm := reversePolish_perm run
    rw [marked, List.filter_map] at perm
    have split : Relation.Comp (fun left right => left = right.map (mark tokens)) List.Perm sequence
        ((List.finRange tokens.length).filter fun i => !tokens[i].isParenthesis) := by
      rw [List.eq_map_comp_perm]
      exact perm
    obtain ⟨places, rfl, places_perm⟩ := split
    exact ⟨places, map_unmark tokens places, rfl, places_perm⟩

theorem sublist_places {places : List (Fin tokens.length)} {i j : Fin tokens.length}
    (pair : [mark tokens i, mark tokens j].Sublist (places.map (mark tokens))) :
    [i, j].Sublist places := by
  obtain ⟨listed, within, texts⟩ := List.sublist_map_iff.1 pair
  have equal : [i, j] = listed := List.map_injective_iff.2 (mark_injective tokens) texts
  exact equal ▸ within

/-! ## The order of the places -/

/-- How the places of tokens follow each other when the tokens are put in order. -/
structure Arranged (tokens : List Token) (places : List (Fin tokens.length)) : Prop where
  perm : places.Perm ((List.finRange tokens.length).filter fun i => !tokens[i].isParenthesis)
  operand (i j : Fin tokens.length) : i < j → tokens[i].isOperand →
    tokens[j].isParenthesis = false → [i, j].Sublist places
  /-- Of two operators in one group the earlier one comes before the later one if it binds at least
  as tightly. -/
  tighter (i j : Fin tokens.length) (p q : Operator) : i < j →
    tokens[i].symbol? = some (.binary p) → tokens[j].symbol? = some (.binary q) →
    group? tokens j = group? tokens i → q.precedence ≤ p.precedence → [i, j].Sublist places
  /-- It comes after the later one if it binds less tightly than that one and than every operator of
  the group between the two. -/
  looser (i j : Fin tokens.length) (p q : Operator) : i < j →
    tokens[i].symbol? = some (.binary p) → tokens[j].symbol? = some (.binary q) →
    group? tokens j = group? tokens i → p.precedence < q.precedence →
    (∀ (k : Fin tokens.length) (r : Operator), i < k → k < j →
      tokens[k].symbol? = some (.binary r) → group? tokens k = group? tokens i →
      p.precedence < r.precedence) →
    [j, i].Sublist places

theorem arranged_of_marked {places : List (Fin tokens.length)}
    (perm : places.Perm ((List.finRange tokens.length).filter fun i => !tokens[i].isParenthesis))
    (run : reversePolish (marked tokens) = .ok (places.map (mark tokens))) :
    Arranged tokens places where
  perm := perm
  operand i j behind operand plain :=
    sublist_places (operand_sooner run behind (marked_at tokens i) (marked_at tokens j) operand plain)
  tighter i j p q behind first second same tighter := by
    have other : mark tokens i ≠ mark tokens j := (mark_injective tokens).ne behind.ne
    rw [← group?_marked tokens, ← group?_marked tokens] at same
    exact sublist_places (tighter_sooner run behind (marked_at tokens i) (marked_at tokens j) first
      second other same tighter)
  looser i j p q behind first second same looser stronger := by
    have other : mark tokens i ≠ mark tokens j := (mark_injective tokens).ne behind.ne
    rw [← group?_marked tokens, ← group?_marked tokens] at same
    refine sublist_places (looser_later run behind (marked_at tokens i) (marked_at tokens j) first
      second other same looser ?_)
    intro k w r after before here group binary
    have bound : k < tokens.length := before.trans j.isLt
    rw [marked_at tokens ⟨k, bound⟩] at here
    cases here
    rw [group?_marked, group?_marked] at group
    exact stronger ⟨k, bound⟩ r after before binary group

/-- What leaves the yard is what it took without the parentheses, the operands in their order.  Each
place leaves once, and behind the operands that stand before it.  Of two operators in one group the
earlier one leaves first if it is at least as strong as the later one, and last if it is weaker than
that one and all between them. -/
theorem reversePolish_arranged (ordered : reversePolish tokens = .ok order) :
    order.Perm (tokens.filter fun t => !t.isParenthesis) ∧
      order.filter isOperand = tokens.filter isOperand ∧
      ∃ places : List (Fin tokens.length), order = places.map tokens.get ∧
        Arranged tokens places := by
  obtain ⟨places, places_eq, run, perm⟩ := exists_places ordered
  exact ⟨reversePolish_perm ordered, filter_reversePolish ordered, places, places_eq,
    arranged_of_marked perm run⟩

/-- Each of the tokens that are repeated has a place of its own.  Of the two subtractions the first
leaves behind the product; the second, which stands in a group, does not hold it back. -/
theorem reversePolish_arranged_repeated :
    ∃ places : List (Fin 9),
      reversePolish (["1", "-", "(", "1", "-", "1", ")", "*", "1"].map fun text => ⟨text, 0⟩) =
          .ok (places.map fun i =>
            ⟨["1", "-", "(", "1", "-", "1", ")", "*", "1"].get i, 0⟩) ∧
        [7, 1].Sublist places := by
  have ordered :
      reversePolish (["1", "-", "(", "1", "-", "1", ")", "*", "1"].map fun text => ⟨text, 0⟩) =
        .ok (["1", "1", "1", "-", "1", "*", "-"].map fun text => ⟨text, 0⟩) := by
    decide +kernel
  obtain ⟨-, -, places, listed, arranged⟩ := reversePolish_arranged ordered
  refine ⟨places, ordered.trans (congrArg Except.ok (listed.trans ?_)), ?_⟩
  · refine List.map_congr_left fun i _ => ?_
    rw [List.get_eq_getElem, List.getElem_map]
    rfl
  · refine arranged.looser (1 : Fin 9) (7 : Fin 9) .sub .mul (by decide) (by decide) (by decide)
      (by decide) (by decide) ?_
    intro k r after before binary group
    have opens : ∀ k : Fin 9, 1 < k → k < 7 →
        group? (["1", "-", "(", "1", "-", "1", ")", "*", "1"].map fun text => ⟨text, 0⟩) k = none →
        k = 2 := by
      decide
    obtain rfl : k = (2 : Fin 9) := opens k after before group
    cases binary

end FormulaGrid.Token
