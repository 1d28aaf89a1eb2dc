import FormulaGrid.Proofs.Session
import Mathlib.Data.List.Chain

/-! # Where stale values can stand

A call that fails leaves cells behind whose values their texts no longer prescribe.  They stay below
the cells whose last text was refused: each can be reached from such a cell along the dependents,
and every cycle goes through one.  A call at `o` only makes links that lead to `o`, so a path from
another cell either survives or goes through `o`, and then its end depends on `o`.
-/

namespace FormulaGrid

open Relation

variable {rows columns : Nat}

namespace Sheet

/-! ## Cycles -/

/-- Each cell feeds the next, and the last one the first. -/
def IsCycle (s : Sheet rows columns) : List (Place rows columns) → Prop
  | [] => False
  | p :: ps => List.IsChain s.Feeds (p :: ps ++ [p])

theorem IsCycle.transGen {s : Sheet rows columns} {cycle : List (Place rows columns)}
    (isCycle : s.IsCycle cycle) {p : Place rows columns} (member : p ∈ cycle) :
    TransGen s.Feeds p p := by
  cases cycle with
  | nil => cases member
  | cons first rest =>
    have chain : List.IsChain (TransGen s.Feeds) (first :: rest ++ [first]) :=
      List.IsChain.imp (fun _ _ feeds => .single feeds) isCycle
    obtain ⟨fromFirst, later⟩ := List.pairwise_cons.1 chain.pairwise
    obtain ⟨-, -, toFirst⟩ := List.pairwise_append.1 later
    rcases List.mem_cons.1 member with rfl | member
    · exact fromFirst p (List.mem_append_right rest List.mem_cons_self)
    · exact (toFirst p member first List.mem_cons_self).trans
        (fromFirst p (List.mem_append_left _ member))

theorem exists_isCycle {s : Sheet rows columns} {p : Place rows columns}
    (circular : TransGen s.Feeds p p) : ∃ cycle, s.IsCycle cycle := by
  obtain ⟨q, feeds, reach⟩ := TransGen.head'_iff.1 circular
  obtain ⟨ps, chain, last⟩ := List.exists_isChain_cons_of_relationReflTransGen reach
  refine ⟨p :: (q :: ps).dropLast, ?_⟩
  have whole : (q :: ps).dropLast ++ [p] = q :: ps := by
    rw [← last]
    exact List.dropLast_append_getLast _
  rw [IsCycle, List.cons_append, whole]
  exact .cons_cons feeds chain

theorem IsCycle.imp {s t : Sheet rows columns} {cycle : List (Place rows columns)}
    (isCycle : t.IsCycle cycle) (feeds : ∀ p, ∀ q ∈ cycle, t.Feeds p q → s.Feeds p q) :
    s.IsCycle cycle := by
  cases cycle with
  | nil => cases isCycle
  | cons first rest =>
    refine List.IsChain.imp_of_mem_imp ?_ isCycle
    intro p q _ member
    apply feeds p q
    simp only [List.mem_append, List.mem_cons, List.not_mem_nil, or_false] at member ⊢
    tauto

/-! ## Links and values beside an edit -/

namespace Edited

variable {s t : Sheet rows columns} {o : Place rows columns} {text : String}

theorem feeds_iff (edited : Edited s o text t) (linked : s.Linked) {p q : Place rows columns}
    (other : q ≠ o) : t.Feeds p q ↔ s.Feeds p q := by
  change q ∈ (t.cell p).dependents ↔ q ∈ (s.cell p).dependents
  rw [edited.linked.mirrored.mem_iff, linked.mirrored.mem_iff, edited.precedents q other]

/-- A path survives the edit, or its end depends on the edited cell. -/
theorem reach_or_reach (edited : Edited s o text t) (linked : s.Linked)
    {p q : Place rows columns} (reach : ReflTransGen s.Feeds q p) :
    ReflTransGen t.Feeds q p ∨ ReflTransGen t.Feeds o p := by
  induction reach with
  | refl => exact .inl .refl
  | @tail middle last _ feeds ih =>
    -- an edge survives unless it leads to the edited cell, and then the path may start there
    by_cases same : last = o
    · subst same
      exact .inr .refl
    · have feeds' := (edited.feeds_iff linked same).2 feeds
      exact ih.imp (·.tail feeds') (·.tail feeds')

theorem consistent_iff (edited : Edited s o text t) (linked : s.Linked) {p : Place rows columns}
    (unreached : ¬ ReflTransGen t.Feeds o p) : t.Consistent p ↔ s.Consistent p := by
  have other : p ≠ o := by
    rintro rfl
    exact unreached .refl
  apply (linked.fits p).consistent_iff
  · rw [edited.text, if_neg other]
  · exact edited.values p unreached
  · intro q precedent
    apply edited.values
    intro reached
    have feeds : t.Feeds q p :=
      (edited.feeds_iff linked other).2 ((linked.mirrored.mem_iff q p).2 precedent)
    exact unreached (reached.tail feeds)

theorem isCycle (edited : Edited s o text t) (linked : s.Linked)
    {cycle : List (Place rows columns)} (isCycle : t.IsCycle cycle) (avoids : o ∉ cycle) :
    s.IsCycle cycle := by
  apply isCycle.imp
  intro p q member feeds
  apply (edited.feeds_iff linked ?_).1 feeds
  rintro rfl
  exact avoids member

end Edited

end Sheet

/-! ## Confinement -/

namespace Session

/-- Stale values and cycles are found only where a text was refused. -/
structure Confined (session : Session rows columns) : Prop where
  linked : session.sheet.Linked
  stale : ∀ p, ¬ session.sheet.Consistent p →
    ∃ q, session.Failed q ∧ ReflTransGen session.sheet.Feeds q p
  cyclic : ∀ cycle, session.sheet.IsCycle cycle → ∃ q ∈ cycle, session.Failed q

theorem Confined.refuse {session : Session rows columns} (confined : session.Confined)
    {p : Place rows columns} {text : String}
    (refused : Sheet.succeeds (Sheet.setText p.address text session.sheet) = false) :
    (session.setText p.address text).Confined := by
  have edited := edited_setText confined.linked p text
  have failed : ∀ q, (session.setText p.address text).Failed q ↔ q = p ∨ session.Failed q := by
    intro q
    rw [failed_setText_iff]
    by_cases same : q = p
    · simp [same, refused]
    · simp [same]
  constructor
  · exact edited.linked
  · intro q stale
    by_cases reached : ReflTransGen (session.setText p.address text).sheet.Feeds p q
    · exact ⟨p, (failed p).2 (.inl rfl), reached⟩
    · rw [edited.consistent_iff confined.linked reached] at stale
      obtain ⟨r, old, reach⟩ := confined.stale q stale
      have survives := (edited.reach_or_reach confined.linked reach).resolve_right reached
      exact ⟨r, (failed r).2 (.inr old), survives⟩
  · intro cycle isCycle
    by_cases through : p ∈ cycle
    · exact ⟨p, through, (failed p).2 (.inl rfl)⟩
    · obtain ⟨r, member, old⟩ :=
        confined.cyclic cycle (edited.isCycle confined.linked isCycle through)
      exact ⟨r, member, (failed r).2 (.inr old)⟩

theorem Confined.accept {session : Session rows columns} (confined : session.Confined)
    {p : Place rows columns} {text : String} {updates : List (Update rows columns)}
    {t : Sheet rows columns}
    (accepted : Sheet.setText p.address text session.sheet = .ok updates t) :
    (session.setText p.address text).Confined := by
  have edited := edited_setText confined.linked p text
  obtain ⟨order, cascade, -, consistent⟩ := Sheet.setText_ok confined.linked accepted
  have sheet : (session.setText p.address text).sheet = t := by
    rw [setText, accepted, Sheet.after]
  have failed : ∀ q, (session.setText p.address text).Failed q ↔ q ≠ p ∧ session.Failed q := by
    intro q
    rw [failed_setText_iff, accepted]
    by_cases same : q = p
    · simp [same, Sheet.succeeds]
    · simp [same]
  rw [sheet] at edited
  constructor
  · rw [sheet]
    exact edited.linked
  · rw [sheet]
    intro q stale
    have unreached : ¬ ReflTransGen t.Feeds p q := fun reached =>
      stale (consistent q ((Sheet.mem_cascade_iff cascade q).2 reached))
    rw [edited.consistent_iff confined.linked unreached] at stale
    obtain ⟨r, old, reach⟩ := confined.stale q stale
    have survives := (edited.reach_or_reach confined.linked reach).resolve_right unreached
    -- the edited cell itself is forgiven, but then the path would start at it
    refine ⟨r, (failed r).2 ⟨?_, old⟩, survives⟩
    rintro rfl
    exact unreached survives
  · rw [sheet]
    intro cycle isCycle
    -- the cascade was ordered, so no cycle goes through the edited cell
    have avoids : p ∉ cycle := fun member =>
      Sheet.acyclic_of_cascade cascade .refl (isCycle.transGen member)
    obtain ⟨r, member, old⟩ :=
      confined.cyclic cycle (edited.isCycle confined.linked isCycle avoids)
    refine ⟨r, member, (failed r).2 ⟨?_, old⟩⟩
    rintro rfl
    exact avoids member

theorem Confined.setText {session : Session rows columns} (confined : session.Confined)
    (p : Place rows columns) (text : String) : (session.setText p.address text).Confined := by
  cases entered : Sheet.setText p.address text session.sheet with
  | ok updates t => exact confined.accept entered
  | error fault t => exact confined.refuse (by rw [entered]; rfl)

theorem Confined.consistent {session : Session rows columns} (confined : session.Confined)
    (accepted : ∀ q, ¬ session.Failed q) (p : Place rows columns) : session.sheet.Consistent p := by
  by_contra stale
  obtain ⟨q, failed, -⟩ := confined.stale p stale
  exact accepted q failed

theorem Confined.not_isCycle {session : Session rows columns} (confined : session.Confined)
    (accepted : ∀ q, ¬ session.Failed q) (cycle : List (Place rows columns)) :
    ¬ session.sheet.IsCycle cycle := by
  intro isCycle
  obtain ⟨q, -, failed⟩ := confined.cyclic cycle isCycle
  exact accepted q failed

theorem confined_of_empty {session : Session rows columns}
    (empty : ∀ p, ∃ place, session.sheet.cell p = { place }) : session.Confined where
  linked := Sheet.linked_of_empty empty
  stale := by
    intro p stale
    obtain ⟨place, eq⟩ := empty p
    have plain : Content.read "" = .ok (.plain "") := rfl
    exact absurd ⟨.plain "", by rw [eq]; exact plain, by rw [eq]; rfl⟩ stale
  cyclic := by
    intro cycle isCycle
    cases cycle with
    | nil => cases isCycle
    | cons p ps =>
      obtain ⟨place, eq⟩ := empty p
      obtain ⟨q, feeds, -⟩ := TransGen.head'_iff.1 (isCycle.transGen List.mem_cons_self)
      change q ∈ (session.sheet.cell p).dependents at feeds
      rw [eq] at feeds
      cases feeds

theorem Confined.recolour {session : Session rows columns} (confined : session.Confined)
    (p : Place rows columns) (background : UInt32) :
    (session.setBackground p.address background).Confined := by
  have cells := fun q => cell_setBackground session p q background
  have feeds : (session.setBackground p.address background).sheet.Feeds = session.sheet.Feeds := by
    funext q r
    simp only [Sheet.Feeds, Cascade.Feeds, cells]
  have consistent : ∀ q, (session.setBackground p.address background).sheet.Consistent q ↔
      session.sheet.Consistent q := by
    intro q
    apply (confined.linked.fits q).consistent_iff
    · rw [cells]
    · rw [cells]
    · intro r _
      rw [cells]
  constructor
  · exact linked_setBackground confined.linked p background
  · intro q stale
    rw [consistent] at stale
    rw [feeds]
    exact confined.stale q stale
  · intro cycle isCycle
    exact confined.cyclic cycle (isCycle.imp fun q r _ fed => feeds ▸ fed)

theorem confined_of_reachable {session : Session rows columns} (reachable : Reachable session) :
    session.Confined := by
  apply reachable.invariant (P := Confined)
  · exact fun session blank => confined_of_empty blank.cells
  · exact fun session p text confined => confined.setText p text
  · exact fun session p background confined => confined.recolour p background

/-- Every inconsistent cell depends on a cell whose last text was refused, every cycle holds such a
cell, and where there is none, all cells are consistent and no cell depends on itself. -/
theorem inconsistent_cells_confined {session : Session rows columns}
    (reachable : Reachable session) :
    (∀ p, ¬ session.sheet.Consistent p →
      ∃ q, session.Failed q ∧ ReflTransGen session.sheet.Feeds q p) ∧
    (∀ cycle, session.sheet.IsCycle cycle → ∃ q ∈ cycle, session.Failed q) ∧
    ((∀ q, ¬ session.Failed q) →
      (∀ p, session.sheet.Consistent p) ∧ ∀ cycle, ¬ session.sheet.IsCycle cycle) := by
  have confined := confined_of_reachable reachable
  refine ⟨confined.stale, confined.cyclic, ?_⟩
  exact fun accepted => ⟨confined.consistent accepted, confined.not_isCycle accepted⟩

def crossed : Session 1 2 :=
  (setText ⟨0, 0⟩ "=B1" { sheet := Sheet.blank 1 2 {} }).setText ⟨0, 1⟩ "=A1"

theorem reachable_crossed : Reachable crossed :=
  .called (.called (.created rfl) (.setText ⟨0, 0⟩ "=B1")) (.setText ⟨0, 1⟩ "=A1")

theorem isCycle_crossed : crossed.sheet.IsCycle [⟨0, 0⟩, ⟨0, 1⟩] := by
  let a : Place 1 2 := ⟨0, 0⟩
  let b : Place 1 2 := ⟨0, 1⟩
  have empty : @Reachable 1 2 { sheet := Sheet.blank 1 2 {} } := .created rfl
  have first := edited_setText (linked_of_reachable empty) a "=B1"
  have second : Sheet.Edited _ b "=A1" crossed.sheet := edited_setText first.linked b "=A1"
  have linked := second.linked
  have text_a : (crossed.sheet.cell a).text = "=B1" := by
    refine (second.text a).trans ?_
    rw [if_neg (by decide), first.text, if_pos rfl]
  have text_b : (crossed.sheet.cell b).text = "=A1" := by
    refine (second.text b).trans ?_
    rw [if_pos rfl]
  have feeds_a : crossed.sheet.Feeds b a := by
    apply linked.feeds_of_mem_referencesOf
    rw [text_a]
    decide +kernel
  have feeds_b : crossed.sheet.Feeds a b := by
    apply linked.feeds_of_mem_referencesOf
    rw [text_b]
    decide +kernel
  exact .cons_cons feeds_b (.cons_cons feeds_a (.singleton a))

/-- On a grid with a circle, some cell of the circle was refused. -/
theorem inconsistent_cells_confined_crossed :
    Reachable crossed ∧ crossed.sheet.IsCycle [⟨0, 0⟩, ⟨0, 1⟩] ∧
      ∃ q ∈ [(⟨0, 0⟩ : Place 1 2), ⟨0, 1⟩], crossed.Failed q :=
  ⟨reachable_crossed, isCycle_crossed,
    (inconsistent_cells_confined reachable_crossed).2.1 _ isCycle_crossed⟩

end Session

end FormulaGrid
