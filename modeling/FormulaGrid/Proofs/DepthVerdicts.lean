import FormulaGrid.Proofs.CascadeDepth
import FormulaGrid.Proofs.Locality

namespace FormulaGrid

open Relation Cascade

variable {rows columns : Nat}

namespace Sheet

variable {s u : Sheet rows columns} {o : Place rows columns} {text : String}

/-- A call is refused for its depth where the walk on the graph that it leaves is. -/
theorem fault?_eq_tooDeep_iff (linked : s.Linked) (computes : Content.failure? text = none)
    {t : Sheet rows columns} (left : after (setText o.address text s) = t) :
    fault? (setText o.address text s) = some (.cascadeTooDeep s.settings.depthLimit) ↔
      order (fun p => (t.cell p).dependents) s.settings.depthLimit o =
        .error (.cascadeTooDeep s.settings.depthLimit) := by
  subst left
  rw [fault?_eq_some_iff_of_computes linked computes (.cascadeTooDeep _), cascade,
    (edited_setText linked o text).settings]

/-- What a call does to a list of dependents depends on its members, and not on their order. -/
theorem dependents_perm_setText (linked : s.Linked) (linked' : u.Linked)
    (settings : u.settings = s.settings)
    (perm : ∀ p, (u.cell p).dependents.Perm (s.cell p).dependents) (o p : Place rows columns)
    (text : String) :
    ((after (setText o.address text u)).cell p).dependents.Perm
      ((after (setText o.address text s)).cell p).dependents := by
  obtain ⟨ps, revalued⟩ := revalued_setText linked o text
  obtain ⟨ps', revalued'⟩ := revalued_setText linked' o text
  have precedent : p ∈ (u.cell o).precedents ↔ p ∈ (s.cell o).precedents := by
    rw [← linked.mirrored.mem_iff, ← linked'.mirrored.mem_iff, (perm p).mem_iff]
  rw [revalued.dependents, revalued'.dependents, dependents_relink, dependents_relink]
  cases Content.read text with
  | error fault => exact perm p
  | ok content =>
    simp only [settings, precedent, Cell.enlist, (perm p).mem_iff]
    split_ifs
    · exact perm p
    · exact (perm p).append_right [o]
    · exact (perm p).filter _
    · exact perm p

theorem feeds_of_perm {t : Sheet rows columns}
    (perm : ∀ p, (u.cell p).dependents.Perm (t.cell p).dependents) : u.Feeds = t.Feeds := by
  funext p q
  exact propext (perm p).mem_iff

end Sheet

namespace Session

/-- The verdict on the depth of a call whose text computes, where no cycle is in reach.  The call is
refused for its depth if and only if some leftmost chain from the edited cell has more cells than
the limit.  So it is refused where only long chains lead to some cell, and not where no chain is
long.  On a sheet that has the same links in another order it is refused just as well, unless short
chains and long ones lead to one cell. -/
theorem depth_verdict {session : Session rows columns} (reachable : Reachable session) {n : Nat}
    (limit : session.sheet.settings.depthLimit = n) (positive : 1 ≤ n) {o : Place rows columns}
    {text : String} (computes : Content.failure? text = none) {t : Sheet rows columns}
    (left : Sheet.after (Sheet.setText o.address text session.sheet) = t)
    (acyclic : ∀ p, ReflTransGen t.Feeds o p → ¬ TransGen t.Feeds p p) :
    (Sheet.fault? (Sheet.setText o.address text session.sheet) = some (.cascadeTooDeep n) ↔
      ∃ c cells, Leftmost (fun p => (t.cell p).dependents) o c cells ∧ n < cells.length) ∧
    (∀ c, ReflTransGen t.Feeds o c → (∀ cells, Route t.Feeds o c cells → n < cells.length) →
      Sheet.fault? (Sheet.setText o.address text session.sheet) = some (.cascadeTooDeep n)) ∧
    ((∀ c cells, Route t.Feeds o c cells → cells.length ≤ n) →
      Sheet.fault? (Sheet.setText o.address text session.sheet) ≠ some (.cascadeTooDeep n)) ∧
    ∀ other : Session rows columns, Reachable other →
      other.sheet.settings = session.sheet.settings →
      (∀ p, (other.sheet.cell p).dependents.Perm (session.sheet.cell p).dependents) →
      (∀ c, (∀ cells, Route t.Feeds o c cells → cells.length ≤ n) ∨
        ∀ cells, Route t.Feeds o c cells → n < cells.length) →
      (Sheet.fault? (Sheet.setText o.address text other.sheet) = some (.cascadeTooDeep n) ↔
        Sheet.fault? (Sheet.setText o.address text session.sheet) = some (.cascadeTooDeep n)) := by
  have linked := linked_of_reachable reachable
  subst limit
  have ample : max session.sheet.settings.depthLimit 1 = session.sheet.settings.depthLimit :=
    max_eq_left positive
  have verdict := Sheet.fault?_eq_tooDeep_iff linked computes left
  refine ⟨?_, ?_, ?_, ?_⟩
  · rw [verdict, order_tooDeep_iff acyclic, ample]
  · intro c reach far
    rw [verdict]
    apply tooDeep_of_far acyclic reach
    rw [ample]
    exact far
  · intro near refused
    obtain ⟨-, c, cells, leftmost, deep⟩ := order_deep (verdict.1 refused)
    have := near c cells leftmost.route
    omega
  · intro other reachable' settings perm uniform
    have linked' := linked_of_reachable reachable'
    obtain ⟨t', left'⟩ : ∃ t', Sheet.after (Sheet.setText o.address text other.sheet) = t' :=
      ⟨_, rfl⟩
    have feeds : t'.Feeds = t.Feeds := by
      subst left left'
      exact Sheet.feeds_of_perm fun p =>
        Sheet.dependents_perm_setText linked linked' settings perm o p text
    have verdict' := Sheet.fault?_eq_tooDeep_iff linked' computes left'
    rw [settings] at verdict'
    rw [verdict, verdict']
    exact order_tooDeep_iff_of_feeds acyclic (ample.symm ▸ uniform) feeds

/-- A cell that refers to its two neighbours, of which the second refers to the first.  The walk
from the first comes to the cell by way of the second. -/
def longFirst : Session 1 3 :=
  setText ⟨0, 1⟩ "=A1+C1" (setText ⟨0, 2⟩ "=A1" { sheet := Sheet.blank 1 3 { depthLimit := 2 } })

def shortFirst : Session 1 3 :=
  setText ⟨0, 2⟩ "=A1" (setText ⟨0, 1⟩ "=A1+C1" { sheet := Sheet.blank 1 3 { depthLimit := 2 } })

theorem reachable_longFirst : Reachable longFirst :=
  .called (.called (.created rfl) (.setText ⟨0, 2⟩ "=A1")) (.setText ⟨0, 1⟩ "=A1+C1")

theorem reachable_shortFirst : Reachable shortFirst :=
  .called (.called (.created rfl) (.setText ⟨0, 1⟩ "=A1+C1")) (.setText ⟨0, 2⟩ "=A1")

/-- The long way round has three cells, one more than the limit. -/
theorem depth_verdict_longFirst :
    Sheet.fault? (Sheet.setText ⟨0, 0⟩ "x" longFirst.sheet) = some (.cascadeTooDeep 2) := by
  obtain ⟨t, left⟩ : ∃ t, Sheet.after (Sheet.setText ⟨0, 0⟩ "x" longFirst.sheet) = t := ⟨_, rfl⟩
  have ordered : ∃ order', order (fun p => (t.cell p).dependents) 3 ⟨0, 0⟩ = .ok order' := by
    subst left
    exact ⟨[⟨0, 0⟩, ⟨0, 2⟩, ⟨0, 1⟩], by decide +kernel⟩
  have acyclic : ∀ p, ReflTransGen t.Feeds ⟨0, 0⟩ p → ¬ TransGen t.Feeds p p := by
    intro p reach
    obtain ⟨order', ordered⟩ := ordered
    exact (order_settled ordered).acyclic ((mem_order_iff ordered p).2 reach)
  obtain ⟨tooDeep, -⟩ := @depth_verdict 1 3 longFirst reachable_longFirst 2 (by decide +kernel)
    (by decide) ⟨0, 0⟩ "x" (by decide +kernel) t left acyclic
  have first : (t.cell ⟨0, 0⟩).dependents = [⟨0, 2⟩, ⟨0, 1⟩] := by
    subst left
    decide +kernel
  have second : (t.cell ⟨0, 2⟩).dependents = [⟨0, 1⟩] := by
    subst left
    decide +kernel
  have arrives : (⟨0, 1⟩ : Place 1 3) ∈ (t.cell ⟨0, 2⟩).dependents := by
    rw [second]
    exact List.mem_cons_self
  refine tooDeep.2 ⟨⟨0, 1⟩, [⟨0, 0⟩, ⟨0, 2⟩, ⟨0, 1⟩], ⟨?_, rfl, rfl⟩, by decide⟩
  refine .cons_cons ⟨[], _, first, ?_, .single arrives⟩
    (.cons_cons ⟨[], _, second, ?_, .refl⟩ (.singleton _))
  all_goals exact fun _ member => absurd member List.not_mem_nil

/-- On the cells entered the other way round the edit is accepted, though the same links have a
chain of three cells and no cycle, and though it is refused on the former. -/
theorem depth_overlooked :
    Reachable shortFirst ∧ shortFirst.sheet.settings.depthLimit = 2 ∧
      Content.failure? "x" = none ∧
      (∀ p, ReflTransGen (Sheet.after (Sheet.setText ⟨0, 0⟩ "x" shortFirst.sheet)).Feeds ⟨0, 0⟩ p →
        ¬ TransGen (Sheet.after (Sheet.setText ⟨0, 0⟩ "x" shortFirst.sheet)).Feeds p p) ∧
      List.IsChain (Sheet.after (Sheet.setText ⟨0, 0⟩ "x" shortFirst.sheet)).Feeds
        [⟨0, 0⟩, ⟨0, 2⟩, ⟨0, 1⟩] ∧
      Sheet.fault? (Sheet.setText ⟨0, 0⟩ "x" shortFirst.sheet) = none ∧
      Reachable longFirst ∧ longFirst.sheet.settings = shortFirst.sheet.settings ∧
      (∀ p, (longFirst.sheet.cell p).dependents.Perm (shortFirst.sheet.cell p).dependents) ∧
      Sheet.fault? (Sheet.setText ⟨0, 0⟩ "x" longFirst.sheet) = some (.cascadeTooDeep 2) := by
  have ordered : order (fun p => ((Sheet.after
      (Sheet.setText ⟨0, 0⟩ "x" shortFirst.sheet)).cell p).dependents) 3 ⟨0, 0⟩ =
      .ok [⟨0, 0⟩, ⟨0, 2⟩, ⟨0, 1⟩] := by
    decide +kernel
  have perm : ∀ p ∈ Place.all 1 3,
      (longFirst.sheet.cell p).dependents.Perm (shortFirst.sheet.cell p).dependents := by
    decide +kernel
  refine ⟨reachable_shortFirst, by decide +kernel, by decide +kernel, ?_, by decide +kernel,
    by decide +kernel, reachable_longFirst, by decide +kernel, fun p => perm p (Place.mem_all p),
    by decide +kernel⟩
  intro p reach
  exact (order_settled ordered).acyclic ((mem_order_iff ordered p).2 reach)

end Session

end FormulaGrid
