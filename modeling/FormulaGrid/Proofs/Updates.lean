import FormulaGrid.Proofs.Session

namespace FormulaGrid

open Relation

variable {rows columns : Nat}

namespace Sheet

variable {s t : Sheet rows columns} {o : Place rows columns} {text : String}
  {updates : List (Update rows columns)}

/-- The places of the updates are those of the cascade on the sheet that the call leaves. -/
theorem cascade_of_setText (linked : s.Linked)
    (succeeds : setText o.address text s = .ok updates t) :
    t.cascade o = .ok (updates.map Update.place) := by
  obtain ⟨order, cascade, rfl, -⟩ := setText_ok linked succeeds
  have places : (order.map fun p => (⟨p, (t.cell p).value⟩ : Update rows columns)).map
      Update.place = order := by
    rw [List.map_map]
    exact List.map_id order
  rw [places]
  exact cascade

theorem value_of_mem_updates (linked : s.Linked)
    (succeeds : setText o.address text s = .ok updates t) {u : Update rows columns}
    (member : u ∈ updates) : u.value = (t.cell u.place).value := by
  obtain ⟨order, -, rfl, -⟩ := setText_ok linked succeeds
  obtain ⟨p, -, rfl⟩ := List.mem_map.1 member
  rfl

end Sheet

namespace Session

/-- The updates of a call that succeeds start with the edited cell, name no cell twice, name exactly
the cells that can be reached from it along the dependents, name each behind its precedents, and
carry the values that the cells then have; every other cell keeps its value. -/
theorem updates_exact {session : Session rows columns} (reachable : Reachable session)
    {o : Place rows columns} {text : String} {updates : List (Update rows columns)}
    {t : Sheet rows columns}
    (succeeds : Sheet.setText o.address text session.sheet = .ok updates t) :
    (updates.map Update.place).head? = some o ∧
    (updates.map Update.place).Nodup ∧
    (∀ p, p ∈ updates.map Update.place ↔ ReflTransGen t.Feeds o p) ∧
    (∀ i j (hi : i < updates.length) (hj : j < updates.length),
      updates[i].place ∈ (t.cell updates[j].place).precedents → i < j) ∧
    (∀ u ∈ updates, u.value = (t.cell u.place).value) ∧
    (∀ p, p ∉ updates.map Update.place → (t.cell p).value = (session.sheet.cell p).value) := by
  have linked := linked_of_reachable reachable
  have cascade := Sheet.cascade_of_setText linked succeeds
  have settled := Cascade.order_settled cascade
  have edited := Sheet.edited_setText linked o text
  rw [succeeds, Sheet.after] at edited
  have members := Sheet.mem_cascade_iff cascade
  refine ⟨?_, settled.nodup, members, ?_, ?_, ?_⟩
  · obtain ⟨others, first⟩ := Cascade.order_head cascade
    rw [first, List.head?_cons]
  · intro i j hi hj precedent
    have feeds := (edited.linked.mirrored.mem_iff _ _).2 precedent
    apply settled.lt_of_feeds (by rwa [List.length_map]) (by rwa [List.length_map])
    simpa only [List.getElem_map] using feeds
  · exact fun u member => Sheet.value_of_mem_updates linked succeeds member
  · intro p other
    exact edited.values p fun reached => other ((members p).2 reached)

def forked : Session 1 3 :=
  (setText ⟨0, 0⟩ "=B1" { sheet := Sheet.blank 1 3 {} }).setText ⟨0, 2⟩ "=B1*2"

theorem reachable_forked : Reachable forked :=
  .called (.called (.created rfl) (.setText ⟨0, 0⟩ "=B1")) (.setText ⟨0, 2⟩ "=B1*2")

/-- A text in the middle is passed on to both sides. -/
theorem updates_exact_forked :
    ∃ updates t, Sheet.setText ⟨0, 1⟩ "none" forked.sheet = .ok updates t ∧
      (updates.map Update.place).head? = some ⟨0, 1⟩ ∧
      ∀ p, p ∈ updates.map Update.place ↔ ReflTransGen t.Feeds ⟨0, 1⟩ p := by
  have accepted : Sheet.succeeds (Sheet.setText ⟨0, 1⟩ "none" forked.sheet) = true := by
    decide +kernel
  obtain ⟨updates, t, succeeds⟩ := Sheet.exists_of_succeeds accepted
  obtain ⟨first, -, members, -⟩ := @updates_exact 1 3 forked reachable_forked ⟨0, 1⟩ _ _ _ succeeds
  exact ⟨updates, t, succeeds, first, members⟩

end Session

end FormulaGrid
