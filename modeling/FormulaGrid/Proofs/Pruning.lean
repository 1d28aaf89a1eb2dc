import FormulaGrid.Proofs.Occupied
import FormulaGrid.Proofs.UpToDate

/-! # Dropping stale links cannot be seen

A sheet that drops stale links has no more links than one that keeps them, so what succeeds on the
second succeeds on the first, and what is evaluated on the first is evaluated on the second.  As
both are up to date after calls that succeed, their texts determine their values, and a cell that
only the second evaluates again keeps its value.

One edit follows another if it succeeds where the other does, with an answer that suits.
-/

namespace FormulaGrid

open Relation

variable {rows columns : Nat}

/-! ## Histories -/

namespace Sheet

def observe (c : Call) : Edit rows columns (List (Update rows columns) × Sheet rows columns) := do
  let updates ← perform c
  return (updates, ← get)

end Sheet

/-- A call of a session is the call on its sheet. -/
theorem Session.sheet_call (session : Session rows columns) (c : Call) :
    (session.call c).sheet = Sheet.after (Sheet.perform c session.sheet) := by
  cases c with
  | setText a text => rfl
  | setBackground a background =>
    rw [Sheet.perform, Sheet.run_bind, call, setBackground]
    cases Sheet.setBackground a background session.sheet <;> rfl
  | clear => rfl
  | load records =>
    rw [Sheet.perform, Sheet.run_bind, call, load]
    cases Sheet.load records session.sheet <;> rfl

namespace Sheet

/-! ## Sheets with fewer links -/

/-- The cells hold the same, and `s` has no other links than `t`. -/
structure Trims (s t : Sheet rows columns) : Prop where
  text : ∀ p, (s.cell p).text = (t.cell p).text
  value : ∀ p, (s.cell p).value = (t.cell p).value
  background : ∀ p, (s.cell p).background = (t.cell p).background
  occupied : s.occupied = t.occupied
  dependents : ∀ p, (s.cell p).dependents ⊆ (t.cell p).dependents

/-- Both sheets are up to date and hold the same texts and colours, and `s` drops stale links under
an ample limit. -/
structure Matches (s t : Sheet rows columns) : Prop where
  upToDate : s.UpToDate
  upToDate' : t.UpToDate
  indexed : s.Indexed
  indexed' : t.Indexed
  drops : s.settings.dropStale = true
  ample : rows * columns ≤ s.settings.depthLimit
  text : ∀ p, (s.cell p).text = (t.cell p).text
  background : ∀ p, (s.cell p).background = (t.cell p).background

variable {s t : Sheet rows columns}

theorem Matches.feeds_le (same : Matches s t) : s.Feeds ≤ t.Feeds := by
  have linked := same.upToDate.linked
  have pruned := linked.pruned same.drops same.upToDate.computes
  exact pruned.feeds_le linked.mirrored same.upToDate'.linked fun p => .inr (same.text p)

theorem Matches.value (same : Matches s t) (p : Place rows columns) :
    (s.cell p).value = (t.cell p).value :=
  same.upToDate'.value_eq same.upToDate same.text p

theorem Matches.trims (same : Matches s t) : Trims s t where
  text := same.text
  value := same.value
  background := same.background
  occupied := same.indexed'.occupied_eq same.indexed fun p =>
    isEmpty_congr (same.text p) (same.background p)
  dependents p _ member := same.feeds_le p _ member

theorem matches_of_empty (drops : s.settings.dropStale = true)
    (ample : rows * columns ≤ s.settings.depthLimit)
    (empty : s.occupied = [] ∧ ∀ p, ∃ place, s.cell p = { place })
    (empty' : t.occupied = [] ∧ ∀ p, ∃ place, t.cell p = { place }) : Matches s t where
  upToDate := upToDate_of_empty empty.2
  upToDate' := upToDate_of_empty empty'.2
  indexed := indexed_of_empty empty.1 empty.2
  indexed' := indexed_of_empty empty'.1 empty'.2
  drops := drops
  ample := ample
  text p := by
    obtain ⟨place, eq⟩ := empty.2 p
    obtain ⟨place', eq'⟩ := empty'.2 p
    rw [eq, eq']
  background p := by
    obtain ⟨place, eq⟩ := empty.2 p
    obtain ⟨place', eq'⟩ := empty'.2 p
    rw [eq, eq']

/-! ## Edits that follow others -/

/-- Where `many` succeeds on a sheet, `few` succeeds on one that matches it, and the answers are
related. -/
def Follows {α β : Type} (R : α → β → Prop) (few : Edit rows columns α)
    (many : Edit rows columns β) : Prop :=
  ∀ s t, Matches s t → ∀ b t', many t = .ok b t' →
    ∃ a s', few s = .ok a s' ∧ Matches s' t' ∧ R a b

theorem follows_pure {α β : Type} {R : α → β → Prop} {a : α} {b : β} (related : R a b) :
    Follows R (pure a : Edit rows columns α) (pure b) := by
  intro s t same b' t' returned
  cases returned
  exact ⟨a, s, rfl, same, related⟩

theorem Follows.bind {α β γ δ : Type} {R : α → β → Prop} {Q : γ → δ → Prop}
    {few : Edit rows columns α} {many : Edit rows columns β} {next : α → Edit rows columns γ}
    {next' : β → Edit rows columns δ} (first : Follows R few many)
    (later : ∀ a b, R a b → Follows Q (next a) (next' b)) :
    Follows Q (few >>= next) (many >>= next') := by
  intro s t same d t' returned
  rw [run_bind] at returned
  cases ran : many t with
  | error fault u =>
    rw [ran] at returned
    cases returned
  | ok b u =>
    rw [ran] at returned
    obtain ⟨a, v, ran', same', related⟩ := first s t same b u ran
    obtain ⟨c, s', returned', same'', related'⟩ := later a b related v u same' d t' returned
    refine ⟨c, s', ?_, same'', related'⟩
    rw [run_bind, ran']
    exact returned'

theorem Follows.discard {α β : Type} {R : α → β → Prop} {few : Edit rows columns α}
    {many : Edit rows columns β} (first : Follows R few many) :
    Follows (fun _ _ => True) (discard few : Edit rows columns Unit) (discard many) := by
  intro s t same answer t' returned
  rw [Session.run_discard] at returned
  cases ran : many t with
  | error fault u =>
    rw [ran] at returned
    cases returned
  | ok b u =>
    rw [ran] at returned
    cases returned
    obtain ⟨a, s', ran', same', -⟩ := first s t same b _ ran
    refine ⟨(), s', ?_, same', trivial⟩
    rw [Session.run_discard, ran']

theorem Follows.mapM {α β : Type} {R : β → β → Prop} {edit : α → Edit rows columns β}
    (step : ∀ a, Follows R (edit a) (edit a)) (as : List α) :
    Follows (List.Forall₂ R) (as.mapM edit) (as.mapM edit) := by
  induction as with
  | nil =>
    rw [List.mapM_nil]
    exact follows_pure .nil
  | cons a as ih =>
    rw [List.mapM_cons]
    refine (step a).bind fun b b' first => ih.bind fun bs bs' rest => ?_
    exact follows_pure (.cons first rest)

/-! ## Each call follows itself -/

/-- What depends on a cell along fewer links depends on it along more, so there is no update that is
made on the first sheet alone. -/
theorem Matches.updates_subset (same : Matches s t) {s₀ t₀ : Sheet rows columns}
    (linked : s₀.Linked) (linked' : t₀.Linked) {o : Place rows columns} {text : String}
    {updates updates' : List (Update rows columns)}
    (succeeds : Sheet.setText o.address text s₀ = .ok updates s)
    (succeeds' : Sheet.setText o.address text t₀ = .ok updates' t) : updates ⊆ updates' := by
  obtain ⟨order, cascade, rfl, -⟩ := setText_ok linked succeeds
  obtain ⟨order', cascade', rfl, -⟩ := setText_ok linked' succeeds'
  intro u member
  obtain ⟨p, reached, rfl⟩ := List.mem_map.1 member
  rw [mem_cascade_iff cascade] at reached
  refine List.mem_map.2 ⟨p, ?_, ?_⟩
  · rw [mem_cascade_iff cascade']
    exact ReflTransGen.mono same.feeds_le _ _ reached
  · rw [same.value]

/-- The text succeeds on the sheet with fewer links, since it closes no cycle on the other. -/
theorem Matches.setText (same : Matches s t) {o : Place rows columns} {text : String}
    {updates' : List (Update rows columns)} {t' : Sheet rows columns}
    (succeeds' : setText o.address text t = .ok updates' t') :
    ∃ updates s', setText o.address text s = .ok updates s' ∧ Matches s' t' ∧
      updates ⊆ updates' := by
  have linked := same.upToDate.linked
  have linked' := same.upToDate'.linked
  have upToDate' := same.upToDate'.of_setText succeeds'
  have left' : after (Sheet.setText o.address text t) = t' := by
    rw [succeeds', after]
  subst left'
  have edited := edited_setText linked o text
  have edited' := edited_setText linked' o text
  have texts : ∀ p, ((after (Sheet.setText o.address text t)).cell p).text =
      if p = o then text else (s.cell p).text := by
    intro p
    rw [edited'.text, same.text]
  -- with the texts of the other sheet and links for them alone there is no cycle
  obtain ⟨updates, s', succeeds⟩ := upToDate'.exists_setText_ok linked same.drops same.ample texts
  have left : after (Sheet.setText o.address text s) = s' := by
    rw [succeeds, after]
  subst left
  have same' : Matches (after (Sheet.setText o.address text s))
      (after (Sheet.setText o.address text t)) :=
    { upToDate := same.upToDate.of_setText succeeds
      upToDate' := upToDate'
      indexed := same.indexed.setText linked o text
      indexed' := same.indexed'.setText linked' o text
      drops := edited.settings ▸ same.drops
      ample := edited.settings ▸ same.ample
      text := fun p => (edited.text p).trans (texts p).symm
      background := fun p => by
        rw [background_setText linked, background_setText linked', same.background] }
  exact ⟨updates, _, succeeds, same', same'.updates_subset linked linked' succeeds succeeds'⟩

theorem Matches.setBackground (same : Matches s t) (p : Place rows columns)
    (background : UInt32) :
    Matches (after (setBackground p.address background s))
      (after (setBackground p.address background t)) where
  upToDate := same.upToDate.setBackground p background
  upToDate' := same.upToDate'.setBackground p background
  indexed := same.indexed.setBackground p background
  indexed' := same.indexed'.setBackground p background
  drops := by rw [settings_setBackground, same.drops]
  ample := by
    rw [settings_setBackground]
    exact same.ample
  text q := by
    rw [cell_setBackground, cell_setBackground]
    exact same.text q
  background q := by
    rw [cell_setBackground, cell_setBackground]
    dsimp only
    rw [same.background q]

theorem follows_setText (a : Address) (text : String) :
    Follows (· ⊆ ·) (setText a text : Edit rows columns _) (setText a text) := by
  intro s t same updates t' succeeds
  cases located : (Place.ofAddress? a : Option (Place rows columns)) with
  | none =>
    rw [setText, locate, located] at succeeds
    cases succeeds
  | some o =>
    obtain rfl := Place.ofAddress?_eq_some_iff.1 located
    exact same.setText succeeds

theorem follows_setBackground (a : Address) (background : UInt32) :
    Follows (fun _ _ => True) (setBackground a background : Edit rows columns _)
      (setBackground a background) := by
  intro s t same answer t' succeeds
  cases located : (Place.ofAddress? a : Option (Place rows columns)) with
  | none =>
    rw [setBackground, locate, located] at succeeds
    cases succeeds
  | some p =>
    obtain rfl := Place.ofAddress?_eq_some_iff.1 located
    have left : after (setBackground p.address background t) = t' := by
      rw [succeeds, after]
    subst left
    refine ⟨(), after (setBackground p.address background s), ?_,
      same.setBackground p background, trivial⟩
    rw [setBackground_eq, after]

theorem follows_clear :
    Follows (fun _ _ => True) (modify clear : Edit rows columns _) (modify clear) := by
  intro s t same answer t' succeeds
  cases succeeds
  refine ⟨(), s.clear, rfl, ?_, trivial⟩
  exact matches_of_empty same.drops same.ample ⟨rfl, fun p => ⟨_, cell_clear s p⟩⟩
    ⟨rfl, fun p => ⟨_, cell_clear t p⟩⟩

theorem follows_enter (r : Record) :
    Follows (fun _ _ => True) (enter r : Edit rows columns _) (enter r) :=
  (follows_setBackground r.address r.background).bind fun _ _ _ =>
    (follows_setText r.address r.text).discard

theorem follows_load (records : List Record) :
    Follows (fun _ _ => True) (load records : Edit rows columns _) (load records) := by
  refine follows_clear.bind fun _ _ _ => ?_
  induction records with
  | nil => exact follows_pure trivial
  | cons r records ih => exact (follows_enter r).bind fun _ _ _ => ih

theorem follows_perform (c : Call) :
    Follows (· ⊆ ·) (perform c : Edit rows columns _) (perform c) := by
  cases c with
  | setText a text => exact follows_setText a text
  | setBackground a background =>
    exact (follows_setBackground a background).bind fun _ _ _ => follows_pure (List.Subset.refl [])
  | clear => exact follows_clear.bind fun _ _ _ => follows_pure (List.Subset.refl [])
  | load records =>
    exact (follows_load records).bind fun _ _ _ => follows_pure (List.Subset.refl [])

theorem follows_observe (c : Call) :
    Follows (fun few many => few.1 ⊆ many.1 ∧ Trims few.2 many.2)
      (observe c : Edit rows columns _) (observe c) := by
  refine (follows_perform c).bind fun updates updates' fewer => ?_
  intro s t same seen t' returned
  cases returned
  exact ⟨_, s, rfl, same, fewer, same.trims⟩

/-- A history of calls that succeeds on a new sheet with any settings, such as one that keeps stale
links, succeeds on a new sheet that drops them, if the limit of this one is no less than the number
of its cells.  After each call the cells hold the same on both and the same places are occupied; the
second sheet has no link that the first has not, and no update. -/
theorem pruning_unobservable {settings pruning : Settings} (drops : pruning.dropStale = true)
    (ample : rows * columns ≤ pruning.depthLimit) {history : List Call}
    {seen : List (List (Update rows columns) × Sheet rows columns)} {t : Sheet rows columns}
    (succeeds : history.mapM observe (blank rows columns settings) = .ok seen t) :
    ∃ seen' s, history.mapM observe (blank rows columns pruning) = .ok seen' s ∧
      List.Forall₂ (fun few many => few.1 ⊆ many.1 ∧ Trims few.2 many.2) seen' seen := by
  have new : Matches (blank rows columns pruning) (blank rows columns settings) :=
    matches_of_empty drops ample ⟨rfl, fun p => ⟨p, cell_blank pruning p⟩⟩
      ⟨rfl, fun p => ⟨p, cell_blank settings p⟩⟩
  obtain ⟨seen', s, succeeds', -, same⟩ :=
    Follows.mapM follows_observe history _ _ new seen t succeeds
  exact ⟨seen', s, succeeds', same⟩

def replaced : List Call :=
  [.setText ⟨0, 1⟩ "=A1", .setText ⟨0, 1⟩ "x", .setBackground ⟨0, 1⟩ 7, .setText ⟨0, 0⟩ "y"]

theorem pruning_unobservable_replaced :
    ∃ seen t seen' s, replaced.mapM observe (blank 1 2 ⟨false, 2⟩) = .ok seen t ∧
      replaced.mapM observe (blank 1 2 ⟨true, 2⟩) = .ok seen' s ∧
      List.Forall₂ (fun few many => few.1 ⊆ many.1 ∧ Trims few.2 many.2) seen' seen := by
  have accepted : Sheet.succeeds (replaced.mapM observe (blank 1 2 ⟨false, 2⟩)) = true := by
    decide +kernel
  obtain ⟨seen, t, succeeds⟩ := exists_of_succeeds accepted
  obtain ⟨seen', s, succeeds', same⟩ :=
    @pruning_unobservable 1 2 _ ⟨true, 2⟩ rfl (by decide) _ _ _ succeeds
  exact ⟨seen, t, seen', s, succeeds, succeeds', same⟩

end Sheet

end FormulaGrid
