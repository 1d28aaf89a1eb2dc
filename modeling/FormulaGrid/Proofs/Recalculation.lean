import FormulaGrid.Sheet.Recalculation
import FormulaGrid.Proofs.CascadeOrder
import FormulaGrid.Proofs.Evaluation
import FormulaGrid.Proofs.SheetLinks

/-! # What setting a text does

Where every cell is linked as its text asks for, evaluating a cell changes its value and nothing
else.  The cascade is therefore worked off on the graph that it was taken from, and each of its
cells sees final values.
-/

namespace FormulaGrid.Sheet

open Relation

variable {rows columns : Nat}

/-! ## Consistent cells -/

abbrev values (s : Sheet rows columns) (p : Place rows columns) : String :=
  (s.cell p).value

/-- The value of the cell is what its own text prescribes under the values of the other cells. -/
def Consistent (s : Sheet rows columns) (p : Place rows columns) : Prop :=
  ∃ content, Content.read (s.cell p).text = .ok content ∧
    content.prescribed p s.values = some (s.cell p).value

abbrev Feeds (s : Sheet rows columns) : Place rows columns → Place rows columns → Prop :=
  Cascade.Feeds fun p => (s.cell p).dependents

/-- Every link is kept at both ends, and every cell is linked as its text asks for. -/
structure Linked (s : Sheet rows columns) : Prop where
  mirrored : s.Mirrored
  fits : ∀ p, s.Fits p

def referencesOf (home : Place rows columns) (text : String) : List (Place rows columns) :=
  match Content.read text with
  | .ok content => content.references home
  | .error _ => []

theorem referencesOf_eq {text : String} {content : Content} (read : Content.read text = .ok content)
    (home : Place rows columns) : referencesOf home text = content.references home := by
  rw [referencesOf, read]

theorem Linked.feeds_of_mem_referencesOf {s : Sheet rows columns} (linked : s.Linked)
    {p q : Place rows columns} (refers : q ∈ referencesOf p (s.cell p).text) : s.Feeds q p := by
  simp only [referencesOf] at refers
  split at refers
  · rename_i content read
    exact (linked.mirrored.mem_iff q p).2 ((linked.fits p).mem_precedents read refers)
  · cases refers

theorem Fits.consistent_iff {s t : Sheet rows columns} {p : Place rows columns} (fits : s.Fits p)
    (text : (t.cell p).text = (s.cell p).text) (value : (t.cell p).value = (s.cell p).value)
    (others : ∀ q ∈ (s.cell p).precedents, (t.cell q).value = (s.cell q).value) :
    t.Consistent p ↔ s.Consistent p := by
  have prescribed : ∀ content, Content.read (s.cell p).text = .ok content →
      content.prescribed p t.values = content.prescribed p s.values := by
    intro content read
    apply Content.prescribed_congr read
    intro q named
    exact others q (fits.mem_precedents read named)
  simp only [Consistent]
  rw [text, value]
  constructor
  · rintro ⟨content, read, computed⟩
    exact ⟨content, read, prescribed content read ▸ computed⟩
  · rintro ⟨content, read, computed⟩
    exact ⟨content, read, (prescribed content read).trans computed⟩

/-! ## New values on the same links -/

structure Revalued (ps : List (Place rows columns)) (s t : Sheet rows columns) : Prop where
  settings : t.settings = s.settings
  occupied : t.occupied = s.occupied
  cells : ∀ p, t.cell p = { s.cell p with value := (t.cell p).value }
  values : ∀ p, p ∉ ps → (t.cell p).value = (s.cell p).value

namespace Revalued

variable {ps qs : List (Place rows columns)} {s t u : Sheet rows columns}

theorem refl (s : Sheet rows columns) : Revalued [] s s :=
  ⟨rfl, rfl, fun _ => rfl, fun _ _ => rfl⟩

theorem trans (first : Revalued ps s t) (second : Revalued qs t u) : Revalued (ps ++ qs) s u where
  settings := second.settings.trans first.settings
  occupied := second.occupied.trans first.occupied
  cells p := by rw [second.cells, first.cells]
  values := by
    intro p apart
    rw [List.mem_append, not_or] at apart
    rw [second.values p apart.2, first.values p apart.1]

theorem text (revalued : Revalued ps s t) (p : Place rows columns) :
    (t.cell p).text = (s.cell p).text := by
  rw [revalued.cells]

theorem precedents (revalued : Revalued ps s t) (p : Place rows columns) :
    (t.cell p).precedents = (s.cell p).precedents := by
  rw [revalued.cells]

theorem dependents (revalued : Revalued ps s t) (p : Place rows columns) :
    (t.cell p).dependents = (s.cell p).dependents := by
  rw [revalued.cells]

theorem feeds (revalued : Revalued ps s t) : t.Feeds = s.Feeds := by
  funext p q
  exact congrArg (q ∈ ·) (revalued.dependents p)

theorem cascade (revalued : Revalued ps s t) (o : Place rows columns) :
    t.cascade o = s.cascade o := by
  simp only [Sheet.cascade, revalued.settings, revalued.dependents]

theorem fits (revalued : Revalued ps s t) {p : Place rows columns} (fits : s.Fits p) : t.Fits p :=
  fits.of_cell revalued.settings (revalued.text p) (revalued.precedents p)

theorem linked (revalued : Revalued ps s t) (linked : s.Linked) : t.Linked where
  mirrored := linked.mirrored.of_links revalued.dependents revalued.precedents
  fits p := revalued.fits (linked.fits p)

end Revalued

def withValue (s : Sheet rows columns) (p : Place rows columns) (value : String) :
    Sheet rows columns :=
  s.update p fun c => { c with value }

theorem revalued_withValue (s : Sheet rows columns) (p : Place rows columns) (value : String) :
    Revalued [p] s (s.withValue p value) where
  settings := rfl
  occupied := rfl
  cells q := by
    rw [withValue, cell_update]
    split <;> rfl
  values := by
    intro q apart
    rw [withValue, cell_update, if_neg fun same => apart (List.mem_singleton.2 same.symm)]

theorem value_withValue (s : Sheet rows columns) (p : Place rows columns) (value : String) :
    ((s.withValue p value).cell p).value = value := by
  rw [withValue, cell_update, if_pos rfl]

/-! ## Evaluating cells -/

theorem evaluateCell_eq (p : Place rows columns) (s : Sheet rows columns) :
    evaluateCell p s = match Content.read (s.cell p).text with
      | .error fault => .error fault s
      | .ok content => match content.prescribed p s.values with
        | none => .error .emptyExpression (s.link p (content.references p))
        | some value =>
          .ok ⟨p, value⟩ ((s.link p (content.references p)).withValue p value) := by
  simp only [evaluateCell]
  cases read : Content.read (s.cell p).text with
  | error fault => rfl
  | ok content =>
    have values : (s.link p (content.references p)).values = s.values :=
      funext fun q => value_link s p q _
    simp only [Content.value_eq_prescribed read, ← Sheet.values.eq_def, values]
    cases content.prescribed p s.values <;> rfl

theorem evaluateCell_of_prescribed {s : Sheet rows columns} (linked : s.Linked)
    {p : Place rows columns} {content : Content} {value : String}
    (read : Content.read (s.cell p).text = .ok content)
    (prescribed : content.prescribed p s.values = some value) :
    evaluateCell p s = .ok ⟨p, value⟩ (s.withValue p value) := by
  simp only [evaluateCell_eq, read, prescribed, (linked.fits p).link_eq linked.mirrored read]

/-- Evaluating a cell of a linked sheet leaves the sheet alone where the text fails, and otherwise
gives the cell its value. -/
theorem evaluateCell_cases {s : Sheet rows columns} (linked : s.Linked) (p : Place rows columns) :
    (∃ fault, Content.failure? (s.cell p).text = some fault ∧ evaluateCell p s = .error fault s) ∨
      Content.failure? (s.cell p).text = none ∧
        ∃ content value, Content.read (s.cell p).text = .ok content ∧
          content.prescribed p s.values = some value ∧
          evaluateCell p s = .ok ⟨p, value⟩ (s.withValue p value) := by
  cases read : Content.read (s.cell p).text with
  | error fault =>
    left
    refine ⟨fault, Content.failure?_of_error read, ?_⟩
    rw [evaluateCell_eq, read]
  | ok content =>
    have failure := Content.failure?_of_read read p s.values
    cases prescribed : content.prescribed p s.values with
    | none =>
      left
      rw [prescribed] at failure
      refine ⟨.emptyExpression, failure, ?_⟩
      simp only [evaluateCell_eq, read, prescribed, (linked.fits p).link_eq linked.mirrored read]
    | some value =>
      right
      rw [prescribed] at failure
      refine ⟨failure, content, value, rfl, prescribed, ?_⟩
      exact evaluateCell_of_prescribed linked read prescribed

theorem evaluateCell_of_failure {s : Sheet rows columns} (linked : s.Linked)
    {p : Place rows columns} {fault : Fault}
    (failure : Content.failure? (s.cell p).text = some fault) :
    evaluateCell p s = .error fault s := by
  rcases evaluateCell_cases linked p with ⟨own, failure', evaluated⟩ | ⟨computes, -⟩
  · rw [failure] at failure'
    cases failure'
    exact evaluated
  · rw [failure] at computes
    cases computes

theorem consistent_withValue {s : Sheet rows columns} (linked : s.Linked) {p : Place rows columns}
    {content : Content} {value : String} (read : Content.read (s.cell p).text = .ok content)
    (prescribed : content.prescribed p s.values = some value) :
    (s.withValue p value).Consistent p := by
  have revalued := revalued_withValue s p value
  refine ⟨content, (revalued.text p).symm ▸ read, ?_⟩
  rw [value_withValue, ← prescribed]
  apply Content.prescribed_congr read
  intro q named
  apply revalued.values
  rw [List.mem_singleton]
  rintro rfl
  exact linked.mirrored.irreflexive q ((linked.fits q).mem_precedents read named)

def after {α : Type} : EStateM.Result Fault (Sheet rows columns) α → Sheet rows columns
  | .ok _ s => s
  | .error _ s => s

theorem run_bind {α β : Type} (edit : Edit rows columns α) (next : α → Edit rows columns β)
    (s : Sheet rows columns) : (edit >>= next) s = match edit s with
      | .ok answer t => next answer t
      | .error fault t => .error fault t := by
  change EStateM.bind edit next s = _
  simp only [EStateM.bind]
  cases edit s <;> rfl

theorem mapM_evaluateCell_cons (p : Place rows columns) (ps : List (Place rows columns))
    (s : Sheet rows columns) : (p :: ps).mapM evaluateCell s = match evaluateCell p s with
      | .error fault t => .error fault t
      | .ok update t => match ps.mapM evaluateCell t with
        | .error fault u => .error fault u
        | .ok updates u => .ok (update :: updates) u := by
  rw [List.mapM_cons, run_bind]
  cases evaluateCell p s with
  | error fault t => rfl
  | ok update t =>
    dsimp only
    rw [run_bind]
    cases ps.mapM evaluateCell t <;> rfl

theorem revalued_mapM_evaluateCell {s : Sheet rows columns} (linked : s.Linked)
    (ps : List (Place rows columns)) : Revalued ps s (after (ps.mapM evaluateCell s)) := by
  induction ps generalizing s with
  | nil => exact .refl s
  | cons p ps ih =>
    rw [mapM_evaluateCell_cons]
    rcases evaluateCell_cases linked p with ⟨fault, -, failed⟩ | ⟨-, content, value, -, -, evaluated⟩
    · rw [failed]
      exact ⟨rfl, rfl, fun _ => rfl, fun _ _ => rfl⟩
    · rw [evaluated]
      have first := revalued_withValue s p value
      have rest := ih (first.linked linked)
      dsimp only
      cases run : ps.mapM evaluateCell (s.withValue p value) with
      | error fault s' =>
        rw [run] at rest
        exact first.trans rest
      | ok updates s' =>
        rw [run] at rest
        exact first.trans rest

/-- Where no cell is fed by a later one, each cell is left with what its text prescribes. -/
theorem mapM_evaluateCell_ok {s s' : Sheet rows columns} {ps : List (Place rows columns)}
    {updates : List (Update rows columns)} (linked : s.Linked)
    (apart : ps.Pairwise fun p q => ¬ s.Feeds q p) (nodup : ps.Nodup)
    (run : ps.mapM evaluateCell s = .ok updates s') :
    updates = ps.map (fun p => ⟨p, (s'.cell p).value⟩) ∧ ∀ p ∈ ps, s'.Consistent p := by
  induction ps generalizing s updates with
  | nil =>
    cases run
    exact ⟨rfl, fun _ member => by cases member⟩
  | cons p ps ih =>
    obtain ⟨before, apart⟩ := List.pairwise_cons.1 apart
    obtain ⟨fresh, nodup⟩ := List.nodup_cons.1 nodup
    rw [mapM_evaluateCell_cons] at run
    rcases evaluateCell_cases linked p with
      ⟨fault, -, failed⟩ | ⟨-, content, value, read, computed, evaluated⟩
    · rw [failed] at run
      cases run
    · rw [evaluated] at run
      dsimp only at run
      -- the links stay, so the rest is worked off on the graph that it was taken from
      have first := revalued_withValue s p value
      have linked₁ := first.linked linked
      have rest := revalued_mapM_evaluateCell linked₁ ps
      cases later : ps.mapM evaluateCell (s.withValue p value) with
      | error fault s₂ =>
        rw [later] at run
        cases run
      | ok others s₂ =>
        rw [later] at run rest
        cases run
        obtain ⟨others_eq, consistent⟩ := ih linked₁ (first.feeds ▸ apart) nodup later
        have kept : (s'.cell p).value = value := by
          rw [← value_withValue s p value]
          exact rest.values p fresh
        refine ⟨?_, List.forall_mem_cons.2 ⟨?_, consistent⟩⟩
        · rw [List.map_cons, kept, others_eq]
        · -- no later cell is a precedent of this one, so what it was computed from stays
          apply ((linked₁.fits p).consistent_iff (rest.text p) (rest.values p fresh) ?_).2
            (consistent_withValue linked read computed)
          intro q precedent
          apply rest.values
          intro member
          rw [first.precedents] at precedent
          exact before q member ((linked.mirrored.mem_iff q p).2 precedent)

/-! ## Setting a text -/

def withText (s : Sheet rows columns) (p : Place rows columns) (text : String) :
    Sheet rows columns :=
  (s.update p fun c => { c with text }).reindex p

theorem cell_withText (s : Sheet rows columns) (p q : Place rows columns) (text : String) :
    (s.withText p text).cell q =
      { s.cell q with text := if q = p then text else (s.cell q).text } := by
  rw [withText, cell_reindex, cell_update]
  by_cases same : p = q
  · rw [if_pos same, if_pos same.symm]
  · rw [if_neg same, if_neg (Ne.symm same)]

theorem text_withText (s : Sheet rows columns) (p : Place rows columns) (text : String) :
    ((s.withText p text).cell p).text = text := by
  rw [cell_withText]
  exact if_pos rfl

theorem settings_withText (s : Sheet rows columns) (p : Place rows columns) (text : String) :
    (s.withText p text).settings = s.settings := by
  rw [withText, settings_reindex, settings_update]

theorem locate_address (p : Place rows columns) : locate p.address = .ok p := by
  rw [locate, Place.ofAddress?_eq_some_iff.2 rfl]

theorem recalculate_eq (p : Place rows columns) (s : Sheet rows columns) :
    recalculate p s = match evaluateCell p s with
      | .error fault t => .error fault t
      | .ok first t => match t.cascade p with
        | .error fault => .error fault t
        | .ok order => match order.tail.mapM evaluateCell t with
          | .error fault u => .error fault u
          | .ok others u => .ok (first :: others) u := by
  rw [recalculate, run_bind]
  cases evaluateCell p s with
  | error fault t => rfl
  | ok first t =>
    dsimp only
    change (MonadExcept.ofExcept (t.cascade p) >>= _ : Edit rows columns _) t = _
    rw [run_bind]
    cases t.cascade p with
    | error fault => rfl
    | ok order =>
      dsimp only
      change (order.tail.mapM evaluateCell >>= _ : Edit rows columns _) t = _
      rw [run_bind]
      cases order.tail.mapM evaluateCell t <;> rfl

theorem mirrored_withText {s : Sheet rows columns} (linked : s.Linked) (p : Place rows columns)
    (text : String) : (s.withText p text).Mirrored :=
  linked.mirrored.of_links (fun q => by rw [cell_withText]) (fun q => by rw [cell_withText])

theorem fits_withText {s : Sheet rows columns} (linked : s.Linked) {p q : Place rows columns}
    (text : String) (other : q ≠ p) : (s.withText p text).Fits q := by
  apply (linked.fits q).of_cell (settings_withText s p text)
  · rw [cell_withText, if_neg other]
  · rw [cell_withText]

/-- A sheet on which a text was entered at `o`: new links lead to `o` alone, and new values stand
only where they can be reached from `o`. -/
structure Edited (s : Sheet rows columns) (o : Place rows columns) (text : String)
    (t : Sheet rows columns) : Prop where
  linked : t.Linked
  settings : t.settings = s.settings
  text : ∀ p, (t.cell p).text = if p = o then text else (s.cell p).text
  precedents : ∀ p, p ≠ o → (t.cell p).precedents = (s.cell p).precedents
  values : ∀ p, ¬ ReflTransGen t.Feeds o p → (t.cell p).value = (s.cell p).value

theorem Edited.revalue {s t u : Sheet rows columns} {o : Place rows columns} {text : String}
    {ps : List (Place rows columns)} (edited : Edited s o text t) (revalued : Revalued ps t u)
    (reached : ∀ p ∈ ps, ReflTransGen t.Feeds o p) : Edited s o text u where
  linked := revalued.linked edited.linked
  settings := revalued.settings.trans edited.settings
  text p := (revalued.text p).trans (edited.text p)
  precedents p other := (revalued.precedents p).trans (edited.precedents p other)
  values := by
    intro p unreached
    rw [revalued.feeds] at unreached
    rw [revalued.values p fun member => unreached (reached p member), edited.values p unreached]

theorem edited_withText {s : Sheet rows columns} (linked : s.Linked) (o : Place rows columns)
    {text : String} {fault : Fault} (unreadable : Content.read text = .error fault) :
    Edited s o text (s.withText o text) where
  linked := by
    refine ⟨mirrored_withText linked o text, ?_⟩
    intro p
    by_cases same : p = o
    · intro content read
      rw [cell_withText, if_pos same, unreadable] at read
      cases read
    · exact fits_withText linked text same
  settings := settings_withText s o text
  text p := by rw [cell_withText]
  precedents p _ := by rw [cell_withText]
  values p _ := by rw [cell_withText]

theorem edited_link {s : Sheet rows columns} (linked : s.Linked) (o : Place rows columns)
    {text : String} {content : Content} (read : Content.read text = .ok content) :
    Edited s o text ((s.withText o text).link o (content.references o)) where
  linked := by
    refine ⟨(mirrored_withText linked o text).link (home_notMem_references o content), ?_⟩
    intro p
    by_cases same : p = o
    · subst same
      exact fits_link ((text_withText s p text).symm ▸ read)
    · exact (fits_withText linked text same).link same _
  settings := by rw [settings_link, settings_withText]
  text p := by rw [text_link, cell_withText]
  precedents p other := by rw [precedents_link, if_neg other, cell_withText]
  values p _ := by rw [value_link, cell_withText]

/-- The sheet with a new text and, if it can be read, with its links: what a call does before it
computes a value. -/
def relink (s : Sheet rows columns) (o : Place rows columns) (text : String) : Sheet rows columns :=
  match Content.read text with
  | .error _ => s.withText o text
  | .ok content => (s.withText o text).link o (content.references o)

theorem edited_relink {s : Sheet rows columns} (linked : s.Linked) (o : Place rows columns)
    (text : String) : Edited s o text (s.relink o text) := by
  rw [relink]
  cases read : Content.read text with
  | error fault => exact edited_withText linked o read
  | ok content => exact edited_link linked o read

theorem text_relink {s : Sheet rows columns} (linked : s.Linked) (o : Place rows columns)
    (text : String) : ((s.relink o text).cell o).text = text := by
  rw [(edited_relink linked o text).text, if_pos rfl]

theorem value_relink (s : Sheet rows columns) (o p : Place rows columns) (text : String) :
    ((s.relink o text).cell p).value = (s.cell p).value := by
  rw [relink]
  split
  · rw [cell_withText]
  · rw [value_link, cell_withText]

theorem background_relink (s : Sheet rows columns) (o p : Place rows columns) (text : String) :
    ((s.relink o text).cell p).background = (s.cell p).background := by
  rw [relink]
  split
  · rw [cell_withText]
  · rw [background_link, cell_withText]

theorem occupied_relink (s : Sheet rows columns) (o : Place rows columns) (text : String) :
    (s.relink o text).occupied = (s.withText o text).occupied := by
  rw [relink]
  split
  · rfl
  · rw [occupied_link]

theorem precedents_relink (s : Sheet rows columns) (o p : Place rows columns) (text : String) :
    ((s.relink o text).cell p).precedents =
      if p = o then
        match Content.read text with
        | .error _ => (s.cell o).precedents
        | .ok content => Cell.enlistAll (content.references o)
            (if s.settings.dropStale then [] else (s.cell o).precedents)
      else (s.cell p).precedents := by
  rw [relink]
  by_cases same : p = o
  · subst same
    rw [if_pos rfl]
    cases Content.read text with
    | error fault => simp only [cell_withText]
    | ok content => simp only [precedents_link, if_true, settings_withText, cell_withText]
  · rw [if_neg same]
    split
    · rw [cell_withText]
    · rw [precedents_link, if_neg same, cell_withText]

/-- Setting a text links the cell anew; all that follows is a recalculation. -/
theorem setText_eq {s : Sheet rows columns} (linked : s.Linked) (o : Place rows columns)
    (text : String) : setText o.address text s = recalculate o (s.relink o text) := by
  have entered : setText o.address text s = recalculate o (s.withText o text) := by
    simp only [setText]
    rw [locate_address]
    rfl
  rw [entered]
  cases read : Content.read text with
  | error fault => rw [relink, read]
  | ok content =>
    -- the recalculation begins with these links, and makes them no second time
    have relinked := edited_relink linked o text
    have text_eq := text_relink linked o text
    have once : (s.relink o text).link o (content.references o) = s.relink o text :=
      (relinked.linked.fits o).link_eq relinked.linked.mirrored (text_eq.symm ▸ read)
    have links : (s.withText o text).link o (content.references o) = s.relink o text := by
      rw [relink, read]
    have values : (s.withText o text).values = (s.relink o text).values := by
      funext q
      rw [Sheet.values, Sheet.values, value_relink, cell_withText]
    have evaluated : evaluateCell o (s.withText o text) = evaluateCell o (s.relink o text) := by
      simp only [evaluateCell_eq, text_withText, text_eq, read, values, links, once]
    rw [recalculate_eq, recalculate_eq, evaluated]

theorem mem_cascade_iff {s : Sheet rows columns} {o : Place rows columns}
    {order : List (Place rows columns)} (cascade : s.cascade o = .ok order)
    (p : Place rows columns) : p ∈ order ↔ ReflTransGen s.Feeds o p :=
  Cascade.mem_order_iff cascade p

theorem acyclic_of_cascade {s : Sheet rows columns} {o p : Place rows columns}
    {order : List (Place rows columns)} (cascade : s.cascade o = .ok order)
    (reached : ReflTransGen s.Feeds o p) : ¬ TransGen s.Feeds p p :=
  (Cascade.order_settled cascade).acyclic ((mem_cascade_iff cascade p).2 reached)

/-! ## Recalculating a linked sheet -/

section Recalculate

variable {s : Sheet rows columns} {o : Place rows columns} {order : List (Place rows columns)}

/-- Where the cascade is refused, the cell itself is evaluated, and no other. -/
theorem recalculate_of_refusal (linked : s.Linked) {fault : Fault}
    (refused : s.cascade o = .error fault) :
    recalculate o s = match evaluateCell o s with
      | .error own t => .error own t
      | .ok _ t => .error fault t := by
  rw [recalculate_eq]
  rcases evaluateCell_cases linked o with
    ⟨own, -, failed⟩ | ⟨-, content, value, -, -, evaluated⟩
  · rw [failed]
  · rw [evaluated]
    dsimp only
    rw [(revalued_withValue s o value).cascade, refused]

/-- With its first cell, which is evaluated before the walk, a cascade is worked off in one run. -/
theorem recalculate_of_order (linked : s.Linked) (cascade : s.cascade o = .ok order) :
    recalculate o s = order.mapM evaluateCell s := by
  obtain ⟨rest, rfl⟩ := Cascade.order_head cascade
  rw [recalculate_eq, mapM_evaluateCell_cons]
  rcases evaluateCell_cases linked o with
    ⟨own, -, failed⟩ | ⟨-, content, value, -, -, evaluated⟩
  · rw [failed]
  · rw [evaluated]
    dsimp only
    rw [(revalued_withValue s o value).cascade, cascade]
    rfl

/-- A recalculation computes values, and those of cells that depend on its origin alone. -/
theorem revalued_recalculate (linked : s.Linked) (o : Place rows columns) :
    ∃ ps, Revalued ps s (after (recalculate o s)) ∧ ∀ p ∈ ps, ReflTransGen s.Feeds o p := by
  cases cascade : s.cascade o with
  | ok order =>
    rw [recalculate_of_order linked cascade]
    exact ⟨order, revalued_mapM_evaluateCell linked order,
      fun p => (mem_cascade_iff cascade p).1⟩
  | error fault =>
    rw [recalculate_of_refusal linked cascade]
    rcases evaluateCell_cases linked o with
      ⟨own, -, failed⟩ | ⟨-, content, value, -, -, evaluated⟩
    · rw [failed]
      exact ⟨[], .refl s, fun _ member => by cases member⟩
    · rw [evaluated]
      refine ⟨[o], revalued_withValue s o value, ?_⟩
      intro p member
      rw [List.mem_singleton.1 member]

end Recalculate

/-! ## What a call does -/

/-- What every call does, whether it succeeds or not. -/
theorem edited_setText {s : Sheet rows columns} (linked : s.Linked) (o : Place rows columns)
    (text : String) : Edited s o text (after (setText o.address text s)) := by
  have relinked := edited_relink linked o text
  obtain ⟨ps, revalued, reached⟩ := revalued_recalculate relinked.linked o
  rw [setText_eq linked]
  exact relinked.revalue revalued reached

/-- After a call the sheet differs in its values alone from what it was linked to. -/
theorem revalued_setText {s : Sheet rows columns} (linked : s.Linked) (o : Place rows columns)
    (text : String) :
    ∃ ps, Revalued ps (s.relink o text) (after (setText o.address text s)) := by
  obtain ⟨ps, revalued, -⟩ := revalued_recalculate (edited_relink linked o text).linked o
  rw [setText_eq linked]
  exact ⟨ps, revalued⟩

theorem precedents_setText {s : Sheet rows columns} (linked : s.Linked) (o p : Place rows columns)
    (text : String) :
    ((after (setText o.address text s)).cell p).precedents =
      if p = o then
        match Content.read text with
        | .error _ => (s.cell o).precedents
        | .ok content => Cell.enlistAll (content.references o)
            (if s.settings.dropStale then [] else (s.cell o).precedents)
      else (s.cell p).precedents := by
  obtain ⟨ps, revalued⟩ := revalued_setText linked o text
  rw [revalued.precedents, precedents_relink]

theorem background_setText {s : Sheet rows columns} (linked : s.Linked) (o p : Place rows columns)
    (text : String) :
    ((after (setText o.address text s)).cell p).background = (s.cell p).background := by
  obtain ⟨ps, revalued⟩ := revalued_setText linked o text
  rw [revalued.cells, background_relink]

/-- A call that succeeds gives every cell of the cascade the value that its text prescribes. -/
theorem setText_ok {s t : Sheet rows columns} (linked : s.Linked) {o : Place rows columns}
    {text : String} {updates : List (Update rows columns)}
    (succeeds : setText o.address text s = .ok updates t) :
    ∃ order, t.cascade o = .ok order ∧ updates = order.map (fun p => ⟨p, (t.cell p).value⟩) ∧
      ∀ p ∈ order, t.Consistent p := by
  have linked₁ := (edited_relink linked o text).linked
  rw [setText_eq linked] at succeeds
  cases cascade : (s.relink o text).cascade o with
  | error fault =>
    rw [recalculate_of_refusal linked₁ cascade] at succeeds
    split at succeeds <;> cases succeeds
  | ok order =>
    rw [recalculate_of_order linked₁ cascade] at succeeds
    have revalued := revalued_mapM_evaluateCell linked₁ order
    rw [succeeds] at revalued
    have settled := Cascade.order_settled cascade
    obtain ⟨updates_eq, consistent⟩ :=
      mapM_evaluateCell_ok linked₁ settled.pairwise settled.nodup succeeds
    exact ⟨order, revalued.cascade o ▸ cascade, updates_eq, consistent⟩

end FormulaGrid.Sheet
