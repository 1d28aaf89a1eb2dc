import FormulaGrid.Proofs.CycleVerdicts
import FormulaGrid.Proofs.FromScratch
import FormulaGrid.Proofs.LinkHistory

/-! # Sheets that are up to date

A sheet on which no text was refused is up to date: every cell has the value that its text
prescribes, and no cell depends on itself.  The texts then say all there is to say about the values,
and a call can fail for three reasons only: its own text fails, it closes a cycle, or a chain of
dependents is longer than the limit.
-/

namespace FormulaGrid

open Relation

variable {rows columns : Nat}

namespace Sheet

/-- Every cell has the value that its text prescribes, and none depends on itself. -/
structure UpToDate (s : Sheet rows columns) : Prop where
  linked : s.Linked
  consistent : ∀ p, s.Consistent p
  acyclic : ∀ p, ¬ TransGen s.Feeds p p

end Sheet

namespace Session

theorem Confined.upToDate {session : Session rows columns} (confined : session.Confined)
    (accepted : ∀ q, ¬ session.Failed q) : session.sheet.UpToDate where
  linked := confined.linked
  consistent := confined.consistent accepted
  acyclic p circular := by
    obtain ⟨cycle, isCycle⟩ := Sheet.exists_isCycle circular
    exact confined.not_isCycle accepted cycle isCycle

/-- A call that succeeds makes up for what was refused at its own cell. -/
theorem Confined.upToDate_of_setText {session : Session rows columns} (confined : session.Confined)
    {o : Place rows columns} (others : ∀ q, q ≠ o → ¬ session.Failed q) {text : String}
    {updates : List (Update rows columns)} {t : Sheet rows columns}
    (succeeds : Sheet.setText o.address text session.sheet = .ok updates t) : t.UpToDate := by
  have accepted : ∀ q, ¬ (session.setText o.address text).Failed q := by
    intro q
    rw [failed_setText_iff, succeeds]
    split
    · exact nofun
    · exact others q ‹_›
  have sheet : (session.setText o.address text).sheet = t := by
    rw [Session.setText, succeeds, Sheet.after]
  exact sheet ▸ (confined.accept succeeds).upToDate accepted

end Session

namespace Sheet

variable {s t : Sheet rows columns} {o : Place rows columns} {text : String}

/-! ## Calls on a sheet that is up to date -/

namespace UpToDate

/-- A session may begin with the sheet, as no text of it was refused. -/
theorem confined (upToDate : s.UpToDate) : Session.Confined { sheet := s } where
  linked := upToDate.linked
  stale p stale := absurd (upToDate.consistent p) stale
  cyclic cycle isCycle := by
    cases cycle with
    | nil => cases isCycle
    | cons p ps => exact absurd (isCycle.transGen List.mem_cons_self) (upToDate.acyclic p)

theorem computes (upToDate : s.UpToDate) (p : Place rows columns) :
    Content.failure? (s.cell p).text = none :=
  (upToDate.consistent p).failure?_eq_none

theorem of_setText (upToDate : s.UpToDate) {updates : List (Update rows columns)}
    (succeeds : setText o.address text s = .ok updates t) : t.UpToDate := by
  apply upToDate.confined.upToDate_of_setText _ succeeds
  rintro q - ⟨e, found, -⟩
  cases found

theorem setBackground (upToDate : s.UpToDate) (p : Place rows columns) (background : UInt32) :
    (after (setBackground p.address background s)).UpToDate := by
  apply (upToDate.confined.recolour p background).upToDate
  rintro q ⟨e, found, -⟩
  cases found

/-- The texts determine the values. -/
theorem value_eq (upToDate : s.UpToDate) (upToDate' : t.UpToDate)
    (text : ∀ p, (t.cell p).text = (s.cell p).text) (p : Place rows columns) :
    (t.cell p).value = (s.cell p).value := by
  have feeds : RefersTo s.texts ≤ s.Feeds :=
    fun _ _ refers => upToDate.linked.feeds_of_mem_referencesOf refers
  have wellFounded := wellFounded_of_acyclic fun q circular =>
    upToDate.acyclic q (TransGen.mono feeds q q circular)
  have texts : t.texts = s.texts := funext text
  have values := fromScratch_of_consistent upToDate.consistent wellFounded p
  have values' := fromScratch_of_consistent upToDate'.consistent (texts ▸ wellFounded) p
  rw [fromScratch_congr wellFounded (texts ▸ wellFounded) fun q _ => congrFun texts q,
    values] at values'
  exact (Option.some.inj values').symm

end UpToDate

theorem upToDate_of_empty (empty : ∀ p, ∃ place, s.cell p = { place }) : s.UpToDate := by
  have confined : Session.Confined { sheet := s } := Session.confined_of_empty empty
  apply confined.upToDate
  rintro q ⟨e, found, -⟩
  cases found

/-! ## When a call succeeds -/

theorem length_le_of_nodup {ps : List (Place rows columns)} (nodup : ps.Nodup) :
    ps.length ≤ rows * columns := by
  have indices := (nodup.map fun _ _ => Place.index_injective).length_le_card
  rwa [List.length_map, Fintype.card_fin] at indices

/-- Where every text computes and nothing depends on itself, a call fails by the limit or not at
all. -/
theorem setText_of_acyclic (linked : s.Linked)
    (computes : ∀ p, Content.failure? ((after (setText o.address text s)).cell p).text = none)
    (acyclic : ∀ p, ¬ TransGen (after (setText o.address text s)).Feeds p p) :
    (∃ updates t, setText o.address text s = .ok updates t) ∨
      s.settings.depthLimit < rows * columns ∧
        ∃ t, setText o.address text s = .error (.cascadeTooDeep s.settings.depthLimit) t := by
  have own := computes o
  rw [(edited_setText linked o text).text, if_pos rfl] at own
  cases returned : setText o.address text s with
  | ok updates t => exact .inl ⟨updates, t, rfl⟩
  | error fault t =>
    right
    have settings := (edited_setText linked o text).settings
    rw [returned, after] at computes acyclic settings
    rcases setText_error_of_computes linked returned own with ⟨refused, -⟩ | ⟨order, -, run⟩
    · rw [cascade, settings] at refused
      cases Cascade.order_refusal refused with
      | circular reach cycle => exact absurd cycle (acyclic _)
      | tooDeep chained nodup deep => exact ⟨deep.trans_le (length_le_of_nodup nodup), t, rfl⟩
    · obtain ⟨front, d, back, updates, -, -, failure⟩ :=
        mapM_evaluateCell_error (edited_relink linked o text).linked run
      rw [computes d] at failure
      cases failure

/-! ## Links without stale ones -/

/-- Every cell is linked to the cells that its text refers to, and to no others. -/
def Pruned (s : Sheet rows columns) : Prop :=
  ∀ p, (s.cell p).precedents = (referencesOf p (s.cell p).text).eraseDups

theorem enlistAll_references {content : Content} (read : Content.read text = .ok content)
    (home : Place rows columns) :
    Cell.enlistAll (content.references home) [] = (referencesOf home text).eraseDups := by
  rw [referencesOf_eq read]
  exact Cell.enlistAll_eraseDups (content.references home) []

theorem Linked.pruned (linked : s.Linked) (drops : s.settings.dropStale = true)
    (computes : ∀ p, Content.failure? (s.cell p).text = none) : s.Pruned := by
  intro p
  obtain ⟨content, read⟩ := Content.exists_read (computes p)
  rw [linked.fits p content read, if_pos drops, enlistAll_references read]

/-- There are no more links than on any sheet that has the same texts and maybe others. -/
theorem Pruned.feeds_le (pruned : s.Pruned) (mirrored : s.Mirrored) (linked : t.Linked)
    (part : ∀ p, (s.cell p).text = "" ∨ (s.cell p).text = (t.cell p).text) :
    s.Feeds ≤ t.Feeds := by
  intro p q feeds
  have refers := (mirrored.mem_iff p q).1 feeds
  rw [pruned q, List.mem_eraseDups] at refers
  rcases part q with blank | same
  · rw [blank] at refers
    cases refers
  · rw [same] at refers
    exact linked.feeds_of_mem_referencesOf refers

/-- A call that leaves no stale links, and no texts but those of a sheet that is up to date, can
fail by the limit alone. -/
theorem UpToDate.setText_of_pruned (upToDate : t.UpToDate) (linked : s.Linked)
    (pruned : (after (setText o.address text s)).Pruned)
    (part : ∀ p, ((after (setText o.address text s)).cell p).text = "" ∨
      ((after (setText o.address text s)).cell p).text = (t.cell p).text) :
    (∃ updates u, setText o.address text s = .ok updates u) ∨
      s.settings.depthLimit < rows * columns ∧
        ∃ u, setText o.address text s = .error (.cascadeTooDeep s.settings.depthLimit) u := by
  have feeds := pruned.feeds_le (edited_setText linked o text).linked.mirrored upToDate.linked part
  apply setText_of_acyclic linked
  · intro p
    rcases part p with blank | same
    · rw [blank]
      rfl
    · rw [same]
      exact upToDate.computes p
  · exact fun p circular => upToDate.acyclic p (TransGen.mono feeds p p circular)

/-- Where stale links are dropped and the limit is ample, a call succeeds if it gives the sheet the
texts of one that is up to date. -/
theorem UpToDate.exists_setText_ok (upToDate : t.UpToDate) (linked : s.Linked)
    (drops : s.settings.dropStale = true) (ample : rows * columns ≤ s.settings.depthLimit)
    (texts : ∀ p, (t.cell p).text = if p = o then text else (s.cell p).text) :
    ∃ updates u, setText o.address text s = .ok updates u := by
  have edited := edited_setText linked o text
  have same : ∀ p, ((after (setText o.address text s)).cell p).text = (t.cell p).text := fun p =>
    (edited.text p).trans (texts p).symm
  have pruned := edited.linked.pruned (edited.settings ▸ drops) fun p =>
    (same p).symm ▸ upToDate.computes p
  rcases upToDate.setText_of_pruned linked pruned fun p => .inr (same p) with
    succeeds | ⟨small, -⟩
  · exact succeeds
  · omega

end Sheet

end FormulaGrid
