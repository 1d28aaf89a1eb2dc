import FormulaGrid.Sheet.Content
import FormulaGrid.Sheet.Links
import Mathlib.Data.List.Nodup

/-! # What linking does

`precedents_link` and `dependents_link` say what becomes of every list of the sheet when a cell is
linked; nothing else is proved by unfolding.
-/

namespace FormulaGrid

variable {rows columns : Nat}

/-! ## Lists of places -/

namespace Cell

theorem mem_enlist {p q : Place rows columns} {ps : List (Place rows columns)} :
    q ∈ enlist p ps ↔ q = p ∨ q ∈ ps := by
  simp only [enlist]
  split
  · rename_i member
    constructor
    · exact .inr
    · rintro (rfl | member)
      · assumption
      · exact member
  · simp [or_comm]

theorem enlist_of_mem {p : Place rows columns} {ps : List (Place rows columns)} (member : p ∈ ps) :
    enlist p ps = ps :=
  if_pos member

theorem nodup_enlist {p : Place rows columns} {ps : List (Place rows columns)} (nodup : ps.Nodup) :
    (enlist p ps).Nodup := by
  simp only [enlist]
  split
  · exact nodup
  · rename_i fresh
    exact List.nodup_append_comm.1 (List.nodup_cons.2 ⟨fresh, nodup⟩)

def enlistAll (qs ps : List (Place rows columns)) : List (Place rows columns) :=
  qs.foldl (fun ps q => enlist q ps) ps

theorem mem_enlistAll {p : Place rows columns} {qs ps : List (Place rows columns)} :
    p ∈ enlistAll qs ps ↔ p ∈ qs ∨ p ∈ ps := by
  induction qs generalizing ps with
  | nil => simp [enlistAll]
  | cons q qs ih =>
    rw [enlistAll, List.foldl_cons, ← enlistAll, ih, mem_enlist, List.mem_cons]
    tauto

theorem nodup_enlistAll {qs ps : List (Place rows columns)} (nodup : ps.Nodup) :
    (enlistAll qs ps).Nodup := by
  induction qs generalizing ps with
  | nil => exact nodup
  | cons q qs ih => exact ih (nodup_enlist nodup)

theorem enlistAll_of_subset {qs ps : List (Place rows columns)} (subset : ∀ q ∈ qs, q ∈ ps) :
    enlistAll qs ps = ps := by
  induction qs with
  | nil => rfl
  | cons q qs ih =>
    rw [enlistAll, List.foldl_cons, enlist_of_mem (subset q List.mem_cons_self)]
    exact ih fun r member => subset r (List.mem_cons_of_mem _ member)

end Cell

namespace Sheet

open Cell (enlist enlistAll)

/-! ## The lists of a sheet after linking -/

theorem view_update {α : Type} (view : Cell rows columns → α) (s : Sheet rows columns)
    (p q : Place rows columns) (f : Cell rows columns → Cell rows columns) :
    view ((s.update p f).cell q) = if q = p then view (f (s.cell q)) else view (s.cell q) := by
  rw [cell_update]
  by_cases same : p = q
  · rw [if_pos same, if_pos same.symm]
  · rw [if_neg same, if_neg (Ne.symm same)]

theorem precedents_connect (s : Sheet rows columns) (p q r : Place rows columns) :
    ((connect p s q).cell r).precedents =
      if r = p then enlist q (s.cell r).precedents else (s.cell r).precedents := by
  have kept : ((s.update q (Cell.addDependent p)).cell r).precedents = (s.cell r).precedents :=
    @view_cell_update rows columns _ Cell.precedents (Cell.addDependent p) (fun _ => rfl) s q r
  refine (view_update Cell.precedents _ p r (Cell.addPrecedent q)).trans ?_
  rw [← kept]
  rfl

theorem dependents_connect (s : Sheet rows columns) (p q r : Place rows columns) :
    ((connect p s q).cell r).dependents =
      if r = q then enlist p (s.cell r).dependents else (s.cell r).dependents := by
  have kept : ((connect p s q).cell r).dependents =
      ((s.update q (Cell.addDependent p)).cell r).dependents :=
    @view_cell_update rows columns _ Cell.dependents (Cell.addPrecedent q) (fun _ => rfl) _ p r
  rw [kept]
  exact view_update Cell.dependents s q r (Cell.addDependent p)

theorem precedents_foldl_connect (p r : Place rows columns) (qs : List (Place rows columns))
    (s : Sheet rows columns) :
    ((qs.foldl (connect p) s).cell r).precedents =
      if r = p then enlistAll qs (s.cell r).precedents else (s.cell r).precedents := by
  induction qs generalizing s with
  | nil => simp [enlistAll]
  | cons q qs ih =>
    rw [List.foldl_cons, ih, precedents_connect]
    split <;> rfl

theorem dependents_foldl_connect (p r : Place rows columns) (qs : List (Place rows columns))
    (s : Sheet rows columns) :
    ((qs.foldl (connect p) s).cell r).dependents =
      if r ∈ qs then enlist p (s.cell r).dependents else (s.cell r).dependents := by
  induction qs generalizing s with
  | nil => simp
  | cons q qs ih =>
    rw [List.foldl_cons, ih, dependents_connect]
    by_cases first : r = q
    · subst first
      rw [if_pos rfl, if_pos List.mem_cons_self]
      split
      · exact Cell.enlist_of_mem (Cell.mem_enlist.2 (.inl rfl))
      · rfl
    · simp only [first, if_false, List.mem_cons, false_or]

theorem dependents_foldl_remove (p r : Place rows columns) (qs : List (Place rows columns))
    (s : Sheet rows columns) :
    ((qs.foldl (fun s q => s.update q (Cell.removeDependent p)) s).cell r).dependents =
      if r ∈ qs then (s.cell r).dependents.filter (· != p) else (s.cell r).dependents := by
  induction qs generalizing s with
  | nil => simp
  | cons q qs ih =>
    have removed : ((s.update q (Cell.removeDependent p)).cell r).dependents =
        if r = q then (s.cell r).dependents.filter (· != p) else (s.cell r).dependents :=
      view_update Cell.dependents s q r (Cell.removeDependent p)
    rw [List.foldl_cons, ih, removed]
    by_cases first : r = q
    · subst first
      rw [if_pos rfl, if_pos List.mem_cons_self]
      split
      · simp
      · rfl
    · simp only [first, if_false, List.mem_cons, false_or]

theorem precedents_dropLinks (s : Sheet rows columns) (p r : Place rows columns)
    (references : List (Place rows columns)) :
    ((s.dropLinks p references).cell r).precedents =
      if r = p then [] else (s.cell r).precedents := by
  have removal : ∀ (s : Sheet rows columns) (q : Place rows columns),
      ((s.update q (Cell.removeDependent p)).cell r).precedents = (s.cell r).precedents :=
    fun s q =>
      @view_cell_update rows columns _ Cell.precedents (Cell.removeDependent p) (fun _ => rfl) s q r
  simp only [dropLinks]
  rw [@foldl_unchanged rows columns _ (fun s => (s.cell r).precedents) _ removal]
  exact view_update Cell.precedents s p r fun c => { c with precedents := [] }

theorem dependents_dropLinks (s : Sheet rows columns) (p r : Place rows columns)
    (references : List (Place rows columns)) :
    ((s.dropLinks p references).cell r).dependents =
      if r ∈ (s.cell p).precedents ∧ r ∉ references then (s.cell r).dependents.filter (· != p)
      else (s.cell r).dependents := by
  have kept : ((s.update p fun c => { c with precedents := [] }).cell r).dependents =
      (s.cell r).dependents :=
    @view_cell_update rows columns _ Cell.dependents (fun c => { c with precedents := [] })
      (fun _ => rfl) s p r
  simp only [dropLinks]
  simp only [dependents_foldl_remove, kept, List.mem_filter, decide_eq_true_eq]

/-- What a cell refers to after it is linked. -/
theorem precedents_link (s : Sheet rows columns) (p r : Place rows columns)
    (references : List (Place rows columns)) :
    ((s.link p references).cell r).precedents =
      if r = p then
        enlistAll references (if s.settings.dropStale then [] else (s.cell r).precedents)
      else (s.cell r).precedents := by
  simp only [link]
  rw [precedents_foldl_connect]
  by_cases same : r = p
  · simp only [same, if_true]
    split
    · rw [precedents_dropLinks, if_pos rfl]
    · rfl
  · simp only [same, if_false]
    split
    · rw [precedents_dropLinks, if_neg same]
    · rfl

theorem dependents_link (s : Sheet rows columns) (p r : Place rows columns)
    (references : List (Place rows columns)) :
    ((s.link p references).cell r).dependents =
      if r ∈ references then enlist p (s.cell r).dependents
      else if s.settings.dropStale ∧ r ∈ (s.cell p).precedents then
        (s.cell r).dependents.filter (· != p)
      else (s.cell r).dependents := by
  simp only [link]
  rw [dependents_foldl_connect]
  by_cases named : r ∈ references
  · rw [if_pos named, if_pos named]
    split
    · rw [dependents_dropLinks, if_neg (fun stale => stale.2 named)]
    · rfl
  · rw [if_neg named, if_neg named]
    split
    · rename_i dropStale
      rw [dependents_dropLinks]
      simp only [named, not_false_eq_true, and_true, dropStale, true_and]
    · rename_i keep
      rw [if_neg (fun stale => keep stale.1)]

/-! ## Both ends of a link -/

/-- Every link is kept at both of its ends, once, and no cell is linked to itself. -/
structure Mirrored (s : Sheet rows columns) : Prop where
  mem_iff : ∀ p q, q ∈ (s.cell p).dependents ↔ p ∈ (s.cell q).precedents
  dependents_nodup : ∀ p, (s.cell p).dependents.Nodup
  precedents_nodup : ∀ p, (s.cell p).precedents.Nodup
  irreflexive : ∀ p, p ∉ (s.cell p).precedents

theorem Mirrored.link {s : Sheet rows columns} (mirrored : s.Mirrored) {p : Place rows columns}
    {references : List (Place rows columns)} (others : p ∉ references) :
    (s.link p references).Mirrored where
  mem_iff := by
    intro r q
    rw [dependents_link, precedents_link]
    have old := mirrored.mem_iff r q
    by_cases same : q = p
    · subst same
      rw [if_pos rfl, Cell.mem_enlistAll]
      by_cases named : r ∈ references
      · simp only [named, if_true, Cell.mem_enlist, true_or]
      · cases s.settings.dropStale with
        | true =>
          simp only [named, true_and, if_true, if_false, List.not_mem_nil, or_self, iff_false]
          split
          · simp
          · rename_i unlinked
            exact fun member => unlinked (old.1 member)
        | false => simpa [named] using old
    · -- only `p` is entered or struck, so any other cell stays what it was in the list
      rw [if_neg same, ← old]
      split
      · simp [Cell.mem_enlist, same]
      · split
        · simp [same]
        · rfl
  dependents_nodup := by
    intro r
    rw [dependents_link]
    split
    · exact Cell.nodup_enlist (mirrored.dependents_nodup r)
    · split
      · exact (mirrored.dependents_nodup r).filter _
      · exact mirrored.dependents_nodup r
  precedents_nodup := by
    intro r
    rw [precedents_link]
    split
    · apply Cell.nodup_enlistAll
      split
      · exact List.nodup_nil
      · exact mirrored.precedents_nodup r
    · exact mirrored.precedents_nodup r
  irreflexive := by
    intro r
    rw [precedents_link]
    split
    · rename_i same
      subst same
      rw [Cell.mem_enlistAll, not_or]
      refine ⟨others, ?_⟩
      split
      · exact List.not_mem_nil
      · exact mirrored.irreflexive r
    · exact mirrored.irreflexive r

theorem Mirrored.of_links {s t : Sheet rows columns} (mirrored : s.Mirrored)
    (dependents : ∀ p, (t.cell p).dependents = (s.cell p).dependents)
    (precedents : ∀ p, (t.cell p).precedents = (s.cell p).precedents) : t.Mirrored where
  mem_iff p q := by rw [dependents, precedents, mirrored.mem_iff]
  dependents_nodup p := dependents p ▸ mirrored.dependents_nodup p
  precedents_nodup p := precedents p ▸ mirrored.precedents_nodup p
  irreflexive p := precedents p ▸ mirrored.irreflexive p

/-- The precedents determine the dependents up to their order. -/
theorem Mirrored.dependents_perm {s t : Sheet rows columns} (mirrored : s.Mirrored)
    (mirrored' : t.Mirrored) (precedents : ∀ p, (t.cell p).precedents = (s.cell p).precedents)
    (p : Place rows columns) : (t.cell p).dependents.Perm (s.cell p).dependents := by
  rw [List.perm_ext_iff_of_nodup (mirrored'.dependents_nodup p) (mirrored.dependents_nodup p)]
  intro q
  rw [mirrored'.mem_iff, mirrored.mem_iff, precedents]

/-! ## Links that fit the text -/

/-- The links of a cell are those that its text asks for, where the text can be read.  Where stale
links are kept, others may come before them. -/
def Fits (s : Sheet rows columns) (p : Place rows columns) : Prop :=
  ∀ content, Content.read (s.cell p).text = .ok content →
    (s.cell p).precedents = enlistAll (content.references p)
      (if s.settings.dropStale then [] else (s.cell p).precedents)

theorem home_notMem_references (home : Place rows columns) (content : Content) :
    home ∉ content.references home := by
  cases content with
  | plain text => exact List.not_mem_nil
  | formula f =>
    simp only [Content.references, Content.namedReferences, List.mem_map, List.mem_filterMap,
      Prod.exists, exists_eq_right, not_exists, not_and]
    intro name name' _ found
    split at found
    · split at found
      · cases found
      · rename_i other
        cases found
        exact other rfl
    · cases found

theorem Fits.mem_precedents {s : Sheet rows columns} {p q : Place rows columns} (fits : s.Fits p)
    {content : Content} (read : Content.read (s.cell p).text = .ok content)
    (named : q ∈ content.references p) : q ∈ (s.cell p).precedents := by
  rw [fits content read]
  exact Cell.mem_enlistAll.2 (.inl named)

theorem text_link (s : Sheet rows columns) (p q : Place rows columns)
    (references : List (Place rows columns)) :
    ((s.link p references).cell q).text = (s.cell q).text :=
  @view_cell_link rows columns _ Cell.text (fun _ _ _ => rfl) s p references q

theorem value_link (s : Sheet rows columns) (p q : Place rows columns)
    (references : List (Place rows columns)) :
    ((s.link p references).cell q).value = (s.cell q).value :=
  @view_cell_link rows columns _ Cell.value (fun _ _ _ => rfl) s p references q

theorem background_link (s : Sheet rows columns) (p q : Place rows columns)
    (references : List (Place rows columns)) :
    ((s.link p references).cell q).background = (s.cell q).background :=
  @view_cell_link rows columns _ Cell.background (fun _ _ _ => rfl) s p references q

theorem fits_link {s : Sheet rows columns} {p : Place rows columns} {content : Content}
    (read : Content.read (s.cell p).text = .ok content) :
    (s.link p (content.references p)).Fits p := by
  intro content' read'
  rw [text_link, read] at read'
  cases read'
  rw [precedents_link, if_pos rfl, settings_link]
  split
  · rfl
  · exact (Cell.enlistAll_of_subset fun q named => Cell.mem_enlistAll.2 (.inl named)).symm

theorem Fits.link {s : Sheet rows columns} {p q : Place rows columns} (fits : s.Fits q)
    (other : q ≠ p) (references : List (Place rows columns)) : (s.link p references).Fits q := by
  intro content read
  rw [text_link] at read
  rw [precedents_link, if_neg other, settings_link]
  exact fits content read

theorem Fits.of_cell {s t : Sheet rows columns} {p : Place rows columns} (fits : s.Fits p)
    (settings : t.settings = s.settings) (text : (t.cell p).text = (s.cell p).text)
    (precedents : (t.cell p).precedents = (s.cell p).precedents) : t.Fits p := by
  intro content read
  rw [text] at read
  rw [precedents, settings]
  exact fits content read

theorem ext_cell {s t : Sheet rows columns} (settings : s.settings = t.settings)
    (occupied : s.occupied = t.occupied) (cells : ∀ p, s.cell p = t.cell p) : s = t := by
  obtain ⟨settings₁, cells₁, occupied₁⟩ := s
  obtain ⟨settings₂, cells₂, occupied₂⟩ := t
  have same : cells₁ = cells₂ := by
    ext i hi
    have at_place := cells (Place.ofIndex ⟨i, hi⟩)
    simpa [cell, Fin.getElem_fin] using at_place
  cases settings
  cases occupied
  rw [same]

/-- A cell whose links fit its text is linked already. -/
theorem Fits.link_eq {s : Sheet rows columns} (mirrored : s.Mirrored) {p : Place rows columns}
    (fits : s.Fits p) {content : Content} (read : Content.read (s.cell p).text = .ok content) :
    s.link p (content.references p) = s := by
  apply ext_cell (settings_link s p _) (occupied_link s p _)
  intro q
  have precedents : ((s.link p (content.references p)).cell q).precedents =
      (s.cell q).precedents := by
    rw [precedents_link]
    split
    · rename_i same
      subst same
      exact (fits content read).symm
    · rfl
  have dependents : ((s.link p (content.references p)).cell q).dependents =
      (s.cell q).dependents := by
    rw [dependents_link]
    split
    · rename_i named
      exact Cell.enlist_of_mem ((mirrored.mem_iff q p).2 (fits.mem_precedents read named))
    · rename_i unnamed
      split
      · -- without stale links, what the text does not name is no precedent
        rename_i stale
        have member := stale.2
        rw [fits content read, if_pos stale.1, Cell.mem_enlistAll] at member
        simp [unnamed] at member
      · rfl
  have place := @view_cell_link rows columns _ Cell.place (fun _ _ _ => rfl) s p
    (content.references p) q
  have text := text_link s p q (content.references p)
  have value := value_link s p q (content.references p)
  have background := background_link s p q (content.references p)
  cases before : s.cell q
  cases after : (s.link p (content.references p)).cell q
  simp only [before, after] at precedents dependents place text value background
  rw [precedents, dependents, place, text, value, background]

end Sheet

end FormulaGrid
