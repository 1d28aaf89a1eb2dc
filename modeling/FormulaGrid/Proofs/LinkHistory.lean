import FormulaGrid.Proofs.Session

/-! # Links and the texts they come from

The links of a cell are made from its texts alone.  Where stale links are dropped, they are those of
the last text that could be read; otherwise they are those of all such texts, each in its turn and
none twice.  What the cells compute, and whether a call succeeds, does not matter to them.
-/

namespace FormulaGrid

variable {rows columns : Nat}

/-! ## Lists without repetition -/

theorem eraseDups_append_filterMap {α β : Type} [BEq α] [LawfulBEq α] [DecidableEq α] [BEq β]
    [LawfulBEq β] [DecidableEq β] (f : α → Option β) (bs : List β) (as : List α) :
    (bs ++ as.eraseDups.filterMap f).eraseDups = (bs ++ as.filterMap f).eraseDups := by
  induction as using List.reverseRecOn with
  | nil => rfl
  | append_singleton as a ih =>
    rw [eraseDups_append_singleton]
    cases image : f a with
    | none =>
      split
      · simpa [image] using ih
      · simpa [image] using ih
    | some b =>
      have last : bs ++ (as ++ [a]).filterMap f = (bs ++ as.filterMap f) ++ [b] := by
        simp [image]
      rw [last, eraseDups_append_singleton]
      split
      · rename_i member
        have old : b ∈ bs ++ as.filterMap f :=
          List.mem_append_right _ (List.mem_filterMap.2 ⟨a, member, image⟩)
        rw [if_pos old, ih]
      · have first : bs ++ (as.eraseDups ++ [a]).filterMap f =
            (bs ++ as.eraseDups.filterMap f) ++ [b] := by
          simp [image]
        have same : b ∈ bs ++ as.eraseDups.filterMap f ↔ b ∈ bs ++ as.filterMap f := by
          simp only [List.mem_append, List.mem_filterMap, List.mem_eraseDups]
        rw [first, eraseDups_append_singleton, ih]
        simp only [same]

namespace Cell

theorem enlistAll_eraseDups (qs ps : List (Place rows columns)) :
    enlistAll qs ps.eraseDups = (ps ++ qs).eraseDups := by
  induction qs generalizing ps with
  | nil => rw [List.append_nil, enlistAll, List.foldl_nil]
  | cons q qs ih =>
    have entered : enlist q ps.eraseDups = (ps ++ [q]).eraseDups := by
      rw [eraseDups_append_singleton, enlist]
      simp only [List.mem_eraseDups]
    rw [enlistAll, List.foldl_cons, ← enlistAll, entered, ih, List.append_assoc]
    rfl

end Cell

/-! ## The cells that a text names -/

namespace Content

def target? (home : Place rows columns) (name : String) : Option (Place rows columns) :=
  (Place.named? name).filter fun p => p ≠ home

/-- The cells that a text at `home` refers to, in order of first appearance and none twice. -/
def targets (home : Place rows columns) (text : String) : List (Place rows columns) :=
  match text.toList with
  | '=' :: body =>
    match Token.scan (String.ofList body) with
    | .ok tokens => ((Formula.namesOf tokens).filterMap (target? home)).eraseDups
    | .error _ => []
  | _ => []

theorem references_formula (home : Place rows columns) (f : Formula) :
    (formula f).references home = f.vars.names.filterMap (target? home) := by
  rw [references, namedReferences, List.map_filterMap]
  congr 1
  funext name
  simp only [target?]
  cases Place.named? name with
  | none => rfl
  | some p =>
    by_cases self : p = home
    · simp [self, Option.filter_some]
    · simp [self, Option.filter_some]

theorem targets_of_read {text : String} {content : Content} (read : Content.read text = .ok content)
    (home : Place rows columns) :
    targets home text = (content.references home).eraseDups := by
  cases content with
  | plain text' =>
    simp only [Content.read] at read
    split at read
    · rename_i body _
      cases parsed : Formula.parse (String.ofList body) with
      | error fault =>
        rw [parsed] at read
        cases read
      | ok f =>
        rw [parsed] at read
        cases read
    · rename_i plain
      rw [targets]
      split
      · rename_i body spelled
        exact absurd spelled (plain body)
      · rfl
  | formula f =>
    obtain ⟨body, spelled, parsed⟩ := formula_of_read read
    obtain ⟨scanned, -, -, table, -⟩ := Formula.parse_eq_ok_iff.1 parsed
    rw [targets, spelled]
    simp only [scanned]
    rw [references_formula, table, Variables.names_ofNames]
    exact (eraseDups_append_filterMap (target? home) [] (Formula.namesOf f.tokens)).symm

end Content

/-! ## Texts of a session -/

namespace Session

def textsOf (session : Session rows columns) (p : Place rows columns) : List String :=
  ((session.entries.filter fun e => e.place = p).map Entry.text).reverse

/-- Those of the texts entered that are plain, or formulas that can be parsed. -/
def readTextsOf (session : Session rows columns) (p : Place rows columns) : List String :=
  (session.textsOf p).filter fun text => (Content.read text).toBool

/-- The cells that the texts of a cell have linked it to. -/
def registered (session : Session rows columns) (p : Place rows columns) :
    List (Place rows columns) :=
  if session.sheet.settings.dropStale then
    ((session.readTextsOf p).getLast?.map (Content.targets p)).getD []
  else
    ((session.readTextsOf p).flatMap (Content.targets p)).eraseDups

theorem textsOf_setText (session : Session rows columns) (o p : Place rows columns)
    (text : String) :
    (session.setText o.address text).textsOf p =
      session.textsOf p ++ if p = o then [text] else [] := by
  simp only [textsOf, setText]
  rw [Place.ofAddress?_eq_some_iff.2 rfl]
  simp only [List.filter_cons]
  by_cases same : o = p
  · simp [same]
  · simp [same, Ne.symm same]

theorem readTextsOf_setText (session : Session rows columns) (o p : Place rows columns)
    (text : String) :
    (session.setText o.address text).readTextsOf p =
      session.readTextsOf p ++ if p = o ∧ (Content.read text).toBool then [text] else [] := by
  rw [readTextsOf, textsOf_setText, List.filter_append, ← readTextsOf]
  by_cases same : p = o
  · simp [same, List.filter_cons]
  · simp [same]

/-- A new text registers its cells, if it can be read; it replaces or joins those before. -/
theorem registered_setText {session : Session rows columns} (linked : session.sheet.Linked)
    (o p : Place rows columns) (text : String) :
    (session.setText o.address text).registered p =
      if p = o then
        match Content.read text with
        | .error _ => session.registered o
        | .ok content => Cell.enlistAll (content.references o)
            (if session.sheet.settings.dropStale then [] else session.registered o)
      else session.registered p := by
  rw [registered, (edited_setText linked o text).settings, readTextsOf_setText]
  by_cases same : p = o
  · subst same
    cases read : Content.read text with
    | error fault => simp [Except.toBool, registered]
    | ok content =>
      have entered : Cell.enlistAll (content.references p) [] = Content.targets p text := by
        rw [Content.targets_of_read read]
        exact Cell.enlistAll_eraseDups (content.references p) []
      cases dropStale : session.sheet.settings.dropStale with
      | true => simp [Except.toBool, entered]
      | false =>
        have join := eraseDups_append_filterMap some
          ((session.readTextsOf p).flatMap (Content.targets p)) (content.references p)
        simp only [List.filterMap_some] at join
        simp [Except.toBool, registered, dropStale, Content.targets_of_read read, join,
          Cell.enlistAll_eraseDups]
  · simp [same, registered]

/-! ## The links of every session -/

structure Recorded (session : Session rows columns) : Prop where
  linked : session.sheet.Linked
  text : ∀ p, (session.sheet.cell p).text = (session.textsOf p).getLast?.getD ""
  precedents : ∀ p, (session.sheet.cell p).precedents = session.registered p

theorem Recorded.setText {session : Session rows columns} (recorded : session.Recorded)
    (o : Place rows columns) (text : String) : (session.setText o.address text).Recorded where
  linked := (edited_setText recorded.linked o text).linked
  text p := by
    rw [(edited_setText recorded.linked o text).text, textsOf_setText]
    by_cases same : p = o
    · simp [same]
    · simp [same, recorded.text p]
  precedents p := by
    rw [registered_setText recorded.linked, ← recorded.precedents o, ← recorded.precedents p]
    exact Sheet.precedents_setText recorded.linked o p text

theorem Recorded.setBackground {session : Session rows columns} (recorded : session.Recorded)
    (o : Place rows columns) (background : UInt32) :
    (session.setBackground o.address background).Recorded where
  linked := linked_setBackground recorded.linked o background
  text p := by
    rw [cell_setBackground]
    exact recorded.text p
  precedents p := by
    rw [cell_setBackground, registered, settings_setBackground]
    exact recorded.precedents p

theorem Blank.recorded {session : Session rows columns} (blank : session.Blank) :
    session.Recorded where
  linked := Sheet.linked_of_empty blank.cells
  text p := by
    obtain ⟨place, eq⟩ := blank.cells p
    rw [eq, textsOf, blank.entries]
    rfl
  precedents p := by
    obtain ⟨place, eq⟩ := blank.cells p
    rw [eq, registered, readTextsOf, textsOf, blank.entries]
    split <;> rfl

theorem recorded_of_reachable {session : Session rows columns} (reachable : Reachable session) :
    session.Recorded := by
  apply reachable.invariant (P := Recorded)
  · exact fun session blank => blank.recorded
  · exact fun session p text recorded => recorded.setText p text
  · exact fun session p background recorded => recorded.setBackground p background

/-- Whatever calls were made: a cell is a dependent of another exactly if that is a precedent of it,
no list of either kind repeats a cell or holds its own, and all that they hold lies in the grid. -/
theorem links_mirrored {session : Session rows columns} (reachable : Reachable session) :
    (∀ p q, q ∈ (session.sheet.cell p).dependents ↔ p ∈ (session.sheet.cell q).precedents) ∧
    (∀ p, (session.sheet.cell p).dependents.Nodup ∧ (session.sheet.cell p).precedents.Nodup) ∧
    (∀ p, p ∉ (session.sheet.cell p).dependents ∧ p ∉ (session.sheet.cell p).precedents) ∧
    (∀ p, ∀ a ∈ ((session.sheet.cell p).dependents ++ (session.sheet.cell p).precedents).map
      Place.address, a.row < rows ∧ a.column < columns) := by
  obtain ⟨mem_iff, dependents, precedents, irreflexive⟩ := (linked_of_reachable reachable).mirrored
  refine ⟨mem_iff, fun p => ⟨dependents p, precedents p⟩, fun p => ⟨?_, irreflexive p⟩, ?_⟩
  · exact fun member => irreflexive p ((mem_iff p p).1 member)
  · intro p a member
    obtain ⟨q, -, rfl⟩ := List.mem_map.1 member
    exact ⟨q.row.isLt, q.column.isLt⟩

def aliased : Session 1 3 :=
  (setText ⟨0, 2⟩ "=B1+A1+b01" { sheet := Sheet.blank 1 3 {} }).setText ⟨0, 2⟩ "=A1+"

theorem reachable_aliased : Reachable aliased :=
  .called (.called (.created rfl) (.setText ⟨0, 2⟩ "=B1+A1+b01")) (.setText ⟨0, 2⟩ "=A1+")

/-- The other end of its links is kept too. -/
theorem links_mirrored_aliased :
    (⟨0, 1⟩ : Place 1 3) ∈ (aliased.sheet.cell ⟨0, 2⟩).precedents ∧
      (⟨0, 2⟩ : Place 1 3) ∈ (aliased.sheet.cell ⟨0, 1⟩).dependents := by
  have precedent : (⟨0, 1⟩ : Place 1 3) ∈ (aliased.sheet.cell ⟨0, 2⟩).precedents := by
    decide +kernel
  exact ⟨precedent, ((links_mirrored reachable_aliased).1 _ _).2 precedent⟩

/-- The text of a cell is the last that was entered into it.  Where stale links are dropped, its
precedents are what that text refers to, if it can be read, and otherwise what the last text refers
to that could be.  Where they are kept, its precedents are what all texts refer to that could be
read, in order of first appearance and none twice. -/
theorem links_match_texts {session : Session rows columns} (reachable : Reachable session)
    (p : Place rows columns) :
    (session.sheet.cell p).text = (session.textsOf p).getLast?.getD "" ∧
    (session.sheet.settings.dropStale = true →
      (∀ content, Content.read (session.sheet.cell p).text = .ok content →
        (session.sheet.cell p).precedents =
          Content.targets p (session.sheet.cell p).text) ∧
      ∀ fault, Content.read (session.sheet.cell p).text = .error fault →
        (session.sheet.cell p).precedents =
          ((session.readTextsOf p).getLast?.map (Content.targets p)).getD []) ∧
    (session.sheet.settings.dropStale = false →
      (session.sheet.cell p).precedents =
        ((session.readTextsOf p).flatMap (Content.targets p)).eraseDups) := by
  have recorded := recorded_of_reachable reachable
  have precedents := recorded.precedents p
  refine ⟨recorded.text p, ?_, ?_⟩
  · intro dropStale
    rw [registered, if_pos dropStale] at precedents
    refine ⟨?_, fun _ _ => precedents⟩
    intro content read
    rw [recorded.linked.fits p content read, if_pos dropStale, Content.targets_of_read read]
    exact Cell.enlistAll_eraseDups (content.references p) []
  · intro keep
    rw [registered, if_neg (by simp [keep])] at precedents
    exact precedents

/-- The links are those of the formula that could be parsed. -/
theorem links_match_texts_aliased :
    (Content.read (aliased.sheet.cell ⟨0, 2⟩).text).toBool = false ∧
      (aliased.sheet.cell ⟨0, 2⟩).precedents = [⟨0, 1⟩, ⟨0, 0⟩] := by
  have dropStale : aliased.sheet.settings.dropStale = true := by
    decide +kernel
  have unreadable : (Content.read (aliased.sheet.cell ⟨0, 2⟩).text).toBool = false := by
    decide +kernel
  obtain ⟨-, pruned, -⟩ := links_match_texts reachable_aliased ⟨0, 2⟩
  refine ⟨unreadable, ?_⟩
  cases read : Content.read (aliased.sheet.cell ⟨0, 2⟩).text with
  | ok content =>
    rw [read] at unreadable
    cases unreadable
  | error fault =>
    rw [(pruned dropStale).2 fault read]
    decide +kernel

end Session

end FormulaGrid
