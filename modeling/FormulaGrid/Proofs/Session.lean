import FormulaGrid.Sheet.Calls
import FormulaGrid.Proofs.Recalculation

/-! # Sessions

A session is a sheet together with what was entered into its cells since it was last cleared, text
by text, and whether each was accepted.  A session may run any calls, also ones that fail, and goes
on with the sheet that they leave.
-/

namespace FormulaGrid

variable {rows columns : Nat}

/-! ## The record of calls -/

structure Entry (rows columns : Nat) where
  place : Place rows columns
  text : String
  accepted : Bool

/-- A sheet, and the texts entered since it was last cleared, the latest first. -/
structure Session (rows columns : Nat) where
  sheet : Sheet rows columns
  entries : List (Entry rows columns) := []

namespace Sheet

def succeeds {α : Type} : EStateM.Result Fault (Sheet rows columns) α → Bool
  | .ok _ _ => true
  | .error _ _ => false

theorem exists_of_succeeds {α : Type} {result : EStateM.Result Fault (Sheet rows columns) α}
    (succeeds : Sheet.succeeds result) : ∃ answer t, result = .ok answer t := by
  cases result with
  | ok answer t => exact ⟨answer, t, rfl⟩
  | error fault t => cases succeeds

theorem setBackground_eq (s : Sheet rows columns) (p : Place rows columns) (background : UInt32) :
    setBackground p.address background s =
      .ok () ((s.update p fun c => { c with background }).reindex p) := by
  simp only [setBackground]
  rw [locate_address]
  rfl

theorem cell_setBackground (s : Sheet rows columns) (p q : Place rows columns)
    (background : UInt32) :
    (after (setBackground p.address background s)).cell q =
      { s.cell q with background := if p = q then background else (s.cell q).background } := by
  rw [setBackground_eq, after, cell_reindex, cell_update]
  split <;> rfl

theorem settings_setBackground (s : Sheet rows columns) (p : Place rows columns)
    (background : UInt32) :
    (after (setBackground p.address background s)).settings = s.settings := by
  rw [setBackground_eq, after, settings_reindex, settings_update]

end Sheet

namespace Session

open Sheet (after succeeds)

def setText (a : Address) (text : String) (session : Session rows columns) :
    Session rows columns where
  sheet := after (Sheet.setText a text session.sheet)
  entries :=
    match Place.ofAddress? a with
    | some p => ⟨p, text, succeeds (Sheet.setText a text session.sheet)⟩ :: session.entries
    | none => session.entries

def setBackground (a : Address) (background : UInt32) (session : Session rows columns) :
    Session rows columns :=
  { session with sheet := after (Sheet.setBackground a background session.sheet) }

def clear (session : Session rows columns) : Session rows columns where
  sheet := session.sheet.clear

def enter (r : Record) (session : Session rows columns) : Session rows columns :=
  (session.setBackground r.address r.background).setText r.address r.text

def enterAll : List Record → Session rows columns → Session rows columns
  | [], session => session
  | r :: rs, session =>
    if succeeds (Sheet.enter r session.sheet) then enterAll rs (session.enter r)
    else session.enter r

def load (records : List Record) (session : Session rows columns) : Session rows columns where
  sheet := after (Sheet.load records session.sheet)
  entries := (enterAll records session.clear).entries

def call (session : Session rows columns) : Call → Session rows columns
  | .setText a text => session.setText a text
  | .setBackground a background => session.setBackground a background
  | .clear => session.clear
  | .load records => session.load records

inductive Reachable : Session rows columns → Prop
  | created {settings : Settings} {s : Sheet rows columns}
      (created : Sheet.create rows columns settings = .ok s) : Reachable { sheet := s }
  | called {session : Session rows columns} (reachable : Reachable session) (c : Call) :
      Reachable (session.call c)

/-- The text that was last entered into the cell was not accepted. -/
def Failed (session : Session rows columns) (p : Place rows columns) : Prop :=
  ∃ e, session.entries.find? (fun e => e.place = p) = some e ∧ e.accepted = false

/-! ## Calls on places of the grid -/

theorem failed_setText_iff (session : Session rows columns) (p q : Place rows columns)
    (text : String) :
    (session.setText p.address text).Failed q ↔
      if q = p then succeeds (Sheet.setText p.address text session.sheet) = false
      else session.Failed q := by
  simp only [Failed, setText]
  rw [Place.ofAddress?_eq_some_iff.2 rfl]
  simp only [List.find?_cons]
  by_cases same : q = p
  · simp [same]
  · simp [same, Ne.symm same]

/-- A colour changes nothing but itself. -/
theorem cell_setBackground (session : Session rows columns) (p q : Place rows columns)
    (background : UInt32) :
    (session.setBackground p.address background).sheet.cell q =
      { session.sheet.cell q with
        background := if p = q then background else (session.sheet.cell q).background } :=
  Sheet.cell_setBackground session.sheet p q background

theorem settings_setBackground (session : Session rows columns) (p : Place rows columns)
    (background : UInt32) :
    (session.setBackground p.address background).sheet.settings = session.sheet.settings :=
  Sheet.settings_setBackground session.sheet p background

theorem outside_of_none {a : Address}
    (outside : (Place.ofAddress? a : Option (Place rows columns)) = none)
    (session : Session rows columns) :
    (∀ text, session.setText a text = session) ∧
      ∀ background, session.setBackground a background = session := by
  have unlocated : (Sheet.locate a : Except Fault (Place rows columns)) =
      .error (.outOfBounds a.row a.column) := by
    rw [Sheet.locate, outside]
  constructor
  · intro text
    simp only [setText, Sheet.setText]
    rw [outside, unlocated]
    rfl
  · intro background
    simp only [setBackground, Sheet.setBackground]
    rw [unlocated]
    rfl

/-! ## Loading is entering one record after the other -/

theorem run_discard {α : Type} (edit : Edit rows columns α) (s : Sheet rows columns) :
    (discard edit : Edit rows columns Unit) s = match edit s with
      | .ok _ t => .ok () t
      | .error fault t => .error fault t := by
  change EStateM.map _ edit s = _
  simp only [EStateM.map]
  cases edit s <;> rfl

theorem after_discard {α : Type} (edit : Edit rows columns α) (s : Sheet rows columns) :
    after ((discard edit : Edit rows columns Unit) s) = after (edit s) := by
  rw [run_discard]
  cases edit s <;> rfl

theorem sheet_enter (r : Record) (session : Session rows columns) :
    (session.enter r).sheet = after ((Sheet.enter r : Edit rows columns Unit) session.sheet) := by
  obtain ⟨a, text, background⟩ := r
  cases located : (Place.ofAddress? a : Option (Place rows columns)) with
  | none =>
    obtain ⟨textKept, backgroundKept⟩ := outside_of_none located session
    rw [enter, backgroundKept, textKept]
    simp only [Sheet.enter, Sheet.setBackground]
    rw [Sheet.locate, located]
    rfl
  | some p =>
    obtain rfl := Place.ofAddress?_eq_some_iff.1 located
    rw [Sheet.enter, Sheet.run_bind, Sheet.setBackground_eq, enter, setText, setBackground,
      Sheet.setBackground_eq]
    exact (after_discard _ _).symm

theorem run_enter_cons (r : Record) (records : List Record) (s : Sheet rows columns) :
    ((r :: records).forM Sheet.enter : Edit rows columns Unit) s =
      match (Sheet.enter r : Edit rows columns Unit) s with
      | .ok _ t => records.forM Sheet.enter t
      | .error fault t => .error fault t := by
  change (Sheet.enter r >>= fun _ => records.forM Sheet.enter : Edit rows columns Unit) s = _
  rw [Sheet.run_bind]
  cases (Sheet.enter r : Edit rows columns Unit) s <;> rfl

theorem sheet_enterAll (records : List Record) (session : Session rows columns) :
    (enterAll records session).sheet =
      after ((records.forM Sheet.enter : Edit rows columns Unit) session.sheet) := by
  induction records generalizing session with
  | nil => rfl
  | cons r records ih =>
    have first := sheet_enter r session
    rw [enterAll, run_enter_cons]
    cases entered : (Sheet.enter r : Edit rows columns Unit) session.sheet with
    | error fault s =>
      rw [entered] at first
      exact first
    | ok answer s =>
      rw [entered] at first
      have answered : succeeds (.ok answer s : EStateM.Result Fault (Sheet rows columns) Unit) :=
        rfl
      rw [if_pos answered, ih, first]
      rfl

theorem load_eq_enterAll (records : List Record) (session : Session rows columns) :
    session.load records = enterAll records session.clear := by
  have sheet : after ((Sheet.load records : Edit rows columns Unit) session.sheet) =
      (enterAll records session.clear).sheet := by
    rw [sheet_enterAll]
    rfl
  rw [load, sheet]

/-! ## What every session has -/

structure Blank (session : Session rows columns) : Prop where
  entries : session.entries = []
  occupied : session.sheet.occupied = []
  cells : ∀ p, ∃ place, session.sheet.cell p = { place }

theorem blank_created (settings : Settings) :
    @Blank rows columns { sheet := Sheet.blank rows columns settings } :=
  ⟨rfl, rfl, fun p => ⟨p, Sheet.cell_blank settings p⟩⟩

theorem blank_clear (session : Session rows columns) : session.clear.Blank :=
  ⟨rfl, rfl, fun p => ⟨_, Sheet.cell_clear session.sheet p⟩⟩

theorem Reachable.invariant {P : Session rows columns → Prop}
    (blank : ∀ session : Session rows columns, session.Blank → P session)
    (text : ∀ session (p : Place rows columns) text, P session → P (session.setText p.address text))
    (background : ∀ session (p : Place rows columns) background, P session →
      P (session.setBackground p.address background))
    {session : Session rows columns} (reachable : Reachable session) : P session := by
  have anyText : ∀ session a t, P session → P (session.setText a t) := by
    intro session a t holds
    cases located : (Place.ofAddress? a : Option (Place rows columns)) with
    | none =>
      rw [(outside_of_none located session).1]
      exact holds
    | some p =>
      rw [← Place.ofAddress?_eq_some_iff.1 located]
      exact text session p t holds
  have anyBackground : ∀ session a b, P session → P (session.setBackground a b) := by
    intro session a b holds
    cases located : (Place.ofAddress? a : Option (Place rows columns)) with
    | none =>
      rw [(outside_of_none located session).2]
      exact holds
    | some p =>
      rw [← Place.ofAddress?_eq_some_iff.1 located]
      exact background session p b holds
  -- loading stops at the first fault, after what has been entered up to there
  have anyRecord : ∀ session r, P session → P (session.enter r) :=
    fun session r holds => anyText _ _ _ (anyBackground _ _ _ holds)
  have anyRecords : ∀ records session, P session → P (enterAll records session) := by
    intro records
    induction records with
    | nil => exact fun _ holds => holds
    | cons r records ih =>
      intro session holds
      simp only [enterAll]
      split
      · exact ih _ (anyRecord session r holds)
      · exact anyRecord session r holds
  induction reachable with
  | @created settings s created =>
    simp only [Sheet.create] at created
    split at created
    · cases created
    · cases created
      exact blank _ (blank_created settings)
  | called _ c ih =>
    cases c with
    | setText a t => exact anyText _ a t ih
    | setBackground a b => exact anyBackground _ a b ih
    | clear => exact blank _ (blank_clear _)
    | load records =>
      rw [call, load_eq_enterAll]
      exact anyRecords records _ (blank _ (blank_clear _))

end Session

/-! ## Links of every sheet -/

namespace Sheet

theorem linked_of_empty {s : Sheet rows columns}
    (empty : ∀ p, ∃ place, s.cell p = { place }) : s.Linked := by
  have fields : ∀ p, (s.cell p).text = "" ∧ (s.cell p).dependents = [] ∧
      (s.cell p).precedents = [] := by
    intro p
    obtain ⟨place, eq⟩ := empty p
    simp [eq]
  constructor
  · constructor
    · intro p q
      rw [(fields p).2.1, (fields q).2.2]
      simp
    · exact fun p => (fields p).2.1 ▸ List.nodup_nil
    · exact fun p => (fields p).2.2 ▸ List.nodup_nil
    · exact fun p => (fields p).2.2 ▸ List.not_mem_nil
  · intro p content read
    have plain : Content.read "" = .ok (.plain "") := rfl
    rw [(fields p).1, plain] at read
    cases read
    rw [(fields p).2.2]
    split <;> rfl

theorem Linked.of_cells {s t : Sheet rows columns} (linked : s.Linked)
    (settings : t.settings = s.settings) (text : ∀ p, (t.cell p).text = (s.cell p).text)
    (dependents : ∀ p, (t.cell p).dependents = (s.cell p).dependents)
    (precedents : ∀ p, (t.cell p).precedents = (s.cell p).precedents) : t.Linked where
  mirrored := linked.mirrored.of_links dependents precedents
  fits p := (linked.fits p).of_cell settings (text p) (precedents p)

end Sheet

namespace Session

theorem edited_setText {session : Session rows columns} (linked : session.sheet.Linked)
    (p : Place rows columns) (text : String) :
    Sheet.Edited session.sheet p text (session.setText p.address text).sheet :=
  Sheet.edited_setText linked p text

theorem linked_setBackground {session : Session rows columns} (linked : session.sheet.Linked)
    (p : Place rows columns) (background : UInt32) :
    (session.setBackground p.address background).sheet.Linked := by
  apply linked.of_cells (settings_setBackground session p background)
  all_goals
    intro q
    rw [cell_setBackground]

theorem linked_of_reachable {session : Session rows columns} (reachable : Reachable session) :
    session.sheet.Linked := by
  apply reachable.invariant (P := fun session => session.sheet.Linked)
  · exact fun session blank => Sheet.linked_of_empty blank.cells
  · exact fun session p text linked => (edited_setText linked p text).linked
  · exact fun session p background linked => linked_setBackground linked p background

/-- An invariant need only be kept where the sheet is linked. -/
theorem Reachable.invariant_of_linked {P : Session rows columns → Prop}
    (blank : ∀ session : Session rows columns, session.Blank → P session)
    (text : ∀ session (p : Place rows columns) text, session.sheet.Linked → P session →
      P (session.setText p.address text))
    (background : ∀ session (p : Place rows columns) background, session.sheet.Linked → P session →
      P (session.setBackground p.address background))
    {session : Session rows columns} (reachable : Reachable session) : P session := by
  have both : session.sheet.Linked ∧ P session := by
    apply reachable.invariant (P := fun session => session.sheet.Linked ∧ P session)
    · exact fun session empty => ⟨Sheet.linked_of_empty empty.cells, blank session empty⟩
    · rintro session p t ⟨linked, holds⟩
      exact ⟨(edited_setText linked p t).linked, text session p t linked holds⟩
    · rintro session p b ⟨linked, holds⟩
      exact ⟨linked_setBackground linked p b, background session p b linked holds⟩
  exact both.2

end Session

end FormulaGrid
