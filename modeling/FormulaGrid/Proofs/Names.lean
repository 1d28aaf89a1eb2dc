import FormulaGrid.Proofs.CellNames
import FormulaGrid.Proofs.LinkHistory
import FormulaGrid.Proofs.Scanning
import FormulaGrid.Proofs.Yard

namespace FormulaGrid

variable {rows columns : Nat}

/-! ## Three recognisers -/

namespace Token

theorem isName_iff {text : String} : isName text ↔ IsIdentifier text.toList := by
  have behind : (text.toList.dropWhile Char.isAlpha).all Char.isDigit ↔
      ∀ c ∈ text.toList.dropWhile Char.isAlpha, c.isDigit :=
    List.all_eq_true
  rw [isName, Bool.and_eq_true, behind, Bool.not_eq_true', List.isEmpty_eq_false_iff]
  constructor
  · rintro ⟨some, digits⟩
    rw [← List.takeWhile_append_dropWhile (p := Char.isAlpha) (l := text.toList)]
    exact .letters some (fun c member => List.mem_takeWhile_imp member) digits
  · intro name
    generalize text.toList = cs at name
    cases name with
    | @letters letters digits some alpha behind =>
      have ends : ∀ c ∈ digits.head?, c.isAlpha = false :=
        fun c member => isAlpha_of_isDigit (behind c (List.mem_of_mem_head? member))
      obtain ⟨taken, dropped⟩ := takeWhile_append_of_head alpha ends
      rw [taken, dropped]
      exact ⟨some, behind⟩

theorem scan_name {text : String} (name : IsIdentifier text.toList) :
    scan text = .ok [⟨text, 0⟩] := by
  have scanned := @scanFrom_name true 0 [] text [] name ends_nil
  rw [List.append_nil] at scanned
  rw [scan, scanned, scanFrom]
  rfl

/-- A single token is the whole text. -/
theorem scan_eq_single_iff {text : String} :
    (∃ t, scan text = .ok [t] ∧ t.kind = .identifier) ↔ IsIdentifier text.toList := by
  constructor
  · rintro ⟨t, scanned, kind⟩
    obtain ⟨spelled, lexemes⟩ := scan_sound scanned
    have ofKind := (lexemes t List.mem_cons_self).kind_eq_iff.1 kind
    rw [spelling_cons, spelling_nil, List.append_nil] at spelled
    rw [← spelled]
    cases ofKind with
    | identifier isIdentifier => exact isIdentifier
  · exact fun name => ⟨⟨text, 0⟩, scan_name name, name.kind_eq 0⟩

end Token

theorem Address.Spelled.isIdentifier {text : String} {letters digits : List Char}
    (spelled : Spelled text letters digits) : Token.IsIdentifier text.toList := by
  rw [spelled.split]
  exact .letters spelled.someLetter spelled.alpha spelled.digit

theorem Address.isIdentifier_of_parse {text : String} {a : Address} (read : parse text = .ok a) :
    Token.IsIdentifier text.toList := by
  obtain ⟨letters, digits, spelled, -, -⟩ := parse?_eq_some_iff.1 (parse_eq_ok_iff.1 read)
  exact spelled.isIdentifier

/-! ## Formulas that are names -/

theorem Formula.exists_parse_of_name {text : String} (name : Token.IsIdentifier text.toList) :
    ∃ f, parse text = .ok f ∧ f.vars.names = [text] := by
  have kind := name.kind_eq 0
  have names : namesOf [⟨text, 0⟩] = [text] := by
    simp [namesOf, kind]
  have table : (Variables.ofNames [text]).names = [text] := by
    rw [Variables.names_ofNames]
    rfl
  obtain ⟨slot, found⟩ : ∃ slot, (Variables.ofNames [text]).slot? text = some slot := by
    rw [← Option.isSome_iff_exists, ← Option.ne_none_iff_isSome, ne_eq,
      Variables.slot?_eq_none_iff, table]
    simp
  refine ⟨⟨text, [⟨text, 0⟩], [⟨text, 0⟩], Variables.ofNames [text], some (.var text slot)⟩,
    parse_eq_ok_iff.2 ⟨Token.scan_name name, ?_, ?_, ?_, rfl⟩, table⟩
  · exact Token.Yard.reversePolish_of_ordered (.operand (name.symbol?_eq 0) 1)
  · exact Expr.ofReversePolish_eq_some_iff.2 (@Expr.Listed.var _ ⟨text, 0⟩ slot kind found)
  · rw [names]

/-- The name of another cell refers to that cell. -/
theorem Content.exists_read_of_name {home p : Place rows columns} {text : String}
    (read : Address.parse text = .ok p.address) (other : home ≠ p) :
    ∃ content, Content.read ("=" ++ text) = .ok content ∧ content.references home = [p] := by
  obtain ⟨f, parsed, names⟩ := Formula.exists_parse_of_name (Address.isIdentifier_of_parse read)
  have named : (Place.named? text : Option (Place rows columns)) = some p := by
    rw [Place.named?, Address.parse_eq_ok_iff.1 read]
    exact Place.ofAddress?_eq_some_iff.2 rfl
  refine ⟨.formula f, ?_, ?_⟩
  · rw [read_formula, parsed]
    rfl
  · simp [references_formula, names, target?, named, Option.filter_some, Ne.symm other]

/-! ## Links -/

namespace Session

open Token (isName scan)

/-- What is a name by itself is what the scanner takes for a single token, and what is read as the
name of a cell is a name.  So, where stale links are dropped, a formula that is the name of another
cell, in any spelling, links its cell to that cell and to no other, even if the call that enters it
fails. -/
theorem recognisers_agree :
    (∀ text, isName text ↔ ∃ t, scan text = .ok [t] ∧ t.kind = .identifier) ∧
    (∀ text a, Address.parse text = .ok a → isName text) ∧
    ∀ {session : Session rows columns}, Reachable session →
      session.sheet.settings.dropStale = true →
      ∀ (p q : Place rows columns) (text : String), Address.parse text = .ok q.address → p ≠ q →
        ((session.setText p.address ("=" ++ text)).sheet.cell p).precedents = [q] := by
  refine ⟨?_, ?_, ?_⟩
  · intro text
    rw [Token.isName_iff, Token.scan_eq_single_iff]
  · exact fun text a read => Token.isName_iff.2 (Address.isIdentifier_of_parse read)
  · intro session reachable dropStale p q text read other
    obtain ⟨content, readable, references⟩ := Content.exists_read_of_name read other
    have linked := Sheet.precedents_setText (linked_of_reachable reachable) p p ("=" ++ text)
    rw [if_pos rfl, readable] at linked
    rw [setText, linked]
    simp [references, dropStale, Cell.enlistAll, Cell.enlist]

def forth : Session 1 2 :=
  setText ⟨0, 0⟩ "=B1+1" { sheet := Sheet.blank 1 2 {} }

theorem reachable_forth : Reachable forth :=
  .called (.created rfl) (.setText ⟨0, 0⟩ "=B1+1")

/-- The name that closes a circle is refused, and linked all the same. -/
theorem recognisers_agree_back :
    Sheet.succeeds (Sheet.setText ⟨0, 1⟩ ("=" ++ "a01") forth.sheet) = false ∧
      ((forth.setText ⟨0, 1⟩ ("=" ++ "a01")).sheet.cell ⟨0, 1⟩).precedents = [⟨0, 0⟩] := by
  have refused : Sheet.succeeds (Sheet.setText ⟨0, 1⟩ ("=" ++ "a01") forth.sheet) = false := by
    decide +kernel
  have read : Address.parse "a01" = .ok (Place.address (⟨0, 0⟩ : Place 1 2)) := by
    decide +kernel
  have dropStale : forth.sheet.settings.dropStale = true := by
    decide +kernel
  have other : (⟨0, 1⟩ : Place 1 2) ≠ ⟨0, 0⟩ := by
    decide
  exact ⟨refused, recognisers_agree.2.2 reachable_forth dropStale ⟨0, 1⟩ ⟨0, 0⟩ "a01" read other⟩

end Session

end FormulaGrid
