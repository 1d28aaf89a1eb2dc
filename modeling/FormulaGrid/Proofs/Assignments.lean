import FormulaGrid.Proofs.OperandOrder

namespace FormulaGrid

/-! ## Expressions under a table -/

namespace Expr

def slots : Expr → List Nat
  | const _ => []
  | var _ slot => [slot]
  | binary _ left right => left.slots ++ right.slots

theorem slot_lt_size {vs : Variables} {e : Expr} (bound : e.Bound vs) :
    ∀ slot ∈ e.slots, slot < vs.entries.size := by
  induction e with
  | const x => exact fun _ member => absurd member List.not_mem_nil
  | var name slot =>
    intro slot' member
    obtain rfl := List.mem_singleton.1 member
    obtain ⟨value, entry, -⟩ := Variables.entry_of_slot? bound
    exact (Array.getElem?_eq_some_iff.1 entry).1
  | binary op left right ihLeft ihRight =>
    exact List.forall_mem_append.2 ⟨ihLeft bound.1, ihRight bound.2⟩

/-- An expression fails at the leftmost of its names whose value is no number. -/
theorem recurse_of_table {vs : Variables} {value : String → String}
    (holds : ∀ name ∈ vs.names, vs.get? name = some (value name)) {e : Expr} (bound : e.Bound vs) :
    e.recurse vs = match e.names.find? fun name => (Number.parse? (value name)).isNone with
      | some name => .error (.invalidNumber name (value name))
      | none => .ok (e.valueAt fun name => (Number.parse? (value name)).getD 0) := by
  induction e with
  | const x => rfl
  | var name slot =>
    have member := Variables.mem_names_of_slot? bound
    rw [recurse, Variables.number_of_slot? bound (holds name member)]
    cases parsed : Number.parse? (value name) with
    | none => simp [names, parsed]
    | some x => simp [names, valueAt, parsed]
  | binary op left right ihLeft ihRight =>
    rw [recurse, ihLeft bound.1, ihRight bound.2, names, List.find?_append]
    cases left.names.find? fun name => (Number.parse? (value name)).isNone with
    | some name => rfl
    | none =>
      cases right.names.find? fun name => (Number.parse? (value name)).isNone with
      | some name => rfl
      | none => rfl

end Expr

/-! ## Assignments -/

namespace Formula

/-- The formula after a call that gives a name a value.  A call that fails changes nothing. -/
def assign (f : Formula) (name value : String) : Formula :=
  match f.setVariable name value with
  | .ok g => g
  | .error _ => f

def assignAll (f : Formula) (assignments : List (String × String)) : Formula :=
  assignments.foldl (fun f a => f.assign a.1 a.2) f

/-- The last value that a name was given, and zero if there is none. -/
def lastValue (assignments : List (String × String)) (name : String) : String :=
  (assignments.reverse.lookup name).getD "0"

theorem lastValue_append_singleton (assignments : List (String × String))
    (a : String × String) (name : String) :
    lastValue (assignments ++ [a]) name =
      if name = a.1 then a.2 else lastValue assignments name := by
  rw [lastValue, List.reverse_append]
  change (List.lookup name (a :: assignments.reverse)).getD "0" = _
  rw [List.lookup_cons]
  by_cases same : name = a.1
  · simp [same]
  · rw [beq_false_of_ne same, if_neg same]
    rfl

theorem setVariable_of_notMem {f : Formula} {name : String} (unknown : name ∉ f.vars.names)
    (value : String) : f.setVariable name value = .error (.unknownVariable name) := by
  rw [setVariable, Variables.set, Variables.slot?_eq_none_iff.2 unknown]
  rfl

theorem exists_setVariable_iff (f : Formula) (name value : String) :
    (∃ g, f.setVariable name value = .ok g) ↔ name ∈ f.vars.names := by
  constructor
  · rintro ⟨g, set⟩
    by_contra unknown
    rw [setVariable_of_notMem unknown] at set
    cases set
  · intro known
    obtain ⟨vars, set⟩ := Variables.exists_set known value
    exact ⟨_, setVariable_eq set⟩

theorem assign_of_notMem {f : Formula} {name : String} (unknown : name ∉ f.vars.names)
    (value : String) : f.assign name value = f := by
  rw [assign, setVariable_of_notMem unknown]

theorem assign_of_set {f : Formula} {name value : String} {vars : Variables}
    (set : f.vars.set name value = .ok vars) : f.assign name value = { f with vars } := by
  rw [assign, setVariable_eq set]

theorem root_assign (f : Formula) (name value : String) : (f.assign name value).root = f.root := by
  by_cases known : name ∈ f.vars.names
  · obtain ⟨vars, set⟩ := Variables.exists_set known value
    rw [assign_of_set set]
  · rw [assign_of_notMem known]

theorem names_assign (f : Formula) (name value : String) :
    (f.assign name value).vars.names = f.vars.names := by
  by_cases known : name ∈ f.vars.names
  · obtain ⟨vars, set⟩ := Variables.exists_set known value
    rw [assign_of_set set, Variables.names_set set]
  · rw [assign_of_notMem known]

theorem get?_assign {f : Formula} {other : String} (member : other ∈ f.vars.names)
    (name value : String) :
    (f.assign name value).vars.get? other =
      if other = name then some value else f.vars.get? other := by
  by_cases known : name ∈ f.vars.names
  · obtain ⟨vars, set⟩ := Variables.exists_set known value
    rw [assign_of_set set, Variables.get?_set set]
  · have apart : other ≠ name := by
      rintro rfl
      exact known member
    rw [assign_of_notMem known, if_neg apart]

/-- After assignments each name of a parsed formula has the last value that it was given, and the
expression is what it was. -/
theorem assignAll_table {text : String} {f : Formula} (parsed : parse text = .ok f)
    (assignments : List (String × String)) :
    (f.assignAll assignments).root = f.root ∧
      (f.assignAll assignments).vars.names = f.vars.names ∧
      ∀ name ∈ f.vars.names,
        (f.assignAll assignments).vars.get? name = some (lastValue assignments name) := by
  induction assignments using List.reverseRecOn with
  | nil =>
    obtain ⟨-, -, -, table, -⟩ := parse_eq_ok_iff.1 parsed
    refine ⟨rfl, rfl, ?_⟩
    intro name member
    rw [table] at member
    change f.vars.get? name = some "0"
    rw [table]
    exact Variables.get?_ofNames (Variables.mem_names_ofNames.1 member)
  | append_singleton assignments a ih =>
    obtain ⟨root, names, values⟩ := ih
    have last : f.assignAll (assignments ++ [a]) = (f.assignAll assignments).assign a.1 a.2 := by
      rw [assignAll, List.foldl_append]
      rfl
    rw [last]
    refine ⟨(root_assign _ _ _).trans root, (names_assign _ _ _).trans names, ?_⟩
    intro name member
    rw [get?_assign (names ▸ member), lastValue_append_singleton, values name member]
    split <;> rfl

theorem evaluate_of_table {f : Formula} {value : String → String}
    (holds : ∀ name ∈ f.vars.names, f.vars.get? name = some (value name)) {e : Expr}
    (root : f.root = some e) (bound : e.Bound f.vars) :
    f.evaluate = match e.names.find? fun name => (Number.parse? (value name)).isNone with
      | some name => .error (.invalidNumber name (value name))
      | none => .ok (e.valueAt fun name => (Number.parse? (value name)).getD 0) := by
  rw [evaluate, root]
  exact (e.evaluate_eq_recurse f.vars).trans (Expr.recurse_of_table holds bound)

/-- A formula that was parsed and then given values, in any number of calls.  A further call
succeeds exactly for the names of the formula, and otherwise says so and changes nothing.  The
formula is empty exactly if there is nothing but parentheses in it.  Otherwise its variables all lie
in the table; if a name was given a value that is no number, the leftmost such name is reported with
its value; and if there is none, the value is that of the expression in which each name is worth the
number last given. -/
theorem evaluate_assigned {text : String} {f : Formula} (parsed : parse text = .ok f)
    (assignments : List (String × String)) :
    Token.scan text = .ok f.tokens ∧
    (∀ name value,
      ((∃ g, (f.assignAll assignments).setVariable name value = .ok g) ↔ name ∈ namesOf f.tokens) ∧
      (name ∉ namesOf f.tokens →
        (f.assignAll assignments).setVariable name value = .error (.unknownVariable name) ∧
        (f.assignAll assignments).assign name value = f.assignAll assignments)) ∧
    ((f.assignAll assignments).evaluate = .error .emptyExpression ↔
      ∀ t ∈ f.tokens, t.isParenthesis) ∧
    ((∃ t ∈ f.tokens, ¬ t.isParenthesis) → ∃ e, f.root = some e ∧
      (∀ slot ∈ e.slots, slot < (f.assignAll assignments).vars.entries.size) ∧
      (f.assignAll assignments).evaluate =
        match (namesOf f.tokens).find? fun name =>
          (Number.parse? (lastValue assignments name)).isNone with
        | some name => .error (.invalidNumber name (lastValue assignments name))
        | none =>
          .ok (e.valueAt fun name => (Number.parse? (lastValue assignments name)).getD 0)) := by
  obtain ⟨scanned, -, built, table, -⟩ := parse_eq_ok_iff.1 parsed
  obtain ⟨root, names, values⟩ := assignAll_table parsed assignments
  have known : ∀ name, name ∈ (f.assignAll assignments).vars.names ↔ name ∈ namesOf f.tokens := by
    intro name
    rw [names, table, Variables.mem_names_ofNames]
  have bound : ∀ e, f.root = some e → e.Bound (f.assignAll assignments).vars := fun e found =>
    (Expr.bound_ofReversePolish (found ▸ built)).of_names names
  have value : ∀ e, f.root = some e → _ := fun e found =>
    evaluate_of_table (names ▸ values) (root.trans found) (bound e found)
  refine ⟨scanned, ?_, ?_, ?_⟩
  · intro name value
    rw [exists_setVariable_iff]
    refine ⟨known name, fun absent => ?_⟩
    have unknown := mt (known name).1 absent
    exact ⟨setVariable_of_notMem unknown value, assign_of_notMem unknown value⟩
  · rw [← root_eq_none_iff parsed]
    cases found : f.root with
    | none => simp [evaluate, root, found]
    | some e =>
      rw [value e found]
      constructor
      · intro failed
        split at failed <;> cases failed
      · intro absent
        cases absent
  · rintro ⟨t, member, other⟩
    cases found : f.root with
    | none => exact absurd ((root_eq_none_iff parsed).1 found t member) other
    | some e =>
      rw [← names_root parsed found]
      exact ⟨e, rfl, Expr.slot_lt_size (bound e found), value e found⟩

/-- The name that is reported stands first in the formula, although it was set last. -/
theorem evaluate_assigned_leftmost : ∃ f, parse "A1-(B1+A1)" = .ok f ∧
    (f.assignAll [("B1", "none"), ("C1", "1"), ("A1", "?")]).evaluate =
      .error (.invalidNumber "A1" "?") := by
  have readable : (parse "A1-(B1+A1)").toBool = true := by
    decide +kernel
  have scan : Token.scan "A1-(B1+A1)" = .ok
      [⟨"A1", 0⟩, ⟨"-", 2⟩, ⟨"(", 3⟩, ⟨"B1", 4⟩, ⟨"+", 6⟩, ⟨"A1", 7⟩, ⟨")", 9⟩] := by
    decide +kernel
  cases parsed : parse "A1-(B1+A1)" with
  | error fault =>
    rw [parsed] at readable
    cases readable
  | ok f =>
    obtain ⟨scanned, -, -, evaluated⟩ :=
      evaluate_assigned parsed [("B1", "none"), ("C1", "1"), ("A1", "?")]
    have tokens := Except.ok.inj (scan.symm.trans scanned)
    rw [← tokens] at evaluated
    obtain ⟨e, -, -, value⟩ := evaluated ⟨⟨"A1", 0⟩, List.mem_cons_self, by decide +kernel⟩
    refine ⟨f, rfl, value.trans ?_⟩
    rfl

end Formula

end FormulaGrid
