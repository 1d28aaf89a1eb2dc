import FormulaGrid.Proofs.Postorder
import FormulaGrid.Sheet.Content
import Mathlib.Data.List.Induction

/-! # What a text is worth

`Expr.run` works on stacks of its own; `run_visit` says that it is plain recursion.  A formula looks
its variables up by slot in a table that was filled name by name; `evaluate_of_bound` says that only
the names count.  Together they give `value_eq_prescribed`: the value of a cell is what its text
prescribes under the values of the other cells, and the only way to have none is to be empty.
-/

namespace FormulaGrid

theorem eraseDups_append_singleton {α : Type} [BEq α] [LawfulBEq α] [DecidableEq α] (as : List α)
    (a : α) : (as ++ [a]).eraseDups = if a ∈ as then as.eraseDups else as.eraseDups ++ [a] := by
  rw [List.eraseDups_append]
  split
  · rename_i member
    have known : [a].removeAll as = [] := by
      simp [List.removeAll, member]
    rw [known, List.eraseDups_nil, List.append_nil]
  · rename_i fresh
    have new : [a].removeAll as = [a] := by
      simp [List.removeAll, fresh]
    rw [new]
    rfl

/-! ## Tables of variables -/

namespace Variables

theorem slot?_eq_findIdx? (vs : Variables) (name : String) :
    vs.slot? name = vs.names.findIdx? (· == name) := by
  obtain ⟨⟨entries⟩⟩ := vs
  simp only [slot?, names, List.findIdx?_toArray, List.findIdx?_map]
  rfl

theorem get?_eq_bind (vs : Variables) (name : String) :
    vs.get? name = (vs.slot? name).bind fun slot => vs.entries[slot]?.map Variable.value := by
  simp only [get?, slot?]
  rw [Array.find?_eq_bind_findIdx?_getElem?, Option.map_bind]
  rfl

/-- What a slot holds that was found under a name. -/
theorem entry_of_slot? {vs : Variables} {name : String} {slot : Nat}
    (found : vs.slot? name = some slot) :
    ∃ value, vs.entries[slot]? = some ⟨name, value⟩ ∧ vs.get? name = some value := by
  obtain ⟨bounded, same, -⟩ := Array.findIdx?_eq_some_iff_getElem.1 found
  have entry : vs.entries[slot]? = some ⟨name, vs.entries[slot].value⟩ := by
    rw [Array.getElem?_eq_getElem bounded, ← eq_of_beq same]
  refine ⟨vs.entries[slot].value, entry, ?_⟩
  rw [get?_eq_bind, found, Option.bind_some, entry]
  rfl

theorem mem_names_of_slot? {vs : Variables} {name : String} {slot : Nat}
    (found : vs.slot? name = some slot) : name ∈ vs.names := by
  refine Decidable.byContradiction fun absent => ?_
  rw [slot?_eq_none_iff.2 absent] at found
  cases found

theorem slot?_eq_idxOf {vs : Variables} {name : String} (member : name ∈ vs.names) :
    vs.slot? name = some (vs.names.idxOf name) := by
  rw [slot?_eq_findIdx?]
  exact List.findIdx?_eq_some_of_exists ⟨name, member, beq_self_eq_true name⟩

theorem slot?_of_names {vs vs' : Variables} (names : vs'.names = vs.names) (name : String) :
    vs'.slot? name = vs.slot? name := by
  rw [slot?_eq_findIdx?, slot?_eq_findIdx?, names]

theorem exists_set {vs : Variables} {name : String} (member : name ∈ vs.names) (value : String) :
    ∃ vs', vs.set name value = .ok vs' := by
  exact ⟨_, by rw [set, slot?_eq_idxOf member]⟩

theorem get?_set {vs vs' : Variables} {name value : String} (set : vs.set name value = .ok vs')
    (other : String) : vs'.get? other = if other = name then some value else vs.get? other := by
  have slots := slot?_of_names (names_set set) other
  simp only [Variables.set] at set
  split at set
  · rename_i slot found
    cases set
    rw [get?_eq_bind, get?_eq_bind, slots]
    cases foundOther : vs.slot? other with
    | none =>
      split
      · rename_i same
        rw [same, found] at foundOther
        cases foundOther
      · rfl
    | some slotOther =>
      obtain ⟨old, entry, -⟩ := entry_of_slot? foundOther
      simp only [Option.bind_some, Array.getElem?_modify, entry]
      by_cases same : other = name
      · subst same
        rw [found] at foundOther
        cases foundOther
        simp
      · have apart : slot ≠ slotOther := by
          rintro rfl
          obtain ⟨_, entry', -⟩ := entry_of_slot? found
          rw [entry] at entry'
          cases entry'
          exact same rfl
        simp [apart, same]
  · cases set

theorem number_of_slot? {vs : Variables} {name value : String} {slot : Nat}
    (found : vs.slot? name = some slot) (holds : vs.get? name = some value) :
    vs.number slot = match Number.parse? value with
      | some x => .ok x
      | none => .error (.invalidNumber name value) := by
  obtain ⟨value', entry, holds'⟩ := entry_of_slot? found
  rw [holds] at holds'
  cases holds'
  cases parsed : Number.parse? value <;> simp [number, entry, parsed]

/-- A new table has each name once, in order of first appearance. -/
theorem names_ofNames (names : List String) : (ofNames names).names = names.eraseDups := by
  induction names using List.reverseRecOn with
  | nil => rfl
  | append_singleton names name ih =>
    rw [ofNames, List.foldl_append]
    change ((ofNames names).intern name).2.names = _
    rw [names_intern, ih, eraseDups_append_singleton]
    simp only [List.mem_eraseDups]

theorem value_foldl_intern {names : List String} {vs : Variables}
    (unset : ∀ v ∈ vs.entries, v.value = "0") :
    ∀ v ∈ (names.foldl (fun vs name => (vs.intern name).2) vs).entries, v.value = "0" := by
  induction names generalizing vs with
  | nil => exact unset
  | cons name names ih =>
    apply ih
    intro v member
    simp only [intern] at member
    split at member
    · exact unset v member
    · rcases Array.mem_push.1 member with member | rfl
      · exact unset v member
      · rfl

theorem mem_names_ofNames {names : List String} {name : String} :
    name ∈ (ofNames names).names ↔ name ∈ names := by
  rw [names_ofNames, List.mem_eraseDups]

/-- A new table gives every name the value zero. -/
theorem get?_ofNames {names : List String} {name : String} (member : name ∈ names) :
    (ofNames names).get? name = some "0" := by
  have found := slot?_eq_idxOf (mem_names_ofNames.2 member)
  obtain ⟨value, entry, holds⟩ := entry_of_slot? found
  have unset : value = "0" :=
    @value_foldl_intern names {} (by simp) ⟨name, value⟩ (Array.mem_of_getElem? entry)
  rw [holds, unset]

end Variables

/-! ## Plain recursion -/

namespace Expr

def recurse (vs : Variables) : Expr → Except Fault Float
  | const x => .ok x
  | var _ slot => vs.number slot
  | binary op left right => do
    let x ← left.recurse vs
    let y ← right.recurse vs
    return op.apply x y

def valueAt (worth : String → Float) : Expr → Float
  | const x => x
  | var name _ => worth name
  | binary op left right => op.apply (left.valueAt worth) (right.valueAt worth)

/-- A visit leaves the value of the expression on top, or ends the walk with the fault that recursion
comes to. -/
theorem run_visit (vs : Variables) (e : Expr) (steps : List Step) (values : List Float) :
    run vs (.visit e :: steps) values =
      e.recurse vs >>= fun x => run vs steps (x :: values) := by
  -- for all steps and values, since an operator puts off its own step and the right operand
  induction e generalizing steps values with
  | const x =>
    rw [run]
    rfl
  | var name slot =>
    rw [run, recurse]
    cases vs.number slot <;> rfl
  | binary op left right ihLeft ihRight =>
    rw [run, ihLeft, recurse]
    cases left.recurse vs with
    | error fault => rfl
    | ok x =>
      change run vs (.visit right :: .apply op :: steps) (x :: values) = _
      rw [ihRight]
      cases right.recurse vs with
      | error fault => rfl
      | ok y =>
        change run vs (.apply op :: steps) (y :: x :: values) = _
        rw [run]
        rfl

theorem evaluate_eq_recurse (e : Expr) (vs : Variables) : e.evaluate vs = e.recurse vs := by
  rw [evaluate, run_visit]
  cases e.recurse vs with
  | error fault => rfl
  | ok x =>
    change run vs [] [x] = _
    rw [run]

def Bound (vs : Variables) : Expr → Prop
  | const _ => True
  | var name slot => vs.slot? name = some slot
  | binary _ left right => left.Bound vs ∧ right.Bound vs

theorem Bound.of_names {vs vs' : Variables} (names : vs'.names = vs.names) {e : Expr}
    (bound : e.Bound vs) : e.Bound vs' := by
  induction e with
  | const x => trivial
  | var name slot => exact (Variables.slot?_of_names names name).trans bound
  | binary op left right ihLeft ihRight => exact ⟨ihLeft bound.1, ihRight bound.2⟩

theorem recurse_of_bound {vs : Variables} {worth : String → Float}
    (known : ∀ name slot, vs.slot? name = some slot → vs.number slot = .ok (worth name)) {e : Expr}
    (bound : e.Bound vs) : e.recurse vs = .ok (e.valueAt worth) := by
  induction e with
  | const x => rfl
  | var name slot => exact known name slot bound
  | binary op left right ihLeft ihRight =>
    rw [recurse, ihLeft bound.1, ihRight bound.2]
    rfl

theorem evaluate_of_bound {vs : Variables} {worth : String → Float}
    (known : ∀ name slot, vs.slot? name = some slot → vs.number slot = .ok (worth name)) {e : Expr}
    (bound : e.Bound vs) : e.evaluate vs = .ok (e.valueAt worth) := by
  rw [evaluate_eq_recurse]
  exact recurse_of_bound known bound

theorem valueAt_congr {vs : Variables} {worth worth' : String → Float} {e : Expr}
    (bound : e.Bound vs) (same : ∀ name ∈ vs.names, worth name = worth' name) :
    e.valueAt worth = e.valueAt worth' := by
  induction e with
  | const x => rfl
  | var name slot => exact same name (Variables.mem_names_of_slot? bound)
  | binary op left right ihLeft ihRight =>
    rw [valueAt, valueAt, ihLeft bound.1, ihRight bound.2]

/-- The slots of what is built are those of the names. -/
theorem Listed.bound {vs : Variables} {tokens : List Token} {e : Expr} (listed : Listed vs e tokens) :
    e.Bound vs := by
  induction listed with
  | const kind parsed => trivial
  | var kind found => exact found
  | binary spelled _ _ ihLeft ihRight => exact ⟨ihLeft, ihRight⟩

theorem bound_ofReversePolish {vs : Variables} {tokens : List Token} {e : Expr}
    (built : ofReversePolish tokens vs = .ok (some e)) : e.Bound vs :=
  (ofReversePolish_eq_some_iff.1 built).bound

end Expr

/-! ## Parsed formulas -/

namespace Formula

theorem namesOf_append (tokens tokens' : List Token) :
    namesOf (tokens ++ tokens') = namesOf tokens ++ namesOf tokens' := by
  rw [namesOf, List.filter_append, List.map_append]
  rfl

/-- What parsing a text comes to, stage by stage. -/
theorem parse_eq_ok_iff {text : String} {f : Formula} :
    parse text = .ok f ↔
      Token.scan text = .ok f.tokens ∧ Token.reversePolish f.tokens = .ok f.reversePolish ∧
        Expr.ofReversePolish f.reversePolish f.vars = .ok f.root ∧
        f.vars = Variables.ofNames (namesOf f.tokens) ∧ f.text = text := by
  constructor
  · intro parsed
    obtain ⟨tokens, scanned, parsed⟩ := exists_of_bind_eq_ok parsed
    obtain ⟨order, ordered, parsed⟩ := exists_of_bind_eq_ok parsed
    obtain ⟨root, built, parsed⟩ := exists_of_bind_eq_ok parsed
    cases parsed
    exact ⟨scanned, ordered, built, rfl, rfl⟩
  · obtain ⟨text', tokens, reordered, vars, root⟩ := f
    rintro ⟨scanned, converted, built, table, rfl⟩
    obtain rfl : vars = Variables.ofNames (namesOf tokens) := table
    simp only [parse, scanned, converted, built, bind, Except.bind, pure, Except.pure]

/-- The stage that a text fails in. -/
theorem stage_of_parse_eq_error {text : String} {fault : Fault}
    (failed : parse text = .error fault) :
    Token.scan text = .error fault ∨
      ∃ tokens, Token.scan text = .ok tokens ∧
        (Token.reversePolish tokens = .error fault ∨
          ∃ order, Token.reversePolish tokens = .ok order ∧
            Expr.ofReversePolish order (Variables.ofNames (namesOf tokens)) = .error fault) := by
  rcases error_of_bind_eq_error failed with scanned | ⟨tokens, scanned, failed⟩
  · exact .inl scanned
  refine .inr ⟨tokens, scanned, ?_⟩
  rcases error_of_bind_eq_error failed with ordered | ⟨order, ordered, failed⟩
  · exact .inl ordered
  refine .inr ⟨order, ordered, ?_⟩
  rcases error_of_bind_eq_error failed with built | ⟨root, -, none⟩
  · exact built
  · cases none

theorem setVariable_eq {f : Formula} {name value : String} {vars : Variables}
    (set : f.vars.set name value = .ok vars) :
    f.setVariable name value = .ok { f with vars } := by
  rw [setVariable, set]
  rfl

end Formula

/-! ## Values under the values of other cells -/

theorem parse?_zero : Number.parse? "0" = some 0 := by
  rfl

namespace Content

variable {rows columns : Nat}

/-- What a name is worth in a formula at `home`: the value of the other cell that it names, if that
is a number, and otherwise zero. -/
def worth (home : Place rows columns) (values : Place rows columns → String) (name : String) :
    Float :=
  match Place.named? name with
  | some p => if p = home then 0 else (Number.parse? (values p)).getD 0
  | none => 0

/-- The value that a text at `home` prescribes where the cells have the given values.  An empty
formula prescribes none. -/
def prescribed (home : Place rows columns) (values : Place rows columns → String) :
    Content → Option String
  | plain text => some text
  | formula f => f.root.map fun e => Number.text (e.valueAt (worth home values))

/-- The fault that a text has whatever the other cells hold: that of a formula that cannot be parsed,
or of one that is empty. -/
def failure? (text : String) : Option Fault :=
  match read text with
  | .error fault => some fault
  | .ok (plain _) => none
  | .ok (formula f) => if f.root.isSome then none else some .emptyExpression

theorem failure?_of_error {text : String} {fault : Fault} (unreadable : read text = .error fault) :
    failure? text = some fault := by
  rw [failure?, unreadable]

theorem exists_read {text : String} (computes : failure? text = none) :
    ∃ content, read text = .ok content := by
  cases read : Content.read text with
  | ok content => exact ⟨content, rfl⟩
  | error fault =>
    rw [failure?_of_error read] at computes
    cases computes

/-- A text that can be read prescribes a value, unless it fails. -/
theorem failure?_of_read {text : String} {content : Content} (read : Content.read text = .ok content)
    (home : Place rows columns) (values : Place rows columns → String) :
    failure? text = match content.prescribed home values with
      | some _ => none
      | none => some .emptyExpression := by
  rw [failure?, read]
  cases content with
  | plain text' => rfl
  | formula f =>
    simp only [prescribed]
    cases f.root <;> rfl

theorem read_formula (body : String) :
    Content.read ("=" ++ body) = (Formula.parse body).map formula := by
  have spelled : ("=" ++ body).toList = '=' :: body.toList := by
    rw [String.toList_append]
    rfl
  rw [Content.read, spelled]
  simp only [String.ofList_toList]

/-- A text stands for itself, or it is a formula behind an equals sign. -/
theorem read_cases (text : String) :
    Content.read text = .ok (.plain text) ∨
      ∃ body, text = "=" ++ body ∧ Content.read text = (Formula.parse body).map formula := by
  by_cases formula : ∃ cs, text.toList = '=' :: cs
  · obtain ⟨cs, spelled⟩ := formula
    have split : text = "=" ++ String.ofList cs := by
      apply String.toList_inj.1
      simp [spelled]
    exact .inr ⟨String.ofList cs, split, split ▸ read_formula (String.ofList cs)⟩
  · left
    simp only [read]
    split
    · rename_i cs spelled
      exact absurd ⟨cs, spelled⟩ formula
    · rfl

theorem mem_namedReferences {home p : Place rows columns} {f : Formula} {name : String} :
    (name, p) ∈ (formula f).namedReferences home ↔
      name ∈ f.vars.names ∧ Place.named? name = some p ∧ p ≠ home := by
  simp only [namedReferences, List.mem_filterMap]
  constructor
  · rintro ⟨name', member, found⟩
    split at found
    · rename_i q named
      split at found
      · cases found
      · rename_i other
        cases found
        exact ⟨member, named, other⟩
    · cases found
  · rintro ⟨member, named, other⟩
    refine ⟨name, member, ?_⟩
    simp only [named, other, if_false]

theorem mem_references {home p : Place rows columns} {f : Formula} :
    p ∈ (formula f).references home ↔
      ∃ name ∈ f.vars.names, Place.named? name = some p ∧ p ≠ home := by
  simp only [references, List.mem_map, Prod.exists, exists_eq_right, mem_namedReferences]

/-- The table that the references of a formula leave: each name that refers to a cell with a number
has the text of that number, and every other name what it had. -/
theorem foldlM_bindReference (s : Sheet rows columns)
    (references : List (String × Place rows columns)) (f : Formula)
    (known : ∀ r ∈ references, r.1 ∈ f.vars.names ∧ Place.named? r.1 = some r.2) :
    ∃ vars, references.foldlM (bindReference s) f = .ok { f with vars } ∧
      vars.names = f.vars.names ∧
      ∀ name, vars.get? name = match (Place.named? name : Option (Place rows columns)) with
        | some p =>
          if (name, p) ∈ references ∧ (s.cell p).number?.isSome then some (s.cell p).value
          else f.vars.get? name
        | none => f.vars.get? name := by
  -- for every formula, since each reference is bound in the table that the ones before it left
  induction references generalizing f with
  | nil =>
    refine ⟨f.vars, rfl, rfl, ?_⟩
    intro name
    split <;> simp
  | cons r references ih =>
    obtain ⟨first, q⟩ := r
    obtain ⟨⟨member, named⟩, known⟩ := List.forall_mem_cons.1 known
    rw [List.foldlM_cons]
    by_cases numeric : (s.cell q).number?.isSome
    · obtain ⟨vars₁, set⟩ := Variables.exists_set member (s.cell q).value
      have names₁ := Variables.names_set set
      have known₁ : ∀ r ∈ references, r.1 ∈ ({ f with vars := vars₁ } : Formula).vars.names ∧
          Place.named? r.1 = some r.2 := by
        intro r member
        exact ⟨names₁ ▸ (known r member).1, (known r member).2⟩
      obtain ⟨vars, folded, names, table⟩ := ih { f with vars := vars₁ } known₁
      refine ⟨vars, ?_, names.trans names₁, ?_⟩
      · have bound : bindReference s f (first, q) = .ok { f with vars := vars₁ } := by
          rw [bindReference, if_pos numeric, Formula.setVariable_eq set]
        rw [bound]
        exact folded
      · intro name
        rw [table name, Variables.get?_set set]
        by_cases same : name = first
        · -- a later reference under this name refers to the same cell
          subst same
          simp [named, numeric]
        · cases Place.named? name with
          | none => simp [same]
          | some p => simp [same]
    · obtain ⟨vars, folded, names, table⟩ := ih f known
      refine ⟨vars, ?_, names, ?_⟩
      · have bound : bindReference s f (first, q) = .ok f := by
          rw [bindReference, if_neg numeric]
        rw [bound]
        exact folded
      · intro name
        rw [table name]
        by_cases same : name = first
        · subst same
          simp [named, numeric]
        · cases Place.named? name with
          | none => rfl
          | some p => simp [same]

theorem worth_congr {home : Place rows columns} {values values' : Place rows columns → String}
    {f : Formula} (same : ∀ p ∈ (formula f).references home, values p = values' p) {name : String}
    (member : name ∈ f.vars.names) : worth home values name = worth home values' name := by
  simp only [worth]
  cases named : (Place.named? name : Option (Place rows columns)) with
  | none => rfl
  | some p =>
    by_cases self : p = home
    · simp only [self, if_true]
    · simp only [self, if_false, same p (mem_references.2 ⟨name, member, named, self⟩)]

/-- The references of a formula give every name what it is worth. -/
theorem exists_bound (s : Sheet rows columns) (home : Place rows columns) {f : Formula}
    {names : List String} (fresh : f.vars = Variables.ofNames names) :
    ∃ vars, ((formula f).namedReferences home).foldlM (bindReference s) f = .ok { f with vars } ∧
      vars.names = f.vars.names ∧
      ∀ name slot, vars.slot? name = some slot →
        vars.number slot = .ok (worth home (fun p => (s.cell p).value) name) := by
  obtain ⟨vars, folded, sameNames, table⟩ := foldlM_bindReference s
    ((formula f).namedReferences home) f fun r member => by
      obtain ⟨named, target, -⟩ := mem_namedReferences.1 member
      exact ⟨named, target⟩
  refine ⟨vars, folded, sameNames, ?_⟩
  intro name slot found
  have member : name ∈ f.vars.names := sameNames ▸ Variables.mem_names_of_slot? found
  have zero : f.vars.get? name = some "0" := by
    rw [fresh] at member ⊢
    exact Variables.get?_ofNames (Variables.mem_names_ofNames.1 member)
  have holds := table name
  rw [zero] at holds
  simp only [worth]
  cases named : (Place.named? name : Option (Place rows columns)) with
  | none =>
    rw [named] at holds
    rw [Variables.number_of_slot? found holds, parse?_zero]
  | some p =>
    simp only [named, mem_namedReferences, member, true_and, Cell.number?] at holds
    by_cases self : p = home
    · simp only [self, ne_eq, not_true_eq_false, false_and, if_false] at holds
      rw [Variables.number_of_slot? found holds, parse?_zero]
      simp only [self, if_true]
    · simp only [self, if_false]
      cases number : Number.parse? (s.cell p).value with
      | none =>
        simp only [number, Option.isSome_none, Bool.false_eq_true, and_false, if_false] at holds
        rw [Variables.number_of_slot? found holds, parse?_zero]
        rfl
      | some x =>
        simp only [number, ne_eq, self, not_false_eq_true, Option.isSome_some, and_self,
          if_true] at holds
        rw [Variables.number_of_slot? found holds, number]
        rfl

theorem formula_of_read {text : String} {f : Formula} (read : Content.read text = .ok (formula f)) :
    ∃ body, text.toList = '=' :: body ∧ Formula.parse (String.ofList body) = .ok f := by
  rcases read_cases text with plain | ⟨body, rfl, parsed⟩
  · rw [plain] at read
    cases read
  · rw [parsed] at read
    refine ⟨body.toList, by simp, ?_⟩
    rw [String.ofList_toList]
    cases result : Formula.parse body with
    | error fault =>
      rw [result] at read
      cases read
    | ok f' =>
      rw [result] at read
      cases read
      rfl

/-- The value of a cell is the one that its text prescribes; an empty formula has none. -/
theorem value_eq_prescribed {text : String} {content : Content}
    (read : Content.read text = .ok content) (s : Sheet rows columns) (home : Place rows columns) :
    content.value s home = match content.prescribed home fun p => (s.cell p).value with
      | some value => .ok value
      | none => .error .emptyExpression := by
  cases content with
  | plain text' => rfl
  | formula f =>
    obtain ⟨body, -, parsed⟩ := formula_of_read read
    obtain ⟨-, -, built, fresh, -⟩ := Formula.parse_eq_ok_iff.1 parsed
    obtain ⟨vars, folded, names, known⟩ := exists_bound s home fresh
    rw [value, folded, prescribed]
    change (Formula.evaluate { f with vars } >>= fun x => pure (Number.text x)) = _
    simp only [Formula.evaluate]
    cases root : f.root with
    | none => rfl
    | some e =>
      have bound : e.Bound vars := (Expr.bound_ofReversePolish (root ▸ built)).of_names names
      simp only [Expr.evaluate_of_bound known bound]
      rfl

/-- Only the values of the cells that it refers to matter to a text. -/
theorem prescribed_congr {text : String} {content : Content}
    (read : Content.read text = .ok content) {home : Place rows columns}
    {values values' : Place rows columns → String}
    (same : ∀ p ∈ content.references home, values p = values' p) :
    content.prescribed home values = content.prescribed home values' := by
  cases content with
  | plain text' => rfl
  | formula f =>
    obtain ⟨body, -, parsed⟩ := formula_of_read read
    obtain ⟨-, -, built, -, -⟩ := Formula.parse_eq_ok_iff.1 parsed
    rw [prescribed, prescribed]
    cases root : f.root with
    | none => rw [Option.map_none, Option.map_none]
    | some e =>
      have bound : e.Bound f.vars := Expr.bound_ofReversePolish (root ▸ built)
      rw [Option.map_some, Option.map_some,
        Expr.valueAt_congr bound fun name member => worth_congr same member]

end Content

end FormulaGrid
