import FormulaGrid.Proofs.Evaluation
import Std.Data.HashMap.Lemmas

namespace FormulaGrid

namespace Variables

/-! ## Calls -/

inductive Call where
  | intern (name : String)
  | set (name value : String)
  deriving DecidableEq

def call (vs : Variables) : Call → Variables
  | .intern name => (vs.intern name).2
  | .set name value =>
    match vs.set name value with
    | .ok vs' => vs'
    | .error _ => vs

def after (calls : List Call) : Variables :=
  calls.foldl call {}

def entered (calls : List Call) : List String :=
  calls.filterMap fun
    | .intern name => some name
    | .set _ _ => none

def given (name : String) (calls : List Call) : List String :=
  calls.filterMap fun
    | .intern _ => none
    | .set name' value => if name' = name then some value else none

/-- The calls from the first one on that enters a name. -/
def since (name : String) (calls : List Call) : List Call :=
  calls.dropWhile (· ≠ .intern name)

/-- The last value that a name was given since it was first entered, and zero if there is none. -/
def lastGiven (calls : List Call) (name : String) : String :=
  (given name (since name calls)).getLast?.getD "0"

theorem after_append_singleton (calls : List Call) (c : Call) :
    after (calls ++ [c]) = (after calls).call c := by
  rw [after, List.foldl_append]
  rfl

theorem entered_append_singleton (calls : List Call) (c : Call) :
    entered (calls ++ [c]) = match c with
      | .intern name => entered calls ++ [name]
      | .set _ _ => entered calls := by
  rw [entered, List.filterMap_append, ← entered]
  cases c with
  | intern name => rfl
  | set name value => exact List.append_nil _

theorem given_append (name : String) (calls calls' : List Call) :
    given name (calls ++ calls') = given name calls ++ given name calls' :=
  List.filterMap_append

theorem mem_entered {calls : List Call} {name : String} :
    name ∈ entered calls ↔ Call.intern name ∈ calls := by
  simp only [entered, List.mem_filterMap]
  constructor
  · rintro ⟨c, member, enters⟩
    cases c with
    | intern name' =>
      cases enters
      exact member
    | set _ _ => cases enters
  · exact fun member => ⟨_, member, rfl⟩

theorem since_append {calls : List Call} {name : String} (known : name ∈ entered calls)
    (calls' : List Call) : since name (calls ++ calls') = since name calls ++ calls' := by
  have nonempty : (calls.dropWhile (· ≠ .intern name)).isEmpty = false := by
    rw [List.isEmpty_eq_false_iff, ne_eq, List.dropWhile_eq_nil_iff]
    intro all
    simpa using all _ (mem_entered.1 known)
  rw [since, List.dropWhile_append, nonempty, if_neg Bool.false_ne_true, ← since]

theorem since_of_notMem {calls : List Call} {name : String} (unknown : name ∉ entered calls)
    (calls' : List Call) : since name (calls ++ calls') = since name calls' := by
  have all : ∀ c ∈ calls, decide (c ≠ .intern name) = true := by
    intro c member
    rw [decide_eq_true_eq]
    rintro rfl
    exact unknown (mem_entered.2 member)
  rw [since, List.dropWhile_append_of_pos all, ← since]

/-! ## Names and slots -/

theorem names_call (vs : Variables) (c : Call) :
    (vs.call c).names = match c with
      | .intern name => if name ∈ vs.names then vs.names else vs.names ++ [name]
      | .set _ _ => vs.names := by
  cases c with
  | intern name => exact names_intern vs name
  | set name value =>
    rw [call]
    cases changed : vs.set name value with
    | ok vs' => exact names_set changed
    | error fault => rfl

theorem names_after (calls : List Call) : (after calls).names = (entered calls).eraseDups := by
  induction calls using List.reverseRecOn with
  | nil => rfl
  | append_singleton calls c ih =>
    rw [after_append_singleton, names_call, entered_append_singleton, ih]
    cases c with
    | intern name =>
      dsimp only
      rw [eraseDups_append_singleton]
      simp only [List.mem_eraseDups]
    | set name value => rfl

theorem slot?_eq (vs : Variables) (name : String) :
    vs.slot? name = if name ∈ vs.names then some (vs.names.idxOf name) else none := by
  split
  · rename_i known
    exact slot?_eq_idxOf known
  · rename_i unknown
    exact slot?_eq_none_iff.2 unknown

theorem slot?_after (calls : List Call) (name : String) :
    (after calls).slot? name =
      if name ∈ entered calls then some ((entered calls).eraseDups.idxOf name) else none := by
  rw [slot?_eq, names_after]
  simp only [List.mem_eraseDups]

/-- Entering a name answers with the place that it has from then on. -/
theorem intern_eq (vs : Variables) (name : String) :
    vs.intern name = ((vs.call (.intern name)).names.idxOf name, vs.call (.intern name)) := by
  refine Prod.ext ?_ rfl
  rw [names_call]
  dsimp only
  by_cases known : name ∈ vs.names
  · rw [intern, slot?_eq_idxOf known, if_pos known]
  · have last : (vs.names ++ [name]).idxOf name = vs.entries.size := by
      rw [List.idxOf_append, if_neg known]
      simp [names]
    rw [intern, slot?_eq_none_iff.2 known, if_neg known, last]

/-- No name is taken back or moved. -/
theorem names_prefix_call (vs : Variables) (c : Call) : vs.names <+: (vs.call c).names := by
  rw [names_call]
  cases c with
  | intern name =>
    dsimp only
    split
    · exact List.prefix_rfl
    · exact List.prefix_append _ _
  | set name value => exact List.prefix_rfl

theorem names_prefix_after (calls calls' : List Call) :
    (after calls).names <+: (after (calls ++ calls')).names := by
  induction calls' using List.reverseRecOn with
  | nil => exact (List.append_nil calls).symm ▸ List.prefix_rfl
  | append_singleton calls' c ih =>
    rw [← List.append_assoc, after_append_singleton]
    exact ih.trans (names_prefix_call _ c)

theorem slot?_of_prefix {vs vs' : Variables} (longer : vs.names <+: vs'.names) {name : String}
    {slot : Nat} (found : vs.slot? name = some slot) : vs'.slot? name = some slot := by
  obtain ⟨more, longer⟩ := longer
  have known := mem_names_of_slot? found
  rw [slot?_eq_idxOf known] at found
  rw [slot?_eq_idxOf (longer ▸ List.mem_append_left _ known), ← longer, List.idxOf_append,
    if_pos known, found]

/-! ## Values -/

theorem get?_eq_none_iff {vs : Variables} {name : String} :
    vs.get? name = none ↔ name ∉ vs.names := by
  constructor
  · intro missing known
    obtain ⟨value, -, holds⟩ := entry_of_slot? (slot?_eq_idxOf known)
    rw [missing] at holds
    cases holds
  · intro unknown
    rw [get?_eq_bind, slot?_eq_none_iff.2 unknown]
    rfl

/-- A name that is new has the value zero, and one that is known the value that it has. -/
theorem get?_intern (vs : Variables) (name other : String) :
    (vs.intern name).2.get? other =
      if other = name then some ((vs.get? name).getD "0") else vs.get? other := by
  by_cases known : name ∈ vs.names
  · obtain ⟨value, -, holds⟩ := entry_of_slot? (slot?_eq_idxOf known)
    have kept : (vs.intern name).2 = vs := by
      rw [intern, slot?_eq_idxOf known]
    rw [kept]
    split
    · rename_i same
      rw [same, holds]
      rfl
    · rfl
  · have missing := get?_eq_none_iff.2 known
    rw [intern, slot?_eq_none_iff.2 known]
    simp only [get?, Array.find?_push] at missing ⊢
    by_cases same : other = name
    · subst same
      rw [missing, if_pos rfl]
      rw [Option.map_eq_none_iff] at missing
      simp [missing]
    · simp [same, Ne.symm same]

theorem get?_call {vs : Variables} {name : String} {value : String}
    (holds : vs.get? name = some value) (c : Call) :
    (vs.call c).get? name = some ((given name [c]).getLast?.getD value) := by
  cases c with
  | intern other =>
    rw [call, get?_intern]
    split
    · rename_i same
      subst same
      rw [holds]
      rfl
    · exact holds
  | set other value' =>
    have written : (given name [.set other value']).getLast?.getD value =
        if other = name then value' else value := by
      by_cases same : other = name <;> simp [given, same]
    rw [written, call]
    by_cases same : other = name
    · subst same
      have known : other ∈ vs.names := by
        by_contra unknown
        rw [get?_eq_none_iff.2 unknown] at holds
        cases holds
      obtain ⟨vs', changed⟩ := exists_set known value'
      rw [changed]
      dsimp only
      rw [get?_set changed, if_pos rfl, if_pos rfl]
    · rw [if_neg same]
      cases changed : vs.set other value' with
      | ok vs' => exact (get?_set changed name).trans ((if_neg (Ne.symm same)).trans holds)
      | error fault => exact holds

theorem get?_after (calls : List Call) (name : String) :
    (after calls).get? name = if name ∈ entered calls then some (lastGiven calls name) else none := by
  induction calls using List.reverseRecOn with
  | nil => rfl
  | append_singleton calls c ih =>
    rw [after_append_singleton]
    by_cases known : name ∈ entered calls
    · have grown : name ∈ entered (calls ++ [c]) := by
        rw [entered_append_singleton]
        cases c with
        | intern other => exact List.mem_append_left _ known
        | set other value => exact known
      rw [if_pos known] at ih
      rw [get?_call ih, if_pos grown, lastGiven, lastGiven, since_append known, given_append,
        List.getLast?_append]
      cases (given name [c]).getLast? <;> rfl
    · rw [if_neg known] at ih
      have unknown := get?_eq_none_iff.1 ih
      rw [lastGiven, since_of_notMem known, entered_append_singleton]
      cases c with
      | intern other =>
        rw [call, get?_intern, ih]
        by_cases same : name = other
        · subst same
          have none : given name (since name [.intern name]) = [] := by
            simp [since, given]
          simp [ih, none]
        · simp [same, known]
      | set other value =>
        have kept : ((after calls).call (.set other value)).get? name = none := by
          rw [get?_eq_none_iff, names_call]
          exact unknown
        rw [kept]
        exact (if_neg known).symm

end Variables

/-! ## Tables with an index -/

/-- A table that does not search for a name: an index has the slot of each. -/
structure IndexedVariables where
  entries : Array Variable := #[]
  index : Std.HashMap String Nat := {}

namespace IndexedVariables

open Variables (Call)

def slot? (t : IndexedVariables) (name : String) : Option Nat :=
  t.index[name]?

def get? (t : IndexedVariables) (name : String) : Option String :=
  (t.slot? name).bind fun slot => t.entries[slot]?.map Variable.value

def intern (t : IndexedVariables) (name : String) : Nat × IndexedVariables :=
  match t.slot? name with
  | some slot => (slot, t)
  | none => (t.entries.size, ⟨t.entries.push { name }, t.index.insert name t.entries.size⟩)

def set (t : IndexedVariables) (name value : String) : Except Fault IndexedVariables :=
  match t.slot? name with
  | some slot => .ok { t with entries := t.entries.modify slot fun v => { v with value } }
  | none => .error (.unknownVariable name)

def call (t : IndexedVariables) : Call → IndexedVariables
  | .intern name => (t.intern name).2
  | .set name value =>
    match t.set name value with
    | .ok t' => t'
    | .error _ => t

def after (calls : List Call) : IndexedVariables :=
  calls.foldl call {}

structure Indexes (t : IndexedVariables) (vs : Variables) : Prop where
  entries : t.entries = vs.entries
  slots : ∀ name, t.slot? name = vs.slot? name

variable {t : IndexedVariables} {vs : Variables}

theorem Indexes.get?_eq (indexes : t.Indexes vs) (name : String) : t.get? name = vs.get? name := by
  rw [get?, indexes.slots, indexes.entries, Variables.get?_eq_bind]

theorem Indexes.intern (indexes : t.Indexes vs) (name : String) :
    (t.intern name).1 = (vs.intern name).1 ∧ (t.intern name).2.Indexes (vs.intern name).2 := by
  rw [IndexedVariables.intern, Variables.intern, indexes.slots]
  cases found : vs.slot? name with
  | some slot => exact ⟨rfl, indexes⟩
  | none =>
    refine ⟨congrArg Array.size indexes.entries, ?_, ?_⟩
    · exact congrArg (Array.push · { name }) indexes.entries
    · intro other
      simp only [slot?, Std.HashMap.getElem?_insert, Variables.slot?, Array.findIdx?_push]
      change _ = (vs.slot? other).or _
      rw [indexes.entries, ← indexes.slots other]
      by_cases same : name = other
      · subst same
        rw [indexes.slots, found]
        simp
      · simp [same, slot?]

theorem Indexes.set_eq (indexes : t.Indexes vs) (name value : String) :
    t.set name value = (vs.set name value).map fun vs' => { t with entries := vs'.entries } := by
  rw [set, Variables.set, indexes.slots, indexes.entries]
  cases vs.slot? name <;> rfl

theorem Indexes.call (indexes : t.Indexes vs) (c : Call) : (t.call c).Indexes (vs.call c) := by
  cases c with
  | intern name => exact (indexes.intern name).2
  | set name value =>
    rw [IndexedVariables.call, Variables.call, indexes.set_eq]
    cases changed : vs.set name value with
    | ok vs' =>
      refine ⟨rfl, fun other => ?_⟩
      rw [Variables.slot?_of_names (Variables.names_set changed)]
      exact indexes.slots other
    | error fault => exact indexes

theorem indexes_after (calls : List Call) : (after calls).Indexes (Variables.after calls) := by
  induction calls using List.reverseRecOn with
  | nil => exact ⟨rfl, fun name => by simp [after, slot?, Variables.after, Variables.slot?]⟩
  | append_singleton calls c ih =>
    rw [after, List.foldl_append, Variables.after_append_singleton]
    exact ih.call c

end IndexedVariables

namespace Variables

theorem set_after (calls : List Call) (name value : String) :
    (after calls).set name value =
      if name ∈ entered calls then .ok (after (calls ++ [.set name value]))
      else .error (.unknownVariable name) := by
  have known : name ∈ (after calls).names ↔ name ∈ entered calls := by
    rw [names_after, List.mem_eraseDups]
  rw [after_append_singleton, call]
  split
  · rename_i member
    obtain ⟨vs, changed⟩ := exists_set (known.2 member) value
    rw [changed]
  · rename_i absent
    rw [set, slot?_eq_none_iff.2 (mt known.1 absent)]

/-- What a table answers, whatever calls were made to it.  Its names are those that were entered, in
the order in which they first were.  The slot of a name is its place among them, and is the answer
when the name is entered again; what calls follow does not change it.  Only the names that were
never entered have neither a slot nor a value.  The value of any other is the last that it was given
since it was first entered, or zero.  A name that was never entered cannot be given a value, and the
call leaves the table as it is.  A table that keeps the slots in an index gives the same answers. -/
theorem slots_kept (calls : List Call) :
    (after calls).names = (entered calls).eraseDups ∧
    (∀ name, (after calls).slot? name =
      if name ∈ entered calls then some ((entered calls).eraseDups.idxOf name) else none) ∧
    (∀ name, (after calls).intern name =
      ((entered (calls ++ [.intern name])).eraseDups.idxOf name, after (calls ++ [.intern name]))) ∧
    (∀ calls' name slot, (after calls).slot? name = some slot →
      (after (calls ++ calls')).slot? name = some slot) ∧
    (∀ name, (after calls).get? name =
      if name ∈ entered calls then some (lastGiven calls name) else none) ∧
    (∀ name value, (after calls).set name value =
      if name ∈ entered calls then .ok (after (calls ++ [.set name value]))
      else .error (.unknownVariable name)) ∧
    (∀ name value, name ∉ entered calls → after (calls ++ [.set name value]) = after calls) ∧
    (IndexedVariables.after calls).entries = (after calls).entries ∧
    ∀ name value,
      (IndexedVariables.after calls).slot? name = (after calls).slot? name ∧
      (IndexedVariables.after calls).get? name = (after calls).get? name ∧
      ((IndexedVariables.after calls).intern name).1 = ((after calls).intern name).1 ∧
      ((IndexedVariables.after calls).set name value).map IndexedVariables.entries =
        ((after calls).set name value).map Variables.entries := by
  have indexes := IndexedVariables.indexes_after calls
  refine ⟨names_after calls, slot?_after calls, ?_, ?_, get?_after calls, set_after calls, ?_,
    indexes.entries, ?_⟩
  · intro name
    rw [intern_eq, ← after_append_singleton, names_after]
  · exact fun calls' name slot => slot?_of_prefix (names_prefix_after calls calls')
  · intro name value absent
    have refused := set_after calls name value
    rw [if_neg absent] at refused
    rw [after_append_singleton, call, refused]
  · intro name value
    refine ⟨indexes.slots name, indexes.get?_eq name, (indexes.intern name).1, ?_⟩
    rw [indexes.set_eq]
    cases (after calls).set name value <;> rfl

/-- A name that is set too early, then entered, set, and entered again. -/
theorem slots_kept_reentered :
    let calls : List Call := [.set "a" "9", .intern "b", .intern "a", .set "a" "4", .intern "a"]
    (after calls).get? "a" = some "4" ∧
      (after (calls ++ [.intern "c", .set "b" "1"])).slot? "a" = some 1 ∧
      after (calls ++ [.set "c" "1"]) = after calls := by
  intro calls
  obtain ⟨-, slots, -, stable, values, -, refused, -⟩ := slots_kept calls
  refine ⟨(values "a").trans (by decide), stable _ "a" 1 ((slots "a").trans (by decide)), ?_⟩
  exact refused "c" "1" (by decide)

end Variables

end FormulaGrid
