import FormulaGrid.Fault
import FormulaGrid.Number

/-! # Variables

A name keeps its place in the table, its slot, for good, so an expression may hold the slot instead
of the value.
-/

namespace FormulaGrid

structure Variable where
  name : String
  value : String := "0"
  deriving DecidableEq, Repr

structure Variables where
  entries : Array Variable := #[]
  deriving DecidableEq, Repr

namespace Variables

def names (vs : Variables) : List String :=
  vs.entries.toList.map Variable.name

def slot? (vs : Variables) (name : String) : Option Nat :=
  vs.entries.findIdx? fun v => v.name == name

def get? (vs : Variables) (name : String) : Option String :=
  (vs.entries.find? fun v => v.name == name).map Variable.value

/-- The slot of a name, which is entered at the end of the table if it is new.  A name that is
there keeps its slot and its value. -/
def intern (vs : Variables) (name : String) : Nat × Variables :=
  match vs.slot? name with
  | some slot => (slot, vs)
  | none => (vs.entries.size, ⟨vs.entries.push { name }⟩)

theorem slot?_eq_none_iff {vs : Variables} {name : String} :
    vs.slot? name = none ↔ name ∉ vs.names := by
  simp only [slot?, names, Array.findIdx?_eq_none_iff, List.mem_map, Array.mem_toList_iff,
    beq_eq_false_iff_ne, not_exists, not_and]

theorem names_intern (vs : Variables) (name : String) :
    (vs.intern name).2.names = if name ∈ vs.names then vs.names else vs.names ++ [name] := by
  unfold intern
  split
  · rename_i slot h
    have hmem : name ∈ vs.names := Decidable.byContradiction fun hnot => by
      rw [slot?_eq_none_iff.2 hnot] at h
      cases h
    rw [if_pos hmem]
  · rename_i h
    rw [if_neg (slot?_eq_none_iff.1 h)]
    simp [names]

def ofNames (names : List String) : Variables :=
  names.foldl (fun vs name => (vs.intern name).2) {}

def set (vs : Variables) (name value : String) : Except Fault Variables :=
  match vs.slot? name with
  | some slot => .ok ⟨vs.entries.modify slot fun v => { v with value }⟩
  | none => .error (.unknownVariable name)

theorem names_set {vs vs' : Variables} {name value : String}
    (h : vs.set name value = .ok vs') : vs'.names = vs.names := by
  simp only [set] at h
  split at h
  · obtain rfl := Except.ok.inj h
    apply List.ext_getElem
    · simp [names]
    · intro i _ _
      simp only [names, List.getElem_map, Array.getElem_toList, Array.getElem_modify]
      split <;> rfl
  · cases h

/-- The number in a slot.  A value that is no number is reported under the name that the slot
holds. -/
def number (vs : Variables) (slot : Nat) : Except Fault Float :=
  match vs.entries[slot]? with
  | none => .error (.unboundSlot slot)
  | some v =>
    match Number.parse? v.value with
    | some x => .ok x
    | none => .error (.invalidNumber v.name v.value)

end Variables

end FormulaGrid
