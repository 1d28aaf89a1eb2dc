import FormulaGrid.Address.Parse

namespace FormulaGrid

structure Place (rows columns : Nat) where
  row : Fin rows
  column : Fin columns
  deriving DecidableEq, Repr

namespace Place

variable {rows columns : Nat}

instance : LawfulBEq (Place rows columns) where
  eq_of_beq := of_decide_eq_true
  rfl := decide_eq_true rfl

/-! ## Addresses -/

def address (p : Place rows columns) : Address :=
  ⟨p.row, p.column⟩

def name (p : Place rows columns) : String :=
  p.address.name

def ofAddress? (a : Address) : Option (Place rows columns) :=
  if hr : a.row < rows then
    if hc : a.column < columns then some ⟨⟨a.row, hr⟩, ⟨a.column, hc⟩⟩ else none
  else
    none

theorem ofAddress?_eq_some_iff {a : Address} {p : Place rows columns} :
    ofAddress? a = some p ↔ p.address = a := by
  obtain ⟨row, column⟩ := a
  obtain ⟨⟨r, hr⟩, ⟨c, hc⟩⟩ := p
  simp only [ofAddress?, address, Address.mk.injEq]
  constructor
  · intro h
    split at h
    · split at h
      · cases h
        exact ⟨rfl, rfl⟩
      · cases h
    · cases h
  · rintro ⟨rfl, rfl⟩
    rw [dif_pos hr, dif_pos hc]

def named? (text : String) : Option (Place rows columns) :=
  (Address.parse? text).bind ofAddress?

/-! ## Indices -/

def index (p : Place rows columns) : Fin (rows * columns) :=
  ⟨p.row * columns + p.column, calc
    p.row * columns + p.column < p.row * columns + columns := Nat.add_lt_add_left p.column.isLt _
    _ = (p.row + 1) * columns := (Nat.succ_mul _ _).symm
    _ ≤ rows * columns := Nat.mul_le_mul_right columns p.row.isLt⟩

def ofIndex (i : Fin (rows * columns)) : Place rows columns :=
  have hcolumns : 0 < columns := Nat.pos_of_ne_zero fun h => by
    have := i.isLt
    simp [h] at this
  { row := ⟨i / columns, Nat.div_lt_of_lt_mul (Nat.mul_comm rows columns ▸ i.isLt)⟩
    column := ⟨i % columns, Nat.mod_lt _ hcolumns⟩ }

@[simp]
theorem ofIndex_index (p : Place rows columns) : ofIndex p.index = p := by
  obtain ⟨⟨r, hr⟩, ⟨c, hc⟩⟩ := p
  have hcolumns : 0 < columns := Nat.lt_of_le_of_lt (Nat.zero_le c) hc
  simp only [ofIndex, index, mk.injEq, Fin.mk.injEq]
  constructor
  · rw [Nat.mul_comm, Nat.mul_add_div hcolumns, Nat.div_eq_of_lt hc, Nat.add_zero]
  · rw [Nat.mul_comm, Nat.mul_add_mod, Nat.mod_eq_of_lt hc]

@[simp]
theorem index_ofIndex (i : Fin (rows * columns)) : (ofIndex i).index = i := by
  apply Fin.ext
  show i / columns * columns + i % columns = i
  rw [Nat.mul_comm]
  exact Nat.div_add_mod i columns

theorem index_injective {p q : Place rows columns} (h : p.index = q.index) : p = q := by
  rw [← ofIndex_index p, h, ofIndex_index]

def all (rows columns : Nat) : List (Place rows columns) :=
  (List.finRange (rows * columns)).map ofIndex

theorem mem_all (p : Place rows columns) : p ∈ all rows columns :=
  List.mem_map.2 ⟨p.index, List.mem_finRange _, ofIndex_index p⟩

end Place

end FormulaGrid
