import FormulaGrid.Place

/-! # Cascades

The cascade of a cell is the cell and everything that depends on it, in an order that puts each cell
before its dependents.  It is found by a walk along the dependents that goes as deep as it can.  A
cell is finished when all its dependents are; the cells in the reverse of the order in which they
are finished are the cascade.

The walk keeps the path from the first cell to the present one.  A dependent on the path closes a
cycle.  A finished dependent is passed over.  Any other one lengthens the path, which may not grow
beyond the limit.  The walk ends whatever the dependents are: each turn looks at one more dependent
or finishes a cell, and no cell is entered twice.
-/

namespace FormulaGrid.Cascade

variable {rows columns : Nat}

/-- A cell on the path, with those of its dependents that have not been looked at. -/
structure Frame (rows columns : Nat) where
  place : Place rows columns
  pending : List (Place rows columns)
  deriving DecidableEq, Repr

/-- A walk under way: the path, its end first, and the finished cells, the last one first. -/
structure Walk (rows columns : Nat) where
  path : List (Frame rows columns)
  finished : List (Place rows columns) := []
  deriving DecidableEq, Repr

namespace Walk

def places (w : Walk rows columns) : List (Place rows columns) :=
  w.path.map Frame.place

def Reached (w : Walk rows columns) (p : Place rows columns) : Prop :=
  p ∈ w.places ∨ p ∈ w.finished

instance (w : Walk rows columns) (p : Place rows columns) : Decidable (w.Reached p) :=
  inferInstanceAs (Decidable (_ ∨ _))

def start (dependents : Place rows columns → List (Place rows columns))
    (origin : Place rows columns) : Walk rows columns :=
  { path := [⟨origin, dependents origin⟩] }

end Walk

inductive Turn (rows columns : Nat) where
  | arrived (order : List (Place rows columns))
  | refused (fault : Fault)
  | onward (w : Walk rows columns)

/-- One turn: the end of the path is finished if it has no dependents left to look at, and otherwise
its next dependent is looked at. -/
def turn (dependents : Place rows columns → List (Place rows columns)) (limit : Nat)
    (w : Walk rows columns) : Turn rows columns :=
  match w.path with
  | [] => .arrived w.finished
  | ⟨p, []⟩ :: rest => .onward { path := rest, finished := p :: w.finished }
  | ⟨p, q :: qs⟩ :: rest =>
    -- the cycle test comes before the depth test, and a finished cell is never too deep
    if q ∈ w.places then
      .refused (.circularReference q.address)
    else if q ∈ w.finished then
      .onward { w with path := ⟨p, qs⟩ :: rest }
    else if limit ≤ w.path.length then
      .refused (.cascadeTooDeep limit)
    else
      .onward { w with path := ⟨q, dependents q⟩ :: ⟨p, qs⟩ :: rest }

/-! ## The walk ends -/

def Frame.turns (f : Frame rows columns) : Nat :=
  f.pending.length + 1

def Walk.turnsAhead (dependents : Place rows columns → List (Place rows columns))
    (w : Walk rows columns) (p : Place rows columns) : Nat :=
  if w.Reached p then 0 else (dependents p).length + 2

def total {α : Type} (f : α → Nat) : List α → Nat
  | [] => 0
  | a :: l => f a + total f l

/-- A bound on the turns that are left. -/
def Walk.turns (dependents : Place rows columns → List (Place rows columns))
    (w : Walk rows columns) : Nat :=
  total (w.turnsAhead dependents) (Place.all rows columns) + total Frame.turns w.path

theorem total_le {α : Type} {f g : α → Nat} (hle : ∀ a, f a ≤ g a) (l : List α) :
    total f l ≤ total g l := by
  induction l with
  | nil => exact Nat.le_refl _
  | cons b l ih =>
    have := hle b
    simp only [total]
    omega

/-- Where one summand is lowered and none is raised, the sum is lowered as much. -/
theorem total_add_le {α : Type} {f g : α → Nat} {k : Nat} {a : α} (hle : ∀ b, f b ≤ g b)
    (hlt : f a + k ≤ g a) : ∀ {l : List α}, a ∈ l → total f l + k ≤ total g l
  | b :: l, hmem => by
    simp only [total]
    rcases List.mem_cons.1 hmem with rfl | hmem
    · have := total_le hle l
      omega
    · have := total_add_le hle hlt hmem
      have := hle b
      omega

/-- What has been reached stays reached, so fewer cells may still cause turns. -/
theorem turnsAhead_le (dependents : Place rows columns → List (Place rows columns))
    {v w : Walk rows columns} (h : ∀ p, w.Reached p → v.Reached p) (p : Place rows columns) :
    v.turnsAhead dependents p ≤ w.turnsAhead dependents p := by
  simp only [Walk.turnsAhead]
  by_cases hw : w.Reached p
  · rw [if_pos (h p hw)]
    exact Nat.zero_le _
  · rw [if_neg hw]
    split
    · exact Nat.zero_le _
    · exact Nat.le_refl _

/-- A turn that leads on leaves fewer turns. -/
theorem turns_lt_of_turn_eq_onward {dependents : Place rows columns → List (Place rows columns)}
    {limit : Nat} {w v : Walk rows columns} (h : turn dependents limit w = .onward v) :
    v.turns dependents < w.turns dependents := by
  obtain ⟨path, finished⟩ := w
  unfold turn at h
  split at h
  · cases h
  · rename_i p rest hpath
    obtain rfl := Turn.onward.inj h
    obtain rfl : path = ⟨p, []⟩ :: rest := hpath
    have reached : ∀ q, Walk.Reached ⟨⟨p, []⟩ :: rest, finished⟩ q →
        Walk.Reached ⟨rest, p :: finished⟩ q := by
      simp only [Walk.Reached, Walk.places, List.map_cons, List.mem_cons]
      grind
    have hle := total_le (turnsAhead_le dependents reached) (Place.all rows columns)
    simp only [Walk.turns, total, Frame.turns, List.length_nil]
    omega
  · rename_i p q qs rest hpath
    obtain rfl : path = ⟨p, q :: qs⟩ :: rest := hpath
    split at h
    · cases h
    · rename_i honpath
      split at h
      · obtain rfl := Turn.onward.inj h
        have reached : ∀ r, Walk.Reached ⟨⟨p, q :: qs⟩ :: rest, finished⟩ r →
            Walk.Reached ⟨⟨p, qs⟩ :: rest, finished⟩ r := fun _ hr => hr
        have hle := total_le (turnsAhead_le dependents reached) (Place.all rows columns)
        simp only [Walk.turns, total, Frame.turns, List.length_cons]
        omega
      · rename_i hfinished
        split at h
        · cases h
        · obtain rfl := Turn.onward.inj h
          have reached : ∀ r, Walk.Reached ⟨⟨p, q :: qs⟩ :: rest, finished⟩ r →
              Walk.Reached ⟨⟨q, dependents q⟩ :: ⟨p, qs⟩ :: rest, finished⟩ r := by
            simp only [Walk.Reached, Walk.places, List.map_cons, List.mem_cons]
            grind
          have entered : Walk.turnsAhead dependents
                ⟨⟨q, dependents q⟩ :: ⟨p, qs⟩ :: rest, finished⟩ q + ((dependents q).length + 2) ≤
              Walk.turnsAhead dependents ⟨⟨p, q :: qs⟩ :: rest, finished⟩ q := by
            have hnew : ¬ Walk.Reached ⟨⟨p, q :: qs⟩ :: rest, finished⟩ q :=
              not_or.2 ⟨honpath, hfinished⟩
            have hnow : Walk.Reached ⟨⟨q, dependents q⟩ :: ⟨p, qs⟩ :: rest, finished⟩ q :=
              Or.inl List.mem_cons_self
            simp only [Walk.turnsAhead, if_pos hnow, if_neg hnew, Nat.zero_add, Nat.le_refl]
          have hle := total_add_le (turnsAhead_le dependents reached) entered (Place.mem_all q)
          simp only [Walk.turns, total, Frame.turns, List.length_cons]
          omega

def walk (dependents : Place rows columns → List (Place rows columns)) (limit : Nat)
    (w : Walk rows columns) : Except Fault (List (Place rows columns)) :=
  match _ : turn dependents limit w with
  | .arrived order => .ok order
  | .refused fault => .error fault
  | .onward v => walk dependents limit v
termination_by w.turns dependents
decreasing_by exact turns_lt_of_turn_eq_onward ‹_›

/-- The cells that depend on `origin`, directly or through others, each after all it depends on, and
`origin` first. -/
def order (dependents : Place rows columns → List (Place rows columns)) (limit : Nat)
    (origin : Place rows columns) : Except Fault (List (Place rows columns)) :=
  walk dependents limit (.start dependents origin)

end FormulaGrid.Cascade
