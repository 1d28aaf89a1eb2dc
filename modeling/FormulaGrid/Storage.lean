import FormulaGrid.Sheet.Calls

/-! # Row-major storage

The sheet on one array of cells, row after row.  Nothing in the index of a cell keeps within the
grid: the address one column past the end of a row has the index of the first cell of the next row,
and past the last row there is no cell at all.  Every access is watched.  One that finds no cell, or
the cell of another address, stops the program as astray.
-/

namespace FormulaGrid

structure StoredCell where
  address : Address
  text : String := ""
  value : String := ""
  background : UInt32 := 0xFFFFFFFF
  dependents : List Address := []
  precedents : List Address := []
  deriving DecidableEq, Repr

namespace StoredCell

def isEmpty (c : StoredCell) : Bool :=
  c.text.isEmpty && c.background == 0xFFFFFFFF

def reset (c : StoredCell) : StoredCell :=
  { address := c.address }

def enlist (a : Address) (as : List Address) : List Address :=
  if a ∈ as then as else as ++ [a]

def addDependent (a : Address) (c : StoredCell) : StoredCell :=
  { c with dependents := enlist a c.dependents }

def removeDependent (a : Address) (c : StoredCell) : StoredCell :=
  { c with dependents := c.dependents.filter fun b => b != a }

def addPrecedent (a : Address) (c : StoredCell) : StoredCell :=
  { c with precedents := enlist a c.precedents }

end StoredCell

structure Storage where
  rows : Nat
  columns : Nat
  settings : Settings
  cells : Array StoredCell
  occupied : List Address := []
  deriving DecidableEq

namespace Storage

/-! ## Cells -/

def create (rows columns : Nat) (settings : Settings) : Except Fault Storage :=
  if rows = 0 ∨ columns = 0 then
    .error (.invalidDimensions rows columns)
  else
    let addresses := (List.range rows).flatMap fun row => (List.range columns).map (Address.mk row)
    .ok { rows, columns, settings, cells := (addresses.map fun a => { address := a }).toArray }

def Holds (st : Storage) (a : Address) : Prop :=
  a.row < st.rows ∧ a.column < st.columns

instance (st : Storage) (a : Address) : Decidable (st.Holds a) :=
  inferInstanceAs (Decidable (_ ∧ _))

/-- The index of the cell at an address.  The words wrap around. -/
def index (st : Storage) (a : Address) : Nat :=
  (UInt64.ofNat a.row * UInt64.ofNat st.columns + UInt64.ofNat a.column).toNat

inductive Stop where
  | fault (f : Fault)
  /-- The index of the address leads to no cell, or to the cell of another address. -/
  | astray (a : Address)
  | endless
  deriving DecidableEq

abbrev Program :=
  EStateM Stop Storage

def after {α : Type} : EStateM.Result Stop Storage α → Storage
  | .ok _ st => st
  | .error _ st => st

def lift {α : Type} : Except Fault α → Program α
  | .ok answer => pure answer
  | .error f => throw (.fault f)

theorem bind_of_ok {α β : Type} {st st' : Storage} {program : Program α} {next : α → Program β}
    {a : α} (ran : program st = .ok a st') : (program >>= next) st = next a st' := by
  change EStateM.bind program next st = _
  rw [EStateM.bind, ran]

theorem bind_of_error {α β : Type} {st st' : Storage} {program : Program α}
    {next : α → Program β} {stop : Stop} (ran : program st = .error stop st') :
    (program >>= next) st = .error stop st' := by
  change EStateM.bind program next st = _
  rw [EStateM.bind, ran]

theorem bind_get {β : Type} (st : Storage) (next : Storage → Program β) :
    (get >>= next) st = next st st :=
  rfl

def fetch (a : Address) : Program StoredCell := do
  let st ← get
  match st.cells[st.index a]? with
  | some c => if c.address = a then return c else throw (.astray a)
  | none => throw (.astray a)

def amend (a : Address) (f : StoredCell → StoredCell) : Program Unit := do
  let c ← fetch a
  modify fun st => { st with cells := st.cells.setIfInBounds (st.index a) (f c) }

def cell? (a : Address) : Program (Option StoredCell) := do
  if (← get).Holds a then
    return some (← fetch a)
  else
    return none

def locate (a : Address) : Program Address := do
  match ← cell? a with
  | some c => return c.address
  | none => throw (.fault (.outOfBounds a.row a.column))

/-! ## Occupied cells -/

def insertAddress (a : Address) : List Address → List Address
  | [] => [a]
  | b :: bs =>
    if a = b then b :: bs
    else if a.le b then a :: b :: bs
    else b :: insertAddress a bs

def reindex (a : Address) : Program Unit := do
  if (← fetch a).isEmpty then
    modify fun st => { st with occupied := st.occupied.filter fun b => b != a }
  else
    modify fun st => { st with occupied := insertAddress a st.occupied }

def setBackground (a : Address) (background : UInt32) : Program Unit := do
  let a ← locate a
  amend a fun c => { c with background }
  reindex a

def clear : Program Unit :=
  modify fun st => { st with cells := st.cells.map StoredCell.reset, occupied := [] }

def records : Program (List Record) := do
  (← get).occupied.mapM fun a => do
    let c ← fetch a
    return ⟨c.address, c.text, c.background⟩

/-! ## Links -/

def strike (a : Address) (references former : List Address) : Program Unit :=
  former.forM fun b => do
    if b ∉ references then
      amend b (StoredCell.removeDependent a)

def dropLinks (a : Address) (references : List Address) : Program Unit := do
  let former := (← fetch a).precedents
  amend a fun c => { c with precedents := [] }
  strike a references former

def connect (a : Address) (references : List Address) : Program Unit :=
  references.forM fun b => do
    amend b (StoredCell.addDependent a)
    amend a (StoredCell.addPrecedent b)

def link (a : Address) (references : List Address) : Program Unit := do
  if (← get).settings.dropStale then
    dropLinks a references
  connect a references

/-! ## Evaluation -/

def resolve? (st : Storage) (name : String) : Option Address :=
  (Address.parse? name).filter fun a => st.Holds a

def namedReferences (st : Storage) (home : Address) : Content → List (String × Address)
  | .plain _ => []
  | .formula f =>
    (f.vars.names.filterMap fun name => (st.resolve? name).map (Prod.mk name)).filter
      fun reference => reference.2 != home

def bindReference (f : Formula) (reference : String × Address) : Program Formula := do
  let c ← fetch reference.2
  if (Number.parse? c.value).isSome then
    lift (f.setVariable reference.1 c.value)
  else
    return f

def valueOf (references : List (String × Address)) : Content → Program String
  | .plain text => return text
  | .formula f => do
    let bound ← references.foldlM bindReference f
    let x ← lift bound.evaluate
    return Number.text x

def evaluateCell (a : Address) : Program (Address × String) := do
  let content ← lift (Content.read (← fetch a).text)
  let references := (← get).namedReferences a content
  link a (references.map Prod.snd)
  let value ← valueOf references content
  amend a fun c => { c with value }
  return (a, value)

/-! ## Walks -/

/-- A walk under way.  The path has its end first and holds for each cell the position of the next
dependent to look at. -/
structure Tour where
  path : List (Address × Nat)
  visited : List Address
  finished : List Address := []

def Tour.turn (t : Tour) : Program (List Address ⊕ Tour) :=
  match t.path with
  | [] => return .inl t.finished
  | (a, next) :: rest => do
    match (← fetch a).dependents[next]? with
    | none => return .inr { t with path := rest, finished := a :: t.finished }
    | some b =>
      let path := (a, next + 1) :: rest
      if b ∈ path.map Prod.fst then
        throw (.fault (.circularReference b))
      else if b ∈ t.visited then
        return .inr { t with path }
      else
        let limit := (← get).settings.depthLimit
        if limit ≤ path.length then
          throw (.fault (.cascadeTooDeep limit))
        else
          return .inr { t with path := (b, 0) :: path, visited := b :: t.visited }

def tour : Nat → Tour → Program (List Address)
  | 0, _ => throw .endless
  | fuel + 1, t => do
    match ← t.turn with
    | .inl order => return order
    | .inr t => tour fuel t

/-- The turns that all cells can cause together: one for each dependent, and two for each cell. -/
def turns (st : Storage) : Nat :=
  Cascade.total (fun c => c.dependents.length + 2) st.cells.toList

def cascade (origin : Address) : Program (List Address) := do
  tour (← get).turns { path := [(origin, 0)], visited := [origin] }

/-! ## Calls -/

def recalculate (origin : Address) : Program (List (Address × String)) := do
  let first ← evaluateCell origin
  let order ← cascade origin
  let others ← order.tail.mapM evaluateCell
  return first :: others

def setText (a : Address) (text : String) : Program (List (Address × String)) := do
  let a ← locate a
  amend a fun c => { c with text }
  reindex a
  recalculate a

def enter (r : Record) : Program Unit := do
  setBackground r.address r.background
  discard (setText r.address r.text)

def load (records : List Record) : Program Unit := do
  clear
  records.forM enter

def perform : Call → Program (List (Address × String))
  | .setText a text => setText a text
  | .setBackground a background => do
    setBackground a background
    return []
  | .clear => do
    clear
    return []
  | .load records => do
    load records
    return []

def run (st : Storage) (history : List Call) : Storage :=
  history.foldl (fun st c => after (perform c st)) st

end Storage

end FormulaGrid
