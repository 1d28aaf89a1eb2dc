import FormulaGrid.Proofs.StorageAccess

/-! # Evaluation on the storage of a sheet

The edits of a sheet are brought to a form in which what they ask of the sheet stands apart from
what they change.  A walk on the storage keeps for each cell of its path the position of the next
dependent, where a walk on the sheet keeps the dependents that are left; and it keeps all cells that
it has come to in one list.
-/

namespace FormulaGrid

variable {rows columns : Nat}

theorem Cascade.total_map {α β : Type} (f : β → Nat) (g : α → β) (as : List α) :
    total f (as.map g) = total (fun a => f (g a)) as := by
  induction as with
  | nil => rfl
  | cons a as ih => rw [List.map_cons, total, total, ih]

def Update.stored (u : Update rows columns) : Address × String :=
  (u.place.address, u.value)

/-! ## Questions to a sheet -/

namespace Sheet

def ask {α : Type} (view : Sheet rows columns → Except Fault α) : Edit rows columns α := fun s =>
  match view s with
  | .ok a => .ok a s
  | .error fault => .error fault s

theorem ask_bind {α β : Type} (view : Sheet rows columns → Except Fault α)
    (next : α → Sheet rows columns → Except Fault β) :
    ask (fun s => view s >>= fun a => next a s) = ask view >>= fun a => ask (next a) := by
  funext s
  rw [run_bind]
  simp only [ask]
  cases view s <;> rfl

theorem ofExcept_eq_ask {α : Type} (e : Except Fault α) :
    (MonadExcept.ofExcept e : Edit rows columns α) = ask fun _ => e := by
  cases e <;> rfl

theorem evaluateCell_eq_ask (p : Place rows columns) :
    evaluateCell p = do
      let content ← ask fun s => Content.read (s.cell p).text
      modify fun s => s.link p (content.references p)
      let value ← ask fun s => content.value s p
      modify fun s => s.update p fun c => { c with value }
      return ⟨p, value⟩ := by
  funext s
  rw [run_bind]
  simp only [evaluateCell, ask]
  cases Content.read (s.cell p).text with
  | error fault => rfl
  | ok content =>
    dsimp only
    change _ = (ask (fun s => content.value s p) >>= _ : Edit rows columns _)
      (s.link p (content.references p))
    rw [run_bind, ask]
    cases content.value (s.link p (content.references p)) p <;> rfl

theorem recalculate_eq_ask (origin : Place rows columns) :
    recalculate origin = do
      let first ← evaluateCell origin
      let order ← ask fun s => s.cascade origin
      let others ← order.tail.mapM evaluateCell
      return first :: others := by
  rw [recalculate]
  congr 1
  funext first s
  change (MonadExcept.ofExcept (s.cascade origin) >>= _ : Edit rows columns _) s = _
  rw [ofExcept_eq_ask, run_bind, run_bind]
  rfl

end Sheet

namespace Storage

open Sheet (ask)

variable {α β : Type}

theorem runs_ask {program : Program β} {view : Sheet rows columns → Except Fault α} {f : α → β}
    (answers : ∀ s, s.Placed → program s.stored = image f (ask view s)) :
    Runs program (ask view) f := by
  intro s placed
  refine ⟨?_, answers s placed⟩
  rw [ask]
  cases view s <;> exact placed

theorem runs_lift (e : Except Fault α) :
    Runs (lift e) (ask fun _ => e : Edit rows columns α) id := by
  refine runs_ask fun s _ => ?_
  cases e <;> rfl

theorem runs_get {next : Storage → Program β} {program : Program β} {edit : Edit rows columns α}
    {f : α → β} (same : ∀ s : Sheet rows columns, next s.stored = program)
    (runs : Runs program edit f) : Runs (get >>= next) edit f := by
  intro s placed
  rw [bind_get, same]
  exact runs s placed

/-! ## Evaluation -/

def located (reference : String × Place rows columns) : String × Address :=
  (reference.1, reference.2.address)

theorem resolve?_stored (s : Sheet rows columns) (name : String) :
    s.stored.resolve? name =
      (Place.named? name : Option (Place rows columns)).map Place.address := by
  rw [resolve?, Place.named?]
  cases Address.parse? name with
  | none => rfl
  | some a =>
    rw [Option.bind_some]
    cases found : (Place.ofAddress? a : Option (Place rows columns)) with
    | none =>
      have outside : ¬ s.stored.Holds a := not_holds_of_none found
      simp [Option.filter_some, outside]
    | some p =>
      obtain rfl := Place.ofAddress?_eq_some_iff.1 found
      have inside : s.stored.Holds p.address := holds_stored_iff.2 ⟨p, rfl⟩
      simp [Option.filter_some, inside]

theorem namedReferences_stored (s : Sheet rows columns) (home : Place rows columns)
    (content : Content) :
    s.stored.namedReferences home.address content = (content.namedReferences home).map located := by
  cases content with
  | plain text => rfl
  | formula f =>
    rw [namedReferences, Content.namedReferences, List.filter_filterMap, List.map_filterMap]
    congr 1
    funext name
    rw [resolve?_stored]
    cases Place.named? name with
    | none => rfl
    | some p =>
      by_cases self : p = home
      · simp [self, Option.filter_some]
      · simp [self, Option.filter_some, Place.address_injective.eq_iff, located]

theorem runs_bindReference (fits : rows * columns ≤ UInt64.size) (f : Formula)
    (reference : String × Place rows columns) :
    Runs (bindReference f (located reference)) (ask fun s => Content.bindReference s f reference)
      id := by
  refine runs_ask fun s placed => ?_
  have number : (Number.parse? (s.cell reference.2).stored.value).isSome =
      (s.cell reference.2).number?.isSome := rfl
  change (fetch reference.2.address >>= _) s.stored = _
  rw [bind_of_ok (fetch_stored fits placed reference.2), ask, Content.bindReference, number]
  split
  · exact ((runs_lift (f.setVariable reference.1 (s.cell reference.2).value)) s placed).2
  · rfl

theorem runs_bindReferences (fits : rows * columns ≤ UInt64.size)
    (references : List (String × Place rows columns)) (f : Formula) :
    Runs ((references.map located).foldlM bindReference f)
      (ask fun s => references.foldlM (Content.bindReference s) f) id := by
  induction references generalizing f with
  | nil => exact runs_pure id f
  | cons reference references ih =>
    simp only [List.map_cons, List.foldlM_cons]
    rw [Sheet.ask_bind]
    exact (runs_bindReference fits f reference).bind ih

theorem runs_valueOf (fits : rows * columns ≤ UInt64.size) (home : Place rows columns)
    (content : Content) :
    Runs (valueOf ((content.namedReferences home).map located) content)
      (ask fun s => content.value s home) id := by
  cases content with
  | plain text => exact runs_pure id text
  | formula f =>
    simp only [valueOf, Content.value]
    rw [Sheet.ask_bind]
    refine (runs_bindReferences fits _ f).bind fun bound => ?_
    rw [Sheet.ask_bind]
    exact (runs_lift bound.evaluate).bind fun x => runs_pure id (Number.text x)

theorem runs_evaluateCell (fits : rows * columns ≤ UInt64.size) (p : Place rows columns) :
    Runs (evaluateCell p.address) (Sheet.evaluateCell p) Update.stored := by
  have read : Runs (do lift (Content.read (← fetch p.address).text))
      (ask fun s => Content.read (s.cell p).text) id := by
    refine runs_ask fun s placed => ?_
    rw [bind_of_ok (fetch_stored fits placed p)]
    exact (runs_lift (Content.read (s.cell p).text) s placed).2
  rw [Sheet.evaluateCell_eq_ask, evaluateCell, ← bind_assoc]
  refine read.bind fun content => runs_get (fun s => by rw [id, namedReferences_stored]) ?_
  have references : ((content.namedReferences p).map located).map Prod.snd =
      (content.references p).map Place.address := by
    simp only [Content.references, List.map_map]
    rfl
  dsimp only
  rw [references]
  refine (changes_link fits p (content.references p)).bind fun _ => ?_
  refine (runs_valueOf fits p content).bind fun value => ?_
  have entered : Changes (amend p.address fun c => { c with value }) fun s =>
      s.update p fun c => { c with value } :=
    changes_amend fits p (fun _ => rfl) fun _ => rfl
  exact entered.bind fun _ => runs_pure Update.stored ⟨p, value⟩

/-! ## Walks -/

section Walks

open Cascade (Frame Walk Turn)

/-- The position of the next dependent stands for the dependents from there on. -/
structure Marks (s : Sheet rows columns) (mark : Address × Nat) (frame : Frame rows columns) :
    Prop where
  place : mark.1 = frame.place.address
  pending : frame.pending = (s.cell frame.place).dependents.drop mark.2

/-- A walk on the storage has come as far as a walk on the sheet. -/
structure Charts (s : Sheet rows columns) (t : Tour) (w : Walk rows columns) : Prop where
  path : List.Forall₂ (Marks s) t.path w.path
  visited : ∀ p, p.address ∈ t.visited ↔ w.Reached p
  finished : t.finished = w.finished.map Place.address

variable {s : Sheet rows columns}

theorem Marks.next? {a : Address} {next : Nat} {p : Place rows columns}
    {pending : List (Place rows columns)} (marks : Marks s (a, next) ⟨p, pending⟩) :
    (s.cell p).stored.dependents[next]? = pending.head?.map Place.address := by
  have rest : pending = (s.cell p).dependents.drop next := marks.pending
  rw [rest, List.head?_drop]
  exact List.getElem?_map

theorem Marks.advance {a : Address} {next : Nat} {p q : Place rows columns}
    {pending : List (Place rows columns)} (marks : Marks s (a, next) ⟨p, q :: pending⟩) :
    Marks s (a, next + 1) ⟨p, pending⟩ where
  place := marks.place
  pending := by rw [← List.tail_drop, ← marks.pending, List.tail_cons]

theorem places_of_marks {marks : List (Address × Nat)} {path : List (Frame rows columns)}
    (charted : List.Forall₂ (Marks s) marks path) :
    marks.map Prod.fst = (path.map Frame.place).map Place.address := by
  induction charted with
  | nil => rfl
  | cons head _ ih => rw [List.map_cons, List.map_cons, List.map_cons, ih, head.place]

theorem Charts.mem_path_iff {t : Tour} {w : Walk rows columns} (charts : Charts s t w)
    {p : Place rows columns} : p.address ∈ t.path.map Prod.fst ↔ p ∈ w.places := by
  rw [places_of_marks charts.path]
  exact Place.mem_map_address

/-- The end of the path is finished. -/
theorem Charts.finish {a : Address} {next : Nat} {p : Place rows columns}
    {marks : List (Address × Nat)} {path : List (Frame rows columns)}
    {visited finished : List Address} {done : List (Place rows columns)}
    (charts : Charts s ⟨(a, next) :: marks, visited, finished⟩ ⟨⟨p, []⟩ :: path, done⟩) :
    Charts s ⟨marks, visited, a :: finished⟩ ⟨path, p :: done⟩ := by
  obtain ⟨_ | ⟨first, others⟩, reached, same⟩ := charts
  refine ⟨others, fun q => ?_, ?_⟩
  · have before := reached q
    simp only [Walk.Reached, Walk.places, List.map_cons, List.mem_cons] at before ⊢
    rw [before]
    tauto
  · have home : a = p.address := first.place
    rw [List.map_cons, home]
    exact congrArg (p.address :: ·) same

/-- The next dependent has been looked at. -/
theorem Charts.advance {a : Address} {next : Nat} {p q : Place rows columns}
    {marks : List (Address × Nat)} {pending : List (Place rows columns)}
    {path : List (Frame rows columns)} {visited finished : List Address}
    {done : List (Place rows columns)}
    (charts : Charts s ⟨(a, next) :: marks, visited, finished⟩ ⟨⟨p, q :: pending⟩ :: path, done⟩) :
    Charts s ⟨(a, next + 1) :: marks, visited, finished⟩ ⟨⟨p, pending⟩ :: path, done⟩ := by
  obtain ⟨_ | ⟨first, others⟩, reached, same⟩ := charts
  exact ⟨.cons first.advance others, reached, same⟩

/-- A cell is entered, with all its dependents to be looked at. -/
theorem Charts.enter {t : Tour} {w : Walk rows columns} (charts : Charts s t w)
    (q : Place rows columns) :
    Charts s { t with path := (q.address, 0) :: t.path, visited := q.address :: t.visited }
      { w with path := ⟨q, (s.cell q).dependents⟩ :: w.path } where
  path := .cons ⟨rfl, rfl⟩ charts.path
  visited p := by
    have before := charts.visited p
    simp only [Walk.Reached, Walk.places, List.map_cons, List.mem_cons,
      Place.address_injective.eq_iff] at before ⊢
    rw [before, or_assoc]
  finished := charts.finished

def Shows (s : Sheet rows columns) :
    Turn rows columns → EStateM.Result Stop Storage (List Address ⊕ Tour) → Prop
  | .arrived order, result => result = .ok (.inl (order.map Place.address)) s.stored
  | .refused fault, result => result = .error (.fault fault) s.stored
  | .onward w, result => ∃ t, result = .ok (.inr t) s.stored ∧ Charts s t w

/-- The two walks look at the same dependent, and decide alike what to do with it. -/
theorem turn_stored (fits : rows * columns ≤ UInt64.size) (placed : s.Placed) {t : Tour}
    {w : Walk rows columns} (charts : Charts s t w) :
    Shows s (Cascade.turn (fun p => (s.cell p).dependents) s.settings.depthLimit w)
      (t.turn s.stored) := by
  obtain ⟨marks, visited, finished⟩ := t
  obtain ⟨path, done⟩ := w
  obtain charted : List.Forall₂ (Marks s) marks path := charts.path
  cases charted with
  | nil =>
    obtain rfl : finished = done.map Place.address := charts.finished
    rfl
  | @cons mark frame marks path marked others =>
    obtain ⟨a, next⟩ := mark
    obtain ⟨p, pending⟩ := frame
    obtain rfl : a = p.address := marked.place
    simp only [Tour.turn]
    rw [bind_of_ok (fetch_stored fits placed p), marked.next?]
    cases pending with
    | nil => exact ⟨_, rfl, charts.finish⟩
    | cons q pending =>
      have advanced := charts.advance
      have onPath : q.address ∈ ((p.address, next + 1) :: marks).map Prod.fst ↔
          q ∈ Walk.places ⟨⟨p, q :: pending⟩ :: path, done⟩ := advanced.mem_path_iff
      have reached : q.address ∈ visited ↔
          q ∈ Walk.places ⟨⟨p, q :: pending⟩ :: path, done⟩ ∨ q ∈ done := charts.visited q
      have length : ((p.address, next + 1) :: marks).length =
          (Walk.path ⟨⟨p, q :: pending⟩ :: path, done⟩).length := advanced.path.length_eq
      have settings : s.stored.settings = s.settings := rfl
      simp only [List.head?_cons, Option.map_some, Cascade.turn, onPath, reached]
      split
      · rfl
      · rename_i apart
        simp only [apart, false_or]
        split
        · exact ⟨_, rfl, advanced⟩
        · rw [bind_get, settings, length]
          split
          · rfl
          · exact ⟨_, rfl, advanced.enter q⟩

theorem tour_stored (fits : rows * columns ≤ UInt64.size) (placed : s.Placed) {fuel : Nat}
    {t : Tour} {w : Walk rows columns} (charts : Charts s t w)
    (enough : w.turns (fun p => (s.cell p).dependents) < fuel) :
    tour fuel t s.stored = image (List.map Place.address) (ask (fun s =>
      Cascade.walk (fun p => (s.cell p).dependents) s.settings.depthLimit w) s) := by
  induction fuel generalizing t w with
  | zero => omega
  | succ fuel ih =>
    have shown := turn_stored fits placed charts
    rw [tour, ask, Cascade.walk_eq]
    cases turned : Cascade.turn (fun p => (s.cell p).dependents) s.settings.depthLimit w with
    | arrived order =>
      rw [turned] at shown
      rw [bind_of_ok shown]
      rfl
    | refused fault =>
      rw [turned] at shown
      rw [bind_of_error shown]
      rfl
    | onward v =>
      rw [turned] at shown
      obtain ⟨u, ran, charts'⟩ := shown
      have fewer := Cascade.turns_lt_of_turn_eq_onward turned
      rw [bind_of_ok ran]
      exact ih charts' (by omega)

theorem turns_stored (s : Sheet rows columns) :
    s.stored.turns = Cascade.total (fun p => (s.cell p).dependents.length + 2)
      (Place.all rows columns) := by
  rw [turns, Sheet.cells_stored, Cascade.total_map]
  simp only [Cell.stored, List.length_map]

/-- The cells can cause enough turns together for a walk from any of them. -/
theorem turns_start_lt (s : Sheet rows columns) (origin : Place rows columns) :
    (Walk.start (fun p => (s.cell p).dependents) origin).turns (fun p => (s.cell p).dependents) <
      s.stored.turns := by
  have start : Walk.Reached (.start (fun p => (s.cell p).dependents) origin) origin :=
    .inl List.mem_cons_self
  have most : ∀ p, Walk.turnsAhead (fun p => (s.cell p).dependents)
      (.start (fun p => (s.cell p).dependents) origin) p ≤ (s.cell p).dependents.length + 2 := by
    intro p
    rw [Walk.turnsAhead]
    split
    · exact Nat.zero_le _
    · exact Nat.le_refl _
  have spared : Walk.turnsAhead (fun p => (s.cell p).dependents)
      (.start (fun p => (s.cell p).dependents) origin) origin +
        ((s.cell origin).dependents.length + 2) ≤ (s.cell origin).dependents.length + 2 := by
    rw [Walk.turnsAhead, if_pos start, Nat.zero_add]
  have bound := Cascade.total_add_le most spared (Place.mem_all origin)
  rw [turns_stored, Walk.turns]
  simp only [Walk.start, Cascade.total, Frame.turns]
  simp only [Walk.start] at bound
  omega

theorem runs_cascade (fits : rows * columns ≤ UInt64.size) (origin : Place rows columns) :
    Runs (cascade origin.address) (ask fun s => s.cascade origin) (List.map Place.address) := by
  refine runs_ask fun s placed => ?_
  have charts : Charts s { path := [(origin.address, 0)], visited := [origin.address] }
      (.start (fun p => (s.cell p).dependents) origin) := by
    refine ⟨.cons ⟨rfl, rfl⟩ .nil, fun p => ?_, rfl⟩
    simp [Walk.Reached, Walk.places, Walk.start, Place.address_injective.eq_iff]
  rw [cascade, bind_get]
  exact tour_stored fits placed charts (turns_start_lt s origin)

end Walks

theorem runs_recalculate (fits : rows * columns ≤ UInt64.size) (origin : Place rows columns) :
    Runs (recalculate origin.address) (Sheet.recalculate origin) (List.map Update.stored) := by
  rw [Sheet.recalculate_eq_ask, recalculate]
  refine (runs_evaluateCell fits origin).bind fun first => ?_
  refine (runs_cascade fits origin).bind fun order => ?_
  rw [← List.map_tail]
  refine (Runs.mapM (runs_evaluateCell fits) order.tail).bind fun others => ?_
  exact runs_pure (List.map Update.stored) (first :: others)

end Storage

end FormulaGrid
