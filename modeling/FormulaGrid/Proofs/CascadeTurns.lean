import FormulaGrid.Proofs.CascadeOrder

/-! # The turns of a walk

Every turn does something new: a cell is entered once and finished once, and each place in its list
is looked at once.  What the turns have done and what the path still asks for is, at any time, what
the cells ask for that were reached, so a walk has no more turns than the grid asks for altogether.
-/

namespace FormulaGrid.Cascade

open Relation

variable {rows columns : Nat} {dependents : Place rows columns → List (Place rows columns)}
  {limit : Nat} {origin : Place rows columns}

/-! ## Deeds -/

/-- What a turn does that leads on. -/
inductive Deed (rows columns : Nat) where
  | finish (p : Place rows columns)
  | pass (p : Place rows columns) (i : Nat)
  | enter (p : Place rows columns) (i : Nat) (q : Place rows columns)

def Deed.entry? : Deed rows columns → Option (Place rows columns × Nat)
  | finish _ => none
  | pass p i | enter p i _ => some (p, i)

def Deed.entered? : Deed rows columns → Option (Place rows columns)
  | finish _ | pass _ _ => none
  | enter _ _ q => some q

def consumed (deeds : List (Deed rows columns)) : List (Place rows columns × Nat) :=
  deeds.filterMap Deed.entry?

def entered (deeds : List (Deed rows columns)) : List (Place rows columns) :=
  deeds.filterMap Deed.entered?

/-- A deed between two walks.  What is pending of a cell are its dependents from an index on. -/
inductive Does (dependents : Place rows columns → List (Place rows columns)) :
    Walk rows columns → Deed rows columns → Walk rows columns → Prop
  | finish (p : Place rows columns) (path : List (Frame rows columns))
    (finished : List (Place rows columns)) :
    Does dependents ⟨⟨p, []⟩ :: path, finished⟩ (.finish p) ⟨path, p :: finished⟩
  | pass {p q : Place rows columns} {i : Nat} {pending finished : List (Place rows columns)}
    {path : List (Frame rows columns)} (entry : (dependents p).drop i = q :: pending)
    (done : q ∈ finished) :
    Does dependents ⟨⟨p, q :: pending⟩ :: path, finished⟩ (.pass p i) ⟨⟨p, pending⟩ :: path, finished⟩
  | enter {p q : Place rows columns} {i : Nat} {pending finished : List (Place rows columns)}
    {path : List (Frame rows columns)} (entry : (dependents p).drop i = q :: pending)
    (fresh : ¬ Walk.Reached ⟨⟨p, q :: pending⟩ :: path, finished⟩ q) :
    Does dependents ⟨⟨p, q :: pending⟩ :: path, finished⟩ (.enter p i q)
      ⟨⟨q, dependents q⟩ :: ⟨p, pending⟩ :: path, finished⟩

/-- The walks that the turns from `origin` lead to, with their deeds, the latest first. -/
inductive Trail (dependents : Place rows columns → List (Place rows columns)) (limit : Nat)
    (origin : Place rows columns) : List (Deed rows columns) → Walk rows columns → Prop
  | start : Trail dependents limit origin [] (.start dependents origin)
  | step {deeds : List (Deed rows columns)} {d : Deed rows columns} {w v : Walk rows columns}
    (trail : Trail dependents limit origin deeds w) (onward : turn dependents limit w = .onward v)
    (does : Does dependents w d v) : Trail dependents limit origin (d :: deeds) v

theorem Trail.sound {deeds : List (Deed rows columns)} {w : Walk rows columns}
    (trail : Trail dependents limit origin deeds w) : w.Sound dependents origin := by
  induction trail with
  | start => exact sound_start dependents origin
  | step _ onward _ ih => exact sound_turn ih onward

/-! ## What a walk owes to its deeds -/

def asks (dependents : Place rows columns → List (Place rows columns)) (p : Place rows columns) :
    Nat :=
  (dependents p).length + 1

/-- The deeds of a walk account for what it has reached and for what it still has to look at. -/
structure Accounted (dependents : Place rows columns → List (Place rows columns))
    (origin : Place rows columns) (deeds : List (Deed rows columns)) (w : Walk rows columns) :
    Prop where
  reached_iff : ∀ p, w.Reached p ↔ p ∈ origin :: entered deeds
  suffix : ∀ f ∈ w.path, f.pending <:+ dependents f.place
  consumed_iff : ∀ f ∈ w.path, ∀ i,
    (f.place, i) ∈ consumed deeds ↔ i + f.pending.length < (dependents f.place).length
  consumed_reached : ∀ e ∈ consumed deeds, w.Reached e.1
  entered_nodup : (origin :: entered deeds).Nodup
  consumed_nodup : (consumed deeds).Nodup
  /-- Nothing that a cell asks for is lost, and nothing is done twice. -/
  balance : deeds.length + total Frame.turns w.path =
    total (asks dependents) w.places + total (asks dependents) w.finished

theorem accounted_start (dependents : Place rows columns → List (Place rows columns))
    (origin : Place rows columns) :
    Accounted dependents origin [] (.start dependents origin) where
  reached_iff p := by simp [Walk.Reached, Walk.places, Walk.start, entered]
  suffix := by simp [Walk.start]
  consumed_iff := by simp [Walk.start, consumed]
  consumed_reached := by simp [consumed]
  entered_nodup := List.nodup_singleton origin
  consumed_nodup := List.nodup_nil
  balance := by simp [Walk.start, Walk.places, total, Frame.turns, asks]

theorem Accounted.finish {p : Place rows columns} {path : List (Frame rows columns)}
    {finished : List (Place rows columns)} {deeds : List (Deed rows columns)}
    (accounted : Accounted dependents origin deeds ⟨⟨p, []⟩ :: path, finished⟩) :
    Accounted dependents origin (.finish p :: deeds) ⟨path, p :: finished⟩ := by
  obtain ⟨reachedIff, suffix, consumedIff, consumedReached, enteredNodup, consumedNodup, balance⟩ :=
    accounted
  have same : ∀ q, Walk.Reached ⟨path, p :: finished⟩ q ↔
      Walk.Reached ⟨⟨p, []⟩ :: path, finished⟩ q := by
    intro q
    simp only [Walk.Reached, Walk.places, List.map_cons, List.mem_cons]
    tauto
  constructor
  · exact fun q => (same q).trans (reachedIff q)
  · exact fun f onPath => suffix f (List.mem_cons_of_mem _ onPath)
  · exact fun f onPath => consumedIff f (List.mem_cons_of_mem _ onPath)
  · exact fun e member => (same e.1).2 (consumedReached e member)
  · exact enteredNodup
  · exact consumedNodup
  · simp only [Walk.places, List.map_cons, total, Frame.turns, List.length_cons,
      List.length_nil] at balance ⊢
    omega

section Look

variable {p q : Place rows columns} {i : Nat} {pending finished : List (Place rows columns)}
  {path : List (Frame rows columns)} {deeds : List (Deed rows columns)}

/-- The entry that is looked at next was not looked at before. -/
theorem Accounted.fresh_entry
    (accounted : Accounted dependents origin deeds ⟨⟨p, q :: pending⟩ :: path, finished⟩)
    (entry : (dependents p).drop i = q :: pending) :
    i + (pending.length + 1) = (dependents p).length ∧ (p, i) ∉ consumed deeds := by
  have length := congrArg List.length entry
  rw [List.length_drop, List.length_cons] at length
  have known := accounted.consumed_iff _ List.mem_cons_self i
  simp only [List.length_cons] at known
  rw [known]
  omega

/-- Looking at an entry moves the cell on the end of the path one place on. -/
theorem Accounted.look (nodup : (Walk.places ⟨⟨p, q :: pending⟩ :: path, finished⟩).Nodup)
    (accounted : Accounted dependents origin deeds ⟨⟨p, q :: pending⟩ :: path, finished⟩)
    (entry : (dependents p).drop i = q :: pending) {d : Deed rows columns}
    (looked : d.entry? = some (p, i)) :
    (consumed (d :: deeds)).Nodup ∧
      ∀ f ∈ ⟨p, pending⟩ :: path, f.pending <:+ dependents f.place ∧
        ∀ j, (f.place, j) ∈ consumed (d :: deeds) ↔
          j + f.pending.length < (dependents f.place).length := by
  obtain ⟨position, fresh⟩ := accounted.fresh_entry entry
  have more : consumed (d :: deeds) = (p, i) :: consumed deeds :=
    List.filterMap_cons_some looked
  rw [more]
  refine ⟨List.nodup_cons.2 ⟨fresh, accounted.consumed_nodup⟩, ?_⟩
  intro f onPath
  rcases List.mem_cons.1 onPath with rfl | below
  · have old := accounted.consumed_iff _ List.mem_cons_self
    have part := accounted.suffix _ List.mem_cons_self
    refine ⟨(List.suffix_cons q pending).trans part, fun j => ?_⟩
    simp only [List.mem_cons, Prod.mk.injEq, true_and, old, List.length_cons]
    omega
  · have other : f.place ≠ p := by
      have listed : f.place ∈ path.map Frame.place := List.mem_map_of_mem below
      intro same
      exact (List.nodup_cons.1 nodup).1 (same ▸ listed)
    have member : f ∈ ⟨p, q :: pending⟩ :: path := List.mem_cons_of_mem _ below
    refine ⟨accounted.suffix f member, fun j => ?_⟩
    rw [List.mem_cons, Prod.mk.injEq, ← accounted.consumed_iff f member j]
    simp [other]

theorem Accounted.pass (nodup : (Walk.places ⟨⟨p, q :: pending⟩ :: path, finished⟩).Nodup)
    (accounted : Accounted dependents origin deeds ⟨⟨p, q :: pending⟩ :: path, finished⟩)
    (entry : (dependents p).drop i = q :: pending) :
    Accounted dependents origin (.pass p i :: deeds) ⟨⟨p, pending⟩ :: path, finished⟩ := by
  obtain ⟨consumedNodup, frames⟩ := Accounted.look nodup accounted entry (d := .pass p i) rfl
  have reached := accounted.consumed_reached
  have balance := accounted.balance
  refine ⟨accounted.reached_iff, fun f onPath => (frames f onPath).1,
    fun f onPath => (frames f onPath).2, ?_, accounted.entered_nodup, consumedNodup, ?_⟩
  · intro e member
    rcases List.mem_cons.1 member with rfl | old
    · exact .inl List.mem_cons_self
    · exact reached e old
  · simp only [Walk.places, List.map_cons, total, Frame.turns, List.length_cons] at balance ⊢
    omega

theorem Accounted.enter (nodup : (Walk.places ⟨⟨p, q :: pending⟩ :: path, finished⟩).Nodup)
    (accounted : Accounted dependents origin deeds ⟨⟨p, q :: pending⟩ :: path, finished⟩)
    (entry : (dependents p).drop i = q :: pending)
    (fresh : ¬ Walk.Reached ⟨⟨p, q :: pending⟩ :: path, finished⟩ q) :
    Accounted dependents origin (.enter p i q :: deeds)
      ⟨⟨q, dependents q⟩ :: ⟨p, pending⟩ :: path, finished⟩ := by
  obtain ⟨consumedNodup, frames⟩ := Accounted.look nodup accounted entry (d := .enter p i q) rfl
  have more : entered (.enter p i q :: deeds) = q :: entered deeds := rfl
  have looked : consumed (.enter p i q :: deeds) = (p, i) :: consumed deeds := rfl
  have reachedIff : ∀ r, Walk.Reached ⟨⟨q, dependents q⟩ :: ⟨p, pending⟩ :: path, finished⟩ r ↔
      r = q ∨ Walk.Reached ⟨⟨p, q :: pending⟩ :: path, finished⟩ r := by
    intro r
    simp only [Walk.Reached, Walk.places, List.map_cons, List.mem_cons]
    tauto
  have unknown : q ∉ origin :: entered deeds := fun member =>
    fresh ((accounted.reached_iff q).2 member)
  have balance := accounted.balance
  constructor
  · intro r
    rw [reachedIff, accounted.reached_iff, more]
    simp only [List.mem_cons]
    tauto
  · intro f onPath
    rcases List.mem_cons.1 onPath with rfl | below
    · exact List.suffix_rfl
    · exact (frames f below).1
  · intro f onPath
    rcases List.mem_cons.1 onPath with rfl | below
    · intro j
      have none : (q, j) ∉ consumed (.enter p i q :: deeds) := by
        rw [looked, List.mem_cons, Prod.mk.injEq, not_or]
        refine ⟨?_, fun old => fresh (accounted.consumed_reached _ old)⟩
        rintro ⟨rfl, -⟩
        exact fresh (.inl List.mem_cons_self)
      simp [none]
    · exact (frames f below).2
  · intro e member
    rw [looked] at member
    rcases List.mem_cons.1 member with rfl | old
    · exact .inl (List.mem_cons_of_mem _ List.mem_cons_self)
    · exact (reachedIff e.1).2 (.inr (accounted.consumed_reached e old))
  · rw [more]
    have once := accounted.entered_nodup
    simp only [List.mem_cons, not_or, List.nodup_cons] at unknown once ⊢
    exact ⟨⟨Ne.symm unknown.1, once.1⟩, unknown.2, once.2⟩
  · exact consumedNodup
  · simp only [Walk.places, List.map_cons, total, Frame.turns, asks,
      List.length_cons] at balance ⊢
    omega

end Look

theorem Accounted.does {deeds : List (Deed rows columns)} {d : Deed rows columns}
    {w v : Walk rows columns} (sound : w.Sound dependents origin)
    (accounted : Accounted dependents origin deeds w) (does : Does dependents w d v) :
    Accounted dependents origin (d :: deeds) v := by
  cases does with
  | finish p path finished => exact accounted.finish
  | pass entry done => exact accounted.pass sound.places_nodup entry
  | enter entry fresh => exact accounted.enter sound.places_nodup entry fresh

theorem Trail.accounted {deeds : List (Deed rows columns)} {w : Walk rows columns}
    (trail : Trail dependents limit origin deeds w) : Accounted dependents origin deeds w := by
  induction trail with
  | start => exact accounted_start dependents origin
  | step trail _ does ih => exact ih.does trail.sound does

/-! ## Every turn leads on or ends the walk -/

theorem Trail.exists_turn {deeds : List (Deed rows columns)} {w : Walk rows columns}
    (trail : Trail dependents limit origin deeds w) :
    (w.path = [] ∧ turn dependents limit w = .arrived w.finished) ∨
      (∃ fault, turn dependents limit w = .refused fault) ∨
      ∃ d v, turn dependents limit w = .onward v ∧ Does dependents w d v := by
  have suffix := trail.accounted.suffix
  obtain ⟨path, finished⟩ := w
  match path with
  | [] => exact .inl ⟨rfl, rfl⟩
  | ⟨p, []⟩ :: path => exact .inr (.inr ⟨_, _, rfl, .finish p path finished⟩)
  | ⟨p, q :: pending⟩ :: path =>
    have entry : (dependents p).drop ((dependents p).length - (q :: pending).length) =
        q :: pending :=
      (List.suffix_iff_eq_drop.1 (suffix _ List.mem_cons_self)).symm
    by_cases onPath : q ∈ Walk.places ⟨⟨p, q :: pending⟩ :: path, finished⟩
    · exact .inr (.inl ⟨_, if_pos onPath⟩)
    · by_cases done : q ∈ finished
      · exact .inr (.inr ⟨_, _, (if_neg onPath).trans (if_pos done), .pass entry done⟩)
      · by_cases deep : limit ≤ (⟨p, q :: pending⟩ :: path).length
        · exact .inr (.inl ⟨_, (if_neg onPath).trans ((if_neg done).trans (if_pos deep))⟩)
        · exact .inr (.inr ⟨_, _, (if_neg onPath).trans ((if_neg done).trans (if_neg deep)),
            .enter entry (not_or.2 ⟨onPath, done⟩)⟩)

/-- An entry that is looked at is one of a cell that was reached, and is new. -/
theorem Trail.fresh_entry {deeds : List (Deed rows columns)} {d : Deed rows columns}
    {w v : Walk rows columns} (trail : Trail dependents limit origin deeds w)
    (does : Does dependents w d v) {p : Place rows columns} {i : Nat}
    (looked : d.entry? = some (p, i)) :
    p ∈ origin :: entered deeds ∧ i < (dependents p).length ∧ (p, i) ∉ consumed deeds := by
  have accounted := trail.accounted
  cases does with
  | finish p path finished => cases looked
  | pass entry done =>
    cases looked
    obtain ⟨position, fresh⟩ := accounted.fresh_entry entry
    exact ⟨(accounted.reached_iff p).1 (.inl List.mem_cons_self), by omega, fresh⟩
  | enter entry new =>
    cases looked
    obtain ⟨position, fresh⟩ := accounted.fresh_entry entry
    exact ⟨(accounted.reached_iff p).1 (.inl List.mem_cons_self), by omega, fresh⟩

/-- The walk ends after some of its turns, as `walk` does. -/
theorem exists_end {deeds : List (Deed rows columns)} {w : Walk rows columns}
    (trail : Trail dependents limit origin deeds w) :
    ∃ deeds' v, Trail dependents limit origin deeds' v ∧
      ((∃ cells, turn dependents limit v = .arrived cells ∧
          walk dependents limit w = .ok cells) ∨
        ∃ fault, turn dependents limit v = .refused fault ∧
          walk dependents limit w = .error fault) := by
  induction w using walk.induct dependents limit generalizing deeds with
  | case1 w cells arrived =>
    refine ⟨deeds, w, trail, .inl ⟨cells, arrived, ?_⟩⟩
    rw [walk_eq, arrived]
  | case2 w fault refused =>
    refine ⟨deeds, w, trail, .inr ⟨fault, refused, ?_⟩⟩
    rw [walk_eq, refused]
  | case3 w v onward ih =>
    rcases trail.exists_turn with ⟨-, arrived⟩ | ⟨fault, refused⟩ | ⟨d, v', onward', does⟩
    · rw [onward] at arrived
      cases arrived
    · rw [onward] at refused
      cases refused
    · rw [onward] at onward'
      cases onward'
      have same : walk dependents limit w = walk dependents limit v := by
        rw [walk_eq, onward]
      rw [same]
      exact ih (trail.step onward does)

/-! ## How many turns there are -/

theorem total_append {α : Type} (f : α → Nat) (as bs : List α) :
    total f (as ++ bs) = total f as + total f bs := by
  induction as with
  | nil => exact (Nat.zero_add _).symm
  | cons a as ih => rw [List.cons_append, total, total, ih, Nat.add_assoc]

theorem total_le_of_nodup {α : Type} (f : α → Nat) {as bs : List α} (nodup : as.Nodup)
    (subset : ∀ a ∈ as, a ∈ bs) : total f as ≤ total f bs := by
  induction as generalizing bs with
  | nil => exact Nat.zero_le _
  | cons a as ih =>
    obtain ⟨fresh, nodup⟩ := List.nodup_cons.1 nodup
    obtain ⟨front, behind, rfl⟩ := List.append_of_mem (subset a List.mem_cons_self)
    have others : ∀ b ∈ as, b ∈ front ++ behind := by
      intro b member
      have apart : b ≠ a := fun same => fresh (same ▸ member)
      simpa [apart] using subset b (List.mem_cons_of_mem _ member)
    have rest := ih nodup others
    rw [total_append] at rest
    simp only [total_append, total]
    omega

/-- There are no more turns than all cells together ask for. -/
theorem Trail.length_le {deeds : List (Deed rows columns)} {w : Walk rows columns}
    (trail : Trail dependents limit origin deeds w) :
    deeds.length ≤ total (asks dependents) (Place.all rows columns) := by
  have sound := trail.sound
  have apart : (w.places ++ w.finished).Nodup :=
    List.nodup_append'.2 ⟨sound.places_nodup, sound.settled.nodup,
      fun p onPath => sound.unfinished p onPath⟩
  have reached := total_le_of_nodup (asks dependents) apart fun p _ => Place.mem_all p
  have balance := trail.accounted.balance
  rw [total_append] at reached
  omega

/-- A walk along any dependents ends, whatever cycles and repetitions they have.  At any time the
path holds no cell twice, no cell was entered twice, and no entry of a list of dependents was looked
at twice.  A turn ends the walk, finishes the end of the path, or looks at an entry of a cell that was
reached, and at one that is new; so there are never more turns than there are cells and entries.
Where the walk arrives, each cell was found once that can be reached from the origin, and no other;
the origin comes first, and every cell before its dependents. -/
theorem walk_ends (dependents : Place rows columns → List (Place rows columns)) (limit : Nat)
    (origin : Place rows columns) :
    (∀ deeds w, Trail dependents limit origin deeds w →
      w.places.Nodup ∧ (origin :: entered deeds).Nodup ∧ (consumed deeds).Nodup ∧
      deeds.length ≤ total (fun p => (dependents p).length + 1) (Place.all rows columns) ∧
      ((w.path = [] ∧ turn dependents limit w = .arrived w.finished) ∨
        (∃ fault, turn dependents limit w = .refused fault) ∨
        ∃ d v, turn dependents limit w = .onward v ∧ Does dependents w d v ∧
          Trail dependents limit origin (d :: deeds) v ∧
          ∀ p i, d.entry? = some (p, i) →
            p ∈ origin :: entered deeds ∧ i < (dependents p).length ∧ (p, i) ∉ consumed deeds)) ∧
    (∃ deeds w, Trail dependents limit origin deeds w ∧
      ((∃ cells, turn dependents limit w = .arrived cells ∧
          order dependents limit origin = .ok cells) ∨
        ∃ fault, turn dependents limit w = .refused fault ∧
          order dependents limit origin = .error fault)) ∧
    ∀ cells, order dependents limit origin = .ok cells →
      cells.Nodup ∧ cells.head? = some origin ∧
      (∀ p, p ∈ cells ↔ ReflTransGen (Feeds dependents) origin p) ∧
      ∀ (i j : Nat) (hi : i < cells.length) (hj : j < cells.length),
        cells[j] ∈ dependents cells[i] → i < j := by
  refine ⟨?_, exists_end .start, ?_⟩
  · intro deeds w trail
    have accounted := trail.accounted
    refine ⟨trail.sound.places_nodup, accounted.entered_nodup, accounted.consumed_nodup,
      trail.length_le, ?_⟩
    rcases trail.exists_turn with arrived | refused | ⟨d, v, onward, does⟩
    · exact .inl arrived
    · exact .inr (.inl refused)
    · exact .inr (.inr ⟨d, v, onward, does, trail.step onward does,
        fun p i looked => trail.fresh_entry does looked⟩)
  · intro cells ordered
    have settled := order_settled ordered
    obtain ⟨others, rfl⟩ := order_head ordered
    exact ⟨settled.nodup, rfl, mem_order_iff ordered, fun i j hi hj => settled.lt_of_feeds hi hj⟩

def repeating (p : Place 1 3) : List (Place 1 3) :=
  if p = ⟨0, 0⟩ then [⟨0, 2⟩, ⟨0, 1⟩, ⟨0, 1⟩] else if p = ⟨0, 1⟩ then [⟨0, 2⟩, ⟨0, 2⟩] else []

/-- The third cell is found first and comes last. -/
theorem walk_ends_repeating :
    order repeating 2 ⟨0, 0⟩ = .ok [⟨0, 0⟩, ⟨0, 1⟩, ⟨0, 2⟩] ∧
      ReflTransGen (Feeds repeating) ⟨0, 0⟩ ⟨0, 2⟩ := by
  have ordered : order repeating 2 ⟨0, 0⟩ = .ok [⟨0, 0⟩, ⟨0, 1⟩, ⟨0, 2⟩] := by
    decide +kernel
  obtain ⟨-, -, reached, -⟩ := (walk_ends repeating 2 ⟨0, 0⟩).2.2 _ ordered
  exact ⟨ordered, (reached ⟨0, 2⟩).1 (by decide)⟩

end FormulaGrid.Cascade
