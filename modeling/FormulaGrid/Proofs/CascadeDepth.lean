import FormulaGrid.Proofs.CascadeRefusal

/-! # How deep a cascade goes

The walk enters a cell once, along one of the chains that lead to it, and only this chain is held
against the limit.  It is the leftmost one: from each of its cells it goes on to the first of the
dependents, as they are listed, from which the cell can be reached.  A dependent listed before that
one is finished when the walk goes on, and so is everything that can be reached from it.
-/

namespace FormulaGrid.Cascade

open Relation

variable {rows columns : Nat} {dependents : Place rows columns → List (Place rows columns)}
  {limit : Nat} {origin c : Place rows columns} {cells : List (Place rows columns)}

/-! ## Chains from one cell to another -/

/-- The cells that `step` leads along, from `origin` to `c`. -/
structure Route (step : Place rows columns → Place rows columns → Prop)
    (origin c : Place rows columns) (cells : List (Place rows columns)) : Prop where
  chained : cells.IsChain step
  first : cells.head? = some origin
  last : cells.getLast? = some c

namespace Route

variable {step step' : Place rows columns → Place rows columns → Prop}

theorem imp (route : Route step origin c cells) (weaker : ∀ p q, step p q → step' p q) :
    Route step' origin c cells :=
  ⟨route.chained.imp weaker, route.first, route.last⟩

theorem single (step : Place rows columns → Place rows columns → Prop)
    (origin : Place rows columns) : Route step origin origin [origin] :=
  ⟨.singleton origin, rfl, rfl⟩

/-- A route is its origin alone, or a step and a route from the next cell. -/
theorem cases_cons (route : Route step origin c cells) :
    (cells = [origin] ∧ c = origin) ∨
      ∃ next later, cells = origin :: later ∧ step origin next ∧ Route step next c later := by
  obtain ⟨chained, first, last⟩ := route
  cases cells with
  | nil => cases first
  | cons p later =>
    cases first
    cases later with
    | nil =>
      cases last
      exact .inl ⟨rfl, rfl⟩
    | cons next later =>
      rw [List.isChain_cons_cons] at chained
      rw [List.getLast?_cons_cons] at last
      exact .inr ⟨next, next :: later, rfl, chained.1, chained.2, rfl, last⟩

theorem reach (route : Route step origin c cells) : ReflTransGen step origin c := by
  induction cells generalizing origin with
  | nil => cases route.first
  | cons p later ih =>
    rcases route.cases_cons with ⟨-, rfl⟩ | ⟨next, later', same, leads, onward⟩
    · exact .refl
    · cases same
      exact .head leads (ih onward)

end Route

/-! ## Leftmost chains -/

/-- The first dependent of `p` from which `c` can be reached is `q`. -/
def Leads (dependents : Place rows columns → List (Place rows columns))
    (c p q : Place rows columns) : Prop :=
  ∃ before later, dependents p = before ++ q :: later ∧
    (∀ r ∈ before, ¬ ReflTransGen (Feeds dependents) r c) ∧ ReflTransGen (Feeds dependents) q c

theorem Leads.feeds {p q : Place rows columns} (leads : Leads dependents c p q) :
    Feeds dependents p q := by
  obtain ⟨before, later, split, -⟩ := leads
  rw [Feeds, split]
  exact List.mem_append_right before List.mem_cons_self

theorem Leads.reach {p q : Place rows columns} (leads : Leads dependents c p q) :
    ReflTransGen (Feeds dependents) q c := by
  obtain ⟨-, -, -, -, reach⟩ := leads
  exact reach

theorem Leads.unique {p q q' : Place rows columns} (leads : Leads dependents c p q)
    (leads' : Leads dependents c p q') : q = q' := by
  obtain ⟨before, later, split, none, reach⟩ := leads
  obtain ⟨before', later', split', none', reach'⟩ := leads'
  -- were one of the two splits in front of the other, its cell would be passed over by the other
  rcases List.append_eq_append_iff.1 (split.symm.trans split') with
    ⟨between, front, back⟩ | ⟨between, front, back⟩
  · cases between with
    | nil => exact (List.cons.inj back).1
    | cons r between =>
      obtain ⟨rfl, -⟩ := List.cons.inj back
      exact absurd reach (none' q (by simp [front]))
  · cases between with
    | nil => exact (List.cons.inj back).1.symm
    | cons r between =>
      obtain ⟨rfl, -⟩ := List.cons.inj back
      exact absurd reach' (none q' (by simp [front]))

abbrev Leftmost (dependents : Place rows columns → List (Place rows columns))
    (origin c : Place rows columns) (cells : List (Place rows columns)) : Prop :=
  Route (Leads dependents c) origin c cells

theorem Leftmost.route (leftmost : Leftmost dependents origin c cells) :
    Route (Feeds dependents) origin c cells :=
  leftmost.imp fun _ _ => Leads.feeds

/-- A step towards a cell from this cell itself would close a cycle. -/
theorem Leads.ne_of_acyclic {p q : Place rows columns}
    (acyclic : ¬ TransGen (Feeds dependents) c c) (leads : Leads dependents c p q) : p ≠ c := by
  rintro rfl
  exact acyclic (.head' leads.feeds leads.reach)

theorem Leftmost.unique {cells' : List (Place rows columns)}
    (acyclic : ¬ TransGen (Feeds dependents) c c) (leftmost : Leftmost dependents origin c cells)
    (leftmost' : Leftmost dependents origin c cells') : cells = cells' := by
  induction cells generalizing origin cells' with
  | nil => cases leftmost.first
  | cons p later ih =>
    rcases leftmost.cases_cons with ⟨same, arrived⟩ | ⟨q, later₁, same, leads, onward⟩ <;>
      rcases leftmost'.cases_cons with ⟨same', arrived'⟩ | ⟨q', later₂, same', leads', onward'⟩
    · exact same.trans same'.symm
    · exact absurd arrived.symm (leads'.ne_of_acyclic acyclic)
    · exact absurd arrived'.symm (leads.ne_of_acyclic acyclic)
    · cases same
      obtain rfl := leads.unique leads'
      rw [same', ih onward onward']

/-! ## The path is leftmost -/

/-- The dependents of a cell of the path that are listed before the cell above it are finished. -/
def Swept (dependents : Place rows columns → List (Place rows columns))
    (finished : List (Place rows columns)) : Option (Place rows columns) →
    List (Frame rows columns) → Prop
  | _, [] => True
  | above, f :: path =>
    (∃ seen, dependents f.place = seen ++ (above.toList ++ f.pending) ∧
      ∀ q ∈ seen, q ∈ finished) ∧ Swept dependents finished (some f.place) path

theorem Swept.mono {finished finished' : List (Place rows columns)}
    (more : ∀ q ∈ finished, q ∈ finished') {path : List (Frame rows columns)}
    {above : Option (Place rows columns)} (swept : Swept dependents finished above path) :
    Swept dependents finished' above path := by
  induction path generalizing above with
  | nil => trivial
  | cons f path ih =>
    obtain ⟨⟨seen, split, done⟩, below⟩ := swept
    exact ⟨⟨seen, split, fun q member => more q (done q member)⟩, ih below⟩

/-- The cell above the path is finished, so it is one of those that are passed over. -/
theorem Swept.finish {finished : List (Place rows columns)} {p : Place rows columns}
    {path : List (Frame rows columns)} (swept : Swept dependents finished (some p) path)
    (done : p ∈ finished) : Swept dependents finished none path := by
  cases path with
  | nil => trivial
  | cons f path =>
    obtain ⟨⟨seen, split, earlier⟩, below⟩ := swept
    refine ⟨⟨seen ++ [p], ?_, ?_⟩, below⟩
    · simpa using split
    · simpa [or_imp, forall_and] using ⟨earlier, done⟩

theorem Swept.next {finished : List (Place rows columns)} {p q : Place rows columns}
    {pending : List (Place rows columns)} {path : List (Frame rows columns)}
    (swept : Swept dependents finished none (⟨p, q :: pending⟩ :: path)) :
    Swept dependents finished (some q) (⟨p, pending⟩ :: path) :=
  swept

/-- Read downwards from a dependent of its topmost cell, the path is leftmost towards any unfinished
cell that the dependent reaches. -/
theorem Swept.chained {finished : List (Place rows columns)} (settled : Settled dependents finished)
    (unfinished : c ∉ finished) {above : Place rows columns} {path : List (Frame rows columns)}
    (swept : Swept dependents finished (some above) path)
    (reach : ReflTransGen (Feeds dependents) above c) :
    (above :: path.map Frame.place).IsChain fun q p => Leads dependents c p q := by
  induction path generalizing above with
  | nil => exact .singleton above
  | cons f path ih =>
    obtain ⟨⟨seen, split, done⟩, below⟩ := swept
    have leads : Leads dependents c f.place above := by
      refine ⟨seen, f.pending, split, ?_, reach⟩
      exact fun r member onward => unfinished (settled.mem_of_reach (done r member) onward)
    exact .cons_cons leads (ih below (.head leads.feeds reach))

/-! ## The walk enters cells along leftmost chains -/

/-- Every cell that the walk has come to is at the end of a leftmost chain within the limit.  The
origin alone is a chain of one cell, whatever the limit. -/
structure Walk.Shallow (dependents : Place rows columns → List (Place rows columns)) (limit : Nat)
    (origin : Place rows columns) (w : Walk rows columns) : Prop where
  sound : w.Sound dependents origin
  swept : Swept dependents w.finished none w.path
  entered : ∀ c, w.Reached c → ∃ cells, Leftmost dependents origin c cells ∧
    cells.length ≤ max limit 1

theorem shallow_start (dependents : Place rows columns → List (Place rows columns)) (limit : Nat)
    (origin : Place rows columns) :
    (Walk.start dependents origin).Shallow dependents limit origin where
  sound := sound_start dependents origin
  swept := ⟨⟨[], rfl, fun _ member => absurd member List.not_mem_nil⟩, trivial⟩
  entered := by
    intro c reached
    rcases reached with onPath | finished
    · obtain rfl : c = origin := by simpa [Walk.places, Walk.start] using onPath
      exact ⟨[c], .single _ c, Nat.le_max_right limit 1⟩
    · cases finished

/-- With its next dependent, a new one, the path is leftmost. -/
theorem Walk.Shallow.leftmost_next {p q : Place rows columns} {pending : List (Place rows columns)}
    {path : List (Frame rows columns)} {finished : List (Place rows columns)}
    (shallow : Walk.Shallow dependents limit origin ⟨⟨p, q :: pending⟩ :: path, finished⟩)
    (fresh : q ∉ finished) :
    Leftmost dependents origin q (q :: p :: path.map Frame.place).reverse := by
  have chained := shallow.swept.next.chained shallow.sound.settled fresh .refl
  refine ⟨?_, ?_, ?_⟩
  · rw [List.isChain_reverse]
    exact chained
  · rcases shallow.sound.bottom with last | ⟨empty, -⟩
    · rw [List.head?_reverse, List.getLast?_cons_cons]
      exact last
    · cases empty
  · rw [List.getLast?_reverse]
    rfl

theorem shallow_turn {w v : Walk rows columns} (shallow : w.Shallow dependents limit origin)
    (onward : turn dependents limit w = .onward v) : v.Shallow dependents limit origin := by
  have sound := sound_turn shallow.sound onward
  obtain ⟨path, finished⟩ := w
  match path with
  | [] => cases onward
  | ⟨p, []⟩ :: path =>
    obtain rfl := Turn.onward.inj onward
    refine ⟨sound, ?_, ?_⟩
    · exact (shallow.swept.2.mono fun _ => List.mem_cons_of_mem p).finish List.mem_cons_self
    · intro c reached
      apply shallow.entered c
      simp only [Walk.Reached, Walk.places, List.map_cons, List.mem_cons] at reached ⊢
      tauto
  | ⟨p, q :: pending⟩ :: path =>
    simp only [turn] at onward
    split at onward
    · cases onward
    · split at onward
      · rename_i done
        obtain rfl := Turn.onward.inj onward
        exact ⟨sound, shallow.swept.next.finish done, shallow.entered⟩
      · rename_i fresh
        split at onward
        · cases onward
        · rename_i within
          obtain rfl := Turn.onward.inj onward
          refine ⟨sound, ⟨⟨[], rfl, fun _ member => absurd member List.not_mem_nil⟩,
            shallow.swept.next⟩, ?_⟩
          intro c reached
          simp only [Walk.Reached, Walk.places, List.map_cons, List.mem_cons] at reached
          rcases reached with (rfl | old) | old
          · refine ⟨_, shallow.leftmost_next fresh, ?_⟩
            simp only [List.length_cons, List.length_reverse, List.length_map] at within ⊢
            omega
          · exact shallow.entered c (.inl (List.mem_cons.2 old))
          · exact shallow.entered c (.inr old)

/-- A dependent that would make the path too long lies at the end of a leftmost chain that is. -/
theorem leftmost_of_refused {w : Walk rows columns} {n : Nat}
    (shallow : w.Shallow dependents limit origin)
    (refused : turn dependents limit w = .refused (.cascadeTooDeep n)) :
    n = limit ∧ ∃ c cells, Leftmost dependents origin c cells ∧ max limit 1 < cells.length := by
  obtain ⟨path, finished⟩ := w
  match path with
  | [] => cases refused
  | ⟨p, []⟩ :: path => cases refused
  | ⟨p, q :: pending⟩ :: path =>
    simp only [turn] at refused
    split at refused
    · cases refused
    · split at refused
      · cases refused
      · rename_i fresh
        split at refused
        · rename_i deep
          cases refused
          refine ⟨rfl, q, _, shallow.leftmost_next fresh, ?_⟩
          simp only [List.length_cons, List.length_reverse, List.length_map] at deep ⊢
          omega
        · cases refused

theorem shallow_walk {w : Walk rows columns} (shallow : w.Shallow dependents limit origin) :
    match walk dependents limit w with
    | .ok order => Walk.Shallow dependents limit origin ⟨[], order⟩
    | .error fault => ∃ v : Walk rows columns, v.Shallow dependents limit origin ∧
        turn dependents limit v = .refused fault := by
  induction w using walk.induct dependents limit with
  | case1 w order arrived =>
    rw [walk_eq, arrived]
    rw [turn_eq_arrived arrived] at shallow
    exact shallow
  | case2 w fault refused =>
    rw [walk_eq, refused]
    exact ⟨w, shallow, refused⟩
  | case3 w v onward ih =>
    rw [walk_eq, onward]
    exact ih (shallow_turn shallow onward)

/-! ## When a cascade is too deep -/

theorem order_shallow {order' : List (Place rows columns)}
    (ordered : order dependents limit origin = .ok order')
    (reach : ReflTransGen (Feeds dependents) origin c) :
    ∃ cells, Leftmost dependents origin c cells ∧ cells.length ≤ max limit 1 := by
  have shallow := shallow_walk (shallow_start dependents limit origin)
  rw [← order, ordered] at shallow
  exact shallow.entered c (.inr ((mem_order_iff ordered c).2 reach))

theorem order_deep {n : Nat}
    (refused : order dependents limit origin = .error (.cascadeTooDeep n)) :
    n = limit ∧ ∃ c cells, Leftmost dependents origin c cells ∧ max limit 1 < cells.length := by
  have shallow := shallow_walk (shallow_start dependents limit origin)
  rw [← order, refused] at shallow
  obtain ⟨v, shallow, deep⟩ := shallow
  exact leftmost_of_refused shallow deep

section Acyclic

variable
  (acyclic : ∀ p, ReflTransGen (Feeds dependents) origin p → ¬ TransGen (Feeds dependents) p p)
include acyclic

/-- Without cycles in reach, a walk that is refused is refused for its depth. -/
theorem tooDeep_of_not_ok
    (unordered : ∀ order', order dependents limit origin ≠ .ok order') :
    order dependents limit origin = .error (.cascadeTooDeep limit) := by
  cases ordered : order dependents limit origin with
  | ok order' => exact absurd ordered (unordered order')
  | error fault =>
    cases order_refusal ordered with
    | circular reach cycle => exact absurd cycle (acyclic _ reach)
    | tooDeep chained nodup deep => rfl

theorem order_tooDeep_iff :
    order dependents limit origin = .error (.cascadeTooDeep limit) ↔
      ∃ c cells, Leftmost dependents origin c cells ∧ max limit 1 < cells.length := by
  constructor
  · exact fun refused => (order_deep refused).2
  · rintro ⟨c, cells, leftmost, deep⟩
    apply tooDeep_of_not_ok acyclic
    intro order' ordered
    have reach := leftmost.route.reach
    obtain ⟨cells', leftmost', within⟩ := order_shallow ordered reach
    obtain rfl := leftmost.unique (acyclic c reach) leftmost'
    omega

/-- A cell to which only long chains lead makes the cascade too deep, in whatever order the
dependents are listed. -/
theorem tooDeep_of_far (reach : ReflTransGen (Feeds dependents) origin c)
    (far : ∀ cells, Route (Feeds dependents) origin c cells → max limit 1 < cells.length) :
    order dependents limit origin = .error (.cascadeTooDeep limit) := by
  apply tooDeep_of_not_ok acyclic
  intro order' ordered
  obtain ⟨cells, leftmost, within⟩ := order_shallow ordered reach
  have := far cells leftmost.route
  omega

variable (uniform : ∀ c,
    (∀ cells, Route (Feeds dependents) origin c cells → cells.length ≤ max limit 1) ∨
      ∀ cells, Route (Feeds dependents) origin c cells → max limit 1 < cells.length)
include uniform

/-- Then it does not matter which of them are leftmost. -/
theorem order_tooDeep_iff_of_uniform :
    order dependents limit origin = .error (.cascadeTooDeep limit) ↔
      ∃ c cells, Route (Feeds dependents) origin c cells ∧ max limit 1 < cells.length := by
  constructor
  · intro refused
    obtain ⟨-, c, cells, leftmost, deep⟩ := order_deep refused
    exact ⟨c, cells, leftmost.route, deep⟩
  · rintro ⟨c, cells, route, deep⟩
    rcases uniform c with near | far
    · have := near cells route
      omega
    · exact tooDeep_of_far acyclic route.reach far

/-- The same steps in another order come to the same verdict. -/
theorem order_tooDeep_iff_of_feeds
    {dependents' : Place rows columns → List (Place rows columns)}
    (same : Feeds dependents' = Feeds dependents) :
    order dependents' limit origin = .error (.cascadeTooDeep limit) ↔
      order dependents limit origin = .error (.cascadeTooDeep limit) := by
  rw [order_tooDeep_iff_of_uniform acyclic uniform]
  rw [← same] at acyclic uniform ⊢
  exact order_tooDeep_iff_of_uniform acyclic uniform

end Acyclic

end FormulaGrid.Cascade
