import FormulaGrid.Cascade
import Mathlib.Logic.Relation
import Mathlib.Data.List.Nodup

/-! # The order of a cascade

The walk along the dependents is a depth-first search with a path of its own.  Its invariant says
what a frame has still to look at: every dependent of a cell on the path is pending, finished, or
the next cell of the path.  A cell therefore finishes behind all its dependents.  Nothing is assumed
of the dependents: they may repeat, and they may lie on cycles.
-/

namespace FormulaGrid.Cascade

open Relation

variable {rows columns : Nat} {dependents : Place rows columns → List (Place rows columns)}
  {limit : Nat}

/-! ## Settled orders -/

/-- Each cell is new, and all its dependents stand behind it. -/
def Settled (dependents : Place rows columns → List (Place rows columns)) :
    List (Place rows columns) → Prop
  | [] => True
  | p :: ps => p ∉ ps ∧ (∀ q ∈ dependents p, q ∈ ps) ∧ Settled dependents ps

abbrev Feeds (dependents : Place rows columns → List (Place rows columns))
    (p q : Place rows columns) : Prop :=
  q ∈ dependents p

theorem Settled.nodup {ps : List (Place rows columns)} (settled : Settled dependents ps) :
    ps.Nodup := by
  induction ps with
  | nil => exact List.nodup_nil
  | cons p ps ih => exact List.nodup_cons.2 ⟨settled.1, ih settled.2.2⟩

theorem Settled.mem_of_feeds {ps : List (Place rows columns)} (settled : Settled dependents ps)
    {p q : Place rows columns} (member : p ∈ ps) (feeds : Feeds dependents p q) : q ∈ ps := by
  induction ps with
  | nil => cases member
  | cons r ps ih =>
    apply List.mem_cons_of_mem
    rcases List.mem_cons.1 member with rfl | member
    · exact settled.2.1 q feeds
    · exact ih settled.2.2 member

theorem Settled.mem_of_reach {ps : List (Place rows columns)} (settled : Settled dependents ps)
    {p q : Place rows columns} (member : p ∈ ps)
    (reach : ReflTransGen (Feeds dependents) p q) : q ∈ ps := by
  induction reach with
  | refl => exact member
  | tail _ feeds ih => exact settled.mem_of_feeds ih feeds

theorem Settled.acyclic {ps : List (Place rows columns)} (settled : Settled dependents ps)
    {p : Place rows columns} (member : p ∈ ps) : ¬ TransGen (Feeds dependents) p p := by
  intro cycle
  induction ps with
  | nil => cases member
  | cons r ps ih =>
    obtain ⟨fresh, behind, settled⟩ := settled
    rcases List.mem_cons.1 member with rfl | member
    · -- the cycle leaves the first cell for good: everything it comes to stands behind
      obtain ⟨q, feeds, reach⟩ := TransGen.head'_iff.1 cycle
      exact fresh (settled.mem_of_reach (behind q feeds) reach)
    · exact ih settled member

/-- No cell of a settled order is fed by one that comes later. -/
theorem Settled.pairwise {ps : List (Place rows columns)} (settled : Settled dependents ps) :
    ps.Pairwise fun p q => ¬ Feeds dependents q p := by
  induction ps with
  | nil => exact .nil
  | cons p ps ih =>
    obtain ⟨fresh, behind, settled⟩ := settled
    refine .cons ?_ (ih settled)
    intro q member feeds
    exact fresh (settled.mem_of_feeds member feeds)

/-- A cell of a settled order stands in front of those that it feeds. -/
theorem Settled.lt_of_feeds {ps : List (Place rows columns)} (settled : Settled dependents ps)
    {i j : Nat} (hi : i < ps.length) (hj : j < ps.length) (feeds : Feeds dependents ps[i] ps[j]) :
    i < j := by
  rcases Nat.lt_trichotomy i j with before | same | behind
  · exact before
  · subst same
    exact absurd (.single feeds) (settled.acyclic (List.getElem_mem hi))
  · exact absurd feeds (List.pairwise_iff_getElem.1 settled.pairwise j i hj hi behind)

/-! ## The invariant of the walk -/

/-- Every dependent of a cell on the path is pending, finished, or the cell above it. -/
def Examined (dependents : Place rows columns → List (Place rows columns))
    (finished : List (Place rows columns)) : Option (Place rows columns) →
    List (Frame rows columns) → Prop
  | _, [] => True
  | above, f :: path =>
    (∀ q ∈ dependents f.place, q ∈ f.pending ∨ q ∈ finished ∨ above = some q) ∧
      Examined dependents finished (some f.place) path

structure Walk.Sound (dependents : Place rows columns → List (Place rows columns))
    (origin : Place rows columns) (w : Walk rows columns) : Prop where
  places_nodup : w.places.Nodup
  unfinished : ∀ p ∈ w.places, p ∉ w.finished
  settled : Settled dependents w.finished
  examined : Examined dependents w.finished none w.path
  pending_feeds : ∀ f ∈ w.path, ∀ q ∈ f.pending, Feeds dependents f.place q
  reached : ∀ p, w.Reached p → ReflTransGen (Feeds dependents) origin p
  bottom : w.places.getLast? = some origin ∨ w.places = [] ∧ w.finished.head? = some origin

theorem Examined.finish {finished finished' : List (Place rows columns)}
    {p : Place rows columns} {path : List (Frame rows columns)}
    (examined : Examined dependents finished (some p) path)
    (more : ∀ q ∈ finished, q ∈ finished') (done : p ∈ finished') :
    Examined dependents finished' none path := by
  have deeper : ∀ (path : List (Frame rows columns)) (above : Option (Place rows columns)),
      Examined dependents finished above path → Examined dependents finished' above path := by
    intro path
    induction path with
    | nil => exact fun _ _ => trivial
    | cons f path ih =>
      intro above examined
      refine ⟨?_, ih _ examined.2⟩
      intro q feeds
      exact (examined.1 q feeds).imp_right (Or.imp_left (more q))
  cases path with
  | nil => trivial
  | cons f path =>
    refine ⟨?_, deeper path _ examined.2⟩
    intro q feeds
    rcases examined.1 q feeds with pending | old | above
    · exact .inl pending
    · exact .inr (.inl (more q old))
    · cases above
      exact .inr (.inl done)

theorem sound_start (dependents : Place rows columns → List (Place rows columns))
    (origin : Place rows columns) :
    (Walk.start dependents origin).Sound dependents origin where
  places_nodup := List.nodup_singleton origin
  unfinished := fun _ _ => List.not_mem_nil
  settled := trivial
  examined := ⟨fun _ feeds => .inl feeds, trivial⟩
  pending_feeds := by simp [Walk.start]
  reached := by
    intro p reached
    rcases reached with onPath | finished
    · obtain rfl : p = origin := by simpa [Walk.places, Walk.start] using onPath
      exact .refl
    · cases finished
  bottom := .inl rfl

/-- The end of the path is finished. -/
theorem Walk.Sound.pop {origin p : Place rows columns} {path : List (Frame rows columns)}
    {finished : List (Place rows columns)}
    (sound : Walk.Sound dependents origin ⟨⟨p, []⟩ :: path, finished⟩) :
    Walk.Sound dependents origin ⟨path, p :: finished⟩ := by
  obtain ⟨nodup, unfinished, settled, examined, pendingFeeds, reached, bottom⟩ := sound
  simp only [Walk.places, List.map_cons, List.nodup_cons] at nodup unfinished
  have behind : ∀ q ∈ dependents p, q ∈ finished := by
    intro q feeds
    simpa using examined.1 q feeds
  constructor
  · exact nodup.2
  · intro q onPath
    rw [List.mem_cons, not_or]
    refine ⟨?_, unfinished q (List.mem_cons_of_mem _ onPath)⟩
    rintro rfl
    exact nodup.1 onPath
  · exact ⟨unfinished p List.mem_cons_self, behind, settled⟩
  · exact examined.2.finish (fun q => List.mem_cons_of_mem _) List.mem_cons_self
  · exact fun f onPath => pendingFeeds f (List.mem_cons_of_mem _ onPath)
  · intro q place
    apply reached q
    simp only [Walk.Reached, Walk.places, List.map_cons, List.mem_cons] at place ⊢
    tauto
  · cases path with
    | nil =>
      right
      simpa [Walk.places] using bottom
    | cons f path =>
      left
      simpa [Walk.places] using bottom

/-- A dependent that is finished already is passed over. -/
theorem Walk.Sound.pass {origin p q : Place rows columns} {pending : List (Place rows columns)}
    {path : List (Frame rows columns)} {finished : List (Place rows columns)}
    (sound : Walk.Sound dependents origin ⟨⟨p, q :: pending⟩ :: path, finished⟩)
    (done : q ∈ finished) :
    Walk.Sound dependents origin ⟨⟨p, pending⟩ :: path, finished⟩ := by
  obtain ⟨nodup, unfinished, settled, examined, pendingFeeds, reached, bottom⟩ := sound
  refine ⟨nodup, unfinished, settled, ⟨?_, examined.2⟩, ?_, reached, ?_⟩
  · intro r feeds
    have seen := examined.1 r feeds
    simp only [List.mem_cons] at seen
    rcases seen with (rfl | later) | old | above
    · exact .inr (.inl done)
    · exact .inl later
    · exact .inr (.inl old)
    · exact .inr (.inr above)
  · intro f onPath r later
    rcases List.mem_cons.1 onPath with rfl | onPath
    · exact pendingFeeds _ List.mem_cons_self r (List.mem_cons_of_mem _ later)
    · exact pendingFeeds f (List.mem_cons_of_mem _ onPath) r later
  · simpa [Walk.places] using bottom

/-- A new dependent lengthens the path. -/
theorem Walk.Sound.push {origin p q : Place rows columns} {pending : List (Place rows columns)}
    {path : List (Frame rows columns)} {finished : List (Place rows columns)}
    (sound : Walk.Sound dependents origin ⟨⟨p, q :: pending⟩ :: path, finished⟩)
    (offPath : q ∉ Walk.places ⟨⟨p, q :: pending⟩ :: path, finished⟩) (fresh : q ∉ finished) :
    Walk.Sound dependents origin ⟨⟨q, dependents q⟩ :: ⟨p, pending⟩ :: path, finished⟩ := by
  obtain ⟨nodup, unfinished, settled, examined, pendingFeeds, reached, bottom⟩ := sound
  have pFeedsQ : Feeds dependents p q := pendingFeeds _ List.mem_cons_self q List.mem_cons_self
  have toP : ReflTransGen (Feeds dependents) origin p := reached p (.inl List.mem_cons_self)
  constructor
  · exact List.nodup_cons.2 ⟨offPath, nodup⟩
  · intro r onPath
    rcases List.mem_cons.1 onPath with rfl | onPath
    · exact fresh
    · exact unfinished r onPath
  · exact settled
  · refine ⟨fun r feeds => .inl feeds, ?_, examined.2⟩
    intro r feeds
    have seen := examined.1 r feeds
    simp only [List.mem_cons] at seen
    rcases seen with (rfl | later) | old | above
    · exact .inr (.inr rfl)
    · exact .inl later
    · exact .inr (.inl old)
    · cases above
  · intro f onPath r later
    rcases List.mem_cons.1 onPath with rfl | onPath
    · exact later
    · rcases List.mem_cons.1 onPath with rfl | onPath
      · exact pendingFeeds _ List.mem_cons_self r (List.mem_cons_of_mem _ later)
      · exact pendingFeeds f (List.mem_cons_of_mem _ onPath) r later
  · intro r place
    rcases place with onPath | done
    · rcases List.mem_cons.1 onPath with rfl | onPath
      · exact toP.tail pFeedsQ
      · exact reached r (.inl onPath)
    · exact reached r (.inr done)
  · left
    simpa [Walk.places] using bottom

theorem sound_turn {origin : Place rows columns} {w v : Walk rows columns}
    (sound : w.Sound dependents origin) (onward : turn dependents limit w = .onward v) :
    v.Sound dependents origin := by
  obtain ⟨path, finished⟩ := w
  match path with
  | [] => cases onward
  | ⟨p, []⟩ :: path =>
    obtain rfl := Turn.onward.inj onward
    exact sound.pop
  | ⟨p, q :: pending⟩ :: path =>
    simp only [turn] at onward
    split at onward
    · cases onward
    · rename_i offPath
      split at onward
      · rename_i done
        obtain rfl := Turn.onward.inj onward
        exact sound.pass done
      · rename_i fresh
        split at onward
        · cases onward
        · obtain rfl := Turn.onward.inj onward
          exact sound.push offPath fresh

theorem turn_eq_arrived {w : Walk rows columns} {cells : List (Place rows columns)}
    (arrived : turn dependents limit w = .arrived cells) : w = ⟨[], cells⟩ := by
  obtain ⟨path, finished⟩ := w
  match path with
  | [] =>
    cases arrived
    rfl
  | ⟨p, []⟩ :: path => cases arrived
  | ⟨p, q :: pending⟩ :: path =>
    simp only [turn] at arrived
    split_ifs at arrived

theorem walk_eq (w : Walk rows columns) :
    walk dependents limit w = match turn dependents limit w with
      | .arrived order => .ok order
      | .refused fault => .error fault
      | .onward v => walk dependents limit v := by
  rw [walk]
  split <;> rename_i turned <;> rw [turned]

theorem walk_sound {origin : Place rows columns} {w : Walk rows columns}
    {cells : List (Place rows columns)} (sound : w.Sound dependents origin)
    (walked : walk dependents limit w = .ok cells) :
    Walk.Sound dependents origin ⟨[], cells⟩ := by
  -- along the turns of the walk, which end as `walk` does
  induction w using walk.induct dependents limit with
  | case1 w order arrived =>
    rw [walk_eq, arrived] at walked
    cases walked
    rw [← turn_eq_arrived arrived]
    exact sound
  | case2 w fault refused =>
    rw [walk_eq, refused] at walked
    cases walked
  | case3 w v onward ih =>
    rw [walk_eq, onward] at walked
    exact ih (sound_turn sound onward) walked

/-! ## What a cascade is -/

variable {origin : Place rows columns} {cells : List (Place rows columns)}

theorem order_sound (ordered : order dependents limit origin = .ok cells) :
    Walk.Sound dependents origin ⟨[], cells⟩ :=
  walk_sound (sound_start dependents origin) ordered

theorem order_settled (ordered : order dependents limit origin = .ok cells) :
    Settled dependents cells :=
  (order_sound ordered).settled

theorem order_head (ordered : order dependents limit origin = .ok cells) :
    ∃ others, cells = origin :: others := by
  have bottom := (order_sound ordered).bottom
  cases cells with
  | nil => simp [Walk.places] at bottom
  | cons p others =>
    obtain rfl : p = origin := by simpa [Walk.places] using bottom
    exact ⟨others, rfl⟩

/-- A cascade holds exactly what depends on its origin, directly or through others. -/
theorem mem_order_iff (ordered : order dependents limit origin = .ok cells)
    (p : Place rows columns) : p ∈ cells ↔ ReflTransGen (Feeds dependents) origin p := by
  constructor
  · intro member
    exact (order_sound ordered).reached p (.inr member)
  · intro reach
    obtain ⟨others, rfl⟩ := order_head ordered
    exact (order_settled ordered).mem_of_reach List.mem_cons_self reach

end FormulaGrid.Cascade
