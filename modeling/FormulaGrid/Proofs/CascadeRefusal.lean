import FormulaGrid.Proofs.CascadeOrder
import Mathlib.Data.List.Chain
import Mathlib.Data.Set.Card

/-! # Why a cascade is refused

The path of the walk is a chain of dependents: each of its cells feeds the one above it, and the
origin lies at the bottom.  A dependent that is found on the path therefore reaches itself, and one
that would make the path too long ends a chain of more cells than the limit.
-/

namespace FormulaGrid.Cascade

open Relation

variable {rows columns : Nat} {dependents : Place rows columns → List (Place rows columns)}
  {limit : Nat} {origin : Place rows columns}

/-! ## The path is a chain -/

/-- The next dependent of the topmost cell is fed by it. -/
theorem Walk.Sound.feeds_next {p q : Place rows columns} {pending : List (Place rows columns)}
    {path : List (Frame rows columns)} {finished : List (Place rows columns)}
    (sound : Walk.Sound dependents origin ⟨⟨p, q :: pending⟩ :: path, finished⟩) :
    Feeds dependents p q :=
  sound.pending_feeds ⟨p, q :: pending⟩ List.mem_cons_self q List.mem_cons_self

def Walk.Threaded (dependents : Place rows columns → List (Place rows columns))
    (w : Walk rows columns) : Prop :=
  w.places.IsChain fun p q => Feeds dependents q p

theorem threaded_start (dependents : Place rows columns → List (Place rows columns))
    (origin : Place rows columns) : (Walk.start dependents origin).Threaded dependents :=
  .singleton origin

theorem threaded_turn {w v : Walk rows columns} (sound : w.Sound dependents origin)
    (threaded : w.Threaded dependents) (onward : turn dependents limit w = .onward v) :
    v.Threaded dependents := by
  obtain ⟨path, finished⟩ := w
  match path with
  | [] => cases onward
  | ⟨p, []⟩ :: path =>
    obtain rfl := Turn.onward.inj onward
    exact List.IsChain.tail threaded
  | ⟨p, q :: pending⟩ :: path =>
    simp only [turn] at onward
    split at onward
    · cases onward
    · split at onward
      · obtain rfl := Turn.onward.inj onward
        exact threaded
      · split at onward
        · cases onward
        · obtain rfl := Turn.onward.inj onward
          exact List.IsChain.cons_cons sound.feeds_next threaded

/-- A cell of the path reaches the end of the path. -/
theorem Walk.Threaded.reach_end {p q : Place rows columns} {pending : List (Place rows columns)}
    {path : List (Frame rows columns)} {finished : List (Place rows columns)}
    (threaded : Walk.Threaded dependents ⟨⟨p, pending⟩ :: path, finished⟩)
    (member : q ∈ Walk.places ⟨⟨p, pending⟩ :: path, finished⟩) :
    ReflTransGen (Feeds dependents) q p := by
  rcases List.mem_cons.1 member with rfl | below
  · exact .refl
  · exact List.IsChain.cons_induction (fun r => ReflTransGen (Feeds dependents) r p) _ threaded
      (fun _ _ feeds reach => .head feeds reach) .refl q below

/-! ## Refusals -/

/-- What the graph of the dependents has where the walk from `origin` is refused. -/
inductive Refusal (dependents : Place rows columns → List (Place rows columns)) (limit : Nat)
    (origin : Place rows columns) : Fault → Prop
  | circular {p : Place rows columns} (reach : ReflTransGen (Feeds dependents) origin p)
      (cycle : TransGen (Feeds dependents) p p) :
      Refusal dependents limit origin (.circularReference p.address)
  | tooDeep {chain : List (Place rows columns)}
      (chained : List.IsChain (Feeds dependents) (origin :: chain))
      (nodup : (origin :: chain).Nodup) (deep : limit < (origin :: chain).length) :
      Refusal dependents limit origin (.cascadeTooDeep limit)

/-- A path that the next dependent makes too long is, with it, a chain from the origin. -/
theorem refusal_of_deep {p q : Place rows columns} {pending : List (Place rows columns)}
    {path : List (Frame rows columns)} {finished : List (Place rows columns)}
    (sound : Walk.Sound dependents origin ⟨⟨p, q :: pending⟩ :: path, finished⟩)
    (threaded : Walk.Threaded dependents ⟨⟨p, q :: pending⟩ :: path, finished⟩)
    (offPath : q ∉ Walk.places ⟨⟨p, q :: pending⟩ :: path, finished⟩)
    (deep : limit ≤ (⟨p, q :: pending⟩ :: path).length) :
    Refusal dependents limit origin (.cascadeTooDeep limit) := by
  have longer : List.IsChain (fun p q => Feeds dependents q p)
      (q :: Walk.places ⟨⟨p, q :: pending⟩ :: path, finished⟩) :=
    .cons_cons sound.feeds_next threaded
  have fresh := List.nodup_cons.2 ⟨offPath, sound.places_nodup⟩
  have places : Walk.places ⟨⟨p, q :: pending⟩ :: path, finished⟩ = p :: path.map Frame.place := rfl
  -- the origin lies at the bottom, so read upwards the chain starts with it
  obtain ⟨above, bottom⟩ : ∃ above,
      Walk.places ⟨⟨p, q :: pending⟩ :: path, finished⟩ = above ++ [origin] := by
    rcases sound.bottom with last | ⟨empty, -⟩
    · exact List.getLast?_eq_some_iff.1 last
    · cases empty
  rw [bottom] at longer fresh
  have upwards : (q :: (above ++ [origin])).reverse = origin :: (q :: above).reverse := by
    rw [← List.cons_append, List.reverse_append]
    rfl
  have chained : List.IsChain (Feeds dependents) (origin :: (q :: above).reverse) := by
    rw [← upwards, List.isChain_reverse]
    exact longer
  have nodup : (origin :: (q :: above).reverse).Nodup := by
    rw [← upwards, List.nodup_reverse]
    exact fresh
  have cells := congrArg List.length (places.symm.trans bottom)
  simp only [List.length_cons, List.length_map, List.length_append, List.length_nil] at cells deep
  refine .tooDeep chained nodup ?_
  rw [List.length_cons, List.length_reverse, List.length_cons]
  omega

theorem refusal_turn {w : Walk rows columns} {fault : Fault} (sound : w.Sound dependents origin)
    (threaded : w.Threaded dependents) (refused : turn dependents limit w = .refused fault) :
    Refusal dependents limit origin fault := by
  obtain ⟨path, finished⟩ := w
  match path with
  | [] => cases refused
  | ⟨p, []⟩ :: path => cases refused
  | ⟨p, q :: pending⟩ :: path =>
    simp only [turn] at refused
    split at refused
    · rename_i onPath
      obtain rfl := Turn.refused.inj refused
      exact .circular (sound.reached q (.inl onPath))
        (.tail' (threaded.reach_end onPath) sound.feeds_next)
    · rename_i offPath
      split at refused
      · cases refused
      · split at refused
        · rename_i deep
          obtain rfl := Turn.refused.inj refused
          exact refusal_of_deep sound threaded offPath deep
        · cases refused

theorem refusal_walk {w : Walk rows columns} {fault : Fault} (sound : w.Sound dependents origin)
    (threaded : w.Threaded dependents) (walked : walk dependents limit w = .error fault) :
    Refusal dependents limit origin fault := by
  induction w using walk.induct dependents limit with
  | case1 w order arrived =>
    rw [walk_eq, arrived] at walked
    cases walked
  | case2 w fault' refused =>
    rw [walk_eq, refused] at walked
    cases walked
    exact refusal_turn sound threaded refused
  | case3 w v onward ih =>
    rw [walk_eq, onward] at walked
    exact ih (sound_turn sound onward) (threaded_turn sound threaded onward) walked

theorem order_refusal {fault : Fault} (refused : order dependents limit origin = .error fault) :
    Refusal dependents limit origin fault :=
  refusal_walk (sound_start dependents origin) (threaded_start dependents origin) refused

/-! ## Ample limits -/

instance : Finite (Place rows columns) :=
  Finite.of_injective Place.index fun _ _ => Place.index_injective

/-- A chain without repetition has no more cells than can be reached from its first one. -/
theorem length_le_ncard {chain : List (Place rows columns)}
    (chained : List.IsChain (Feeds dependents) (origin :: chain)) (nodup : (origin :: chain).Nodup) :
    (origin :: chain).length ≤ {p | ReflTransGen (Feeds dependents) origin p}.ncard := by
  have reached : ∀ p ∈ chain, ReflTransGen (Feeds dependents) origin p :=
    List.IsChain.cons_induction _ _ chained (fun _ _ feeds reach => reach.tail feeds) .refl
  have inside : ((origin :: chain).toFinset : Set (Place rows columns)) ⊆
      {p | ReflTransGen (Feeds dependents) origin p} := by
    intro p member
    rcases List.mem_cons.1 (List.mem_toFinset.1 member) with rfl | later
    · exact .refl
    · exact reached p later
  rw [← List.toFinset_card_of_nodup nodup, ← Set.ncard_coe_finset]
  exact Set.ncard_le_ncard inside

/-- Under a limit that is no less than the number of cells to be reached, no cascade is too deep. -/
theorem Refusal.exists_cycle {fault : Fault} (refusal : Refusal dependents limit origin fault)
    (ample : {p | ReflTransGen (Feeds dependents) origin p}.ncard ≤ limit) :
    ∃ p, fault = .circularReference p.address ∧ ReflTransGen (Feeds dependents) origin p ∧
      TransGen (Feeds dependents) p p := by
  cases refusal with
  | circular reach cycle => exact ⟨_, rfl, reach, cycle⟩
  | tooDeep chained nodup deep =>
    have := length_le_ncard chained nodup
    omega

end FormulaGrid.Cascade
