import FormulaGrid.Proofs.DepthVerdicts
import FormulaGrid.Proofs.Pruning
import FormulaGrid.Proofs.Reload

/-! # Loading the own records of a sheet

A sheet whose calls all succeeded may fail to load its own records.  The limit holds for each call
by itself, and the calls that built the sheet may have come in another order than the records, which
are entered row after row.  When the text of a cell is entered, the cells in front of it are there
already, listed as dependents in the order of their places, and a chain of them can be too long for
the limit though no edit ever followed it from end to end.
-/

namespace FormulaGrid.Sheet

open Relation Cascade

variable {rows columns : Nat}

/-! ## Histories without a failure -/

/-- The history succeeds on a sheet that drops stale links under an ample limit as well, and there
the two sheets are up to date together. -/
theorem upToDate_of_history {settings : Settings} {history : List Call}
    {answers : List (List (Update rows columns))} {s : Sheet rows columns}
    (accepted : history.mapM perform (blank rows columns settings) = .ok answers s) :
    s.UpToDate ∧ s.Indexed := by
  have new : Matches (blank rows columns ⟨true, rows * columns⟩) (blank rows columns settings) :=
    matches_of_empty rfl (Nat.le_refl _) ⟨rfl, fun p => ⟨p, cell_blank _ p⟩⟩
      ⟨rfl, fun p => ⟨p, cell_blank settings p⟩⟩
  obtain ⟨_, _, _, same, _⟩ := Follows.mapM follows_perform history _ _ new answers s accepted
  exact ⟨same.upToDate', same.indexed'⟩

/-! ## Dependents in the order of their places -/

/-- The cells up to `p` whose texts refer to `q`, row after row. -/
def dependentsUpTo (s : Sheet rows columns) (p q : Place rows columns) :
    List (Place rows columns) :=
  (Place.all rows columns).filter fun r =>
    r.index ≤ p.index ∧ q ∈ referencesOf r (s.cell r).text

def Ranked (s : Sheet rows columns) : Prop :=
  ∀ q, (s.cell q).dependents.Pairwise fun r r' => r.index < r'.index

variable {s t : Sheet rows columns} {settings : Settings} {p q r : Place rows columns}
  {done rest colours : List (Place rows columns)}

theorem mem_dependentsUpTo :
    r ∈ s.dependentsUpTo p q ↔ r.index ≤ p.index ∧ q ∈ referencesOf r (s.cell r).text := by
  simp [dependentsUpTo, Place.mem_all]

theorem pairwise_dependentsUpTo (s : Sheet rows columns) (p q : Place rows columns) :
    (s.dependentsUpTo p q).Pairwise fun r r' => r.index < r'.index := by
  apply List.Pairwise.filter
  rw [Place.all, List.pairwise_map]
  simpa using List.pairwise_lt_finRange (rows * columns)

theorem ranked_clear (s : Sheet rows columns) : s.clear.Ranked := by
  intro q
  rw [cell_clear]
  exact .nil

theorem Ranked.setBackground (ranked : t.Ranked) (p : Place rows columns) (background : UInt32) :
    (after (setBackground p.address background t)).Ranked := by
  intro q
  rw [cell_setBackground]
  exact ranked q

/-- A cell that is entered behind all those that have links is the last of its precedents'
dependents. -/
theorem Ranked.setText (ranked : t.Ranked) (linked : t.Linked)
    (last : ∀ q, ∀ r ∈ (t.cell q).dependents, r.index < p.index) (text : String) :
    (after (setText p.address text t)).Ranked := by
  intro q
  obtain ⟨ps, revalued⟩ := revalued_setText linked p text
  rw [revalued.dependents]
  rcases dependents_relink_cases linked p q text with kept | ⟨-, lost⟩ | ⟨-, gained⟩
  · rw [kept]
    exact ranked q
  · rw [lost]
    exact (ranked q).filter _
  · rw [gained, List.pairwise_append]
    refine ⟨ranked q, List.pairwise_singleton _ p, ?_⟩
    intro r member r' own
    rw [List.mem_singleton.1 own]
    exact last q r member

theorem Pruned.mem_dependents_iff (pruned : t.Pruned) (mirrored : t.Mirrored)
    (q r : Place rows columns) :
    r ∈ (t.cell q).dependents ↔ q ∈ referencesOf r (t.cell r).text := by
  rw [mirrored.mem_iff, pruned r, List.mem_eraseDups]

/-- A cell whose text refers to some other has a text. -/
theorem text_ne_of_mem_referencesOf {text : String} (refers : q ∈ referencesOf r text) :
    text ≠ "" := by
  rintro rfl
  cases refers

/-! ## Entering the cells row after row -/

/-- The walk from `p`, once the cells up to it are there, is refused for its depth. -/
def Overlong (s : Sheet rows columns) (limit : Nat) (p : Place rows columns) : Prop :=
  order (s.dependentsUpTo p) limit p = .error (.cascadeTooDeep limit)

section Waiting

variable (upToDate : s.UpToDate) (indexed : s.Indexed) (split : s.occupied = done ++ p :: rest)

include indexed split

theorem Indexed.notMem_waiting : p ∉ rest := by
  intro member
  have ordered := indexed.ordered
  rw [split, List.pairwise_append, List.pairwise_cons] at ordered
  exact absurd (ordered.2.1.1 p member) (Nat.lt_irrefl _)

/-- Of the occupied cells, those that wait behind `p` are those of greater index. -/
theorem Indexed.mem_waiting_iff (occupied : (s.cell r).text ≠ "") :
    r ∈ rest ↔ p.index < r.index := by
  have ordered := indexed.ordered
  rw [split, List.pairwise_append, List.pairwise_cons] at ordered
  obtain ⟨-, ⟨behind, -⟩, before⟩ := ordered
  have listed : r ∈ done ++ p :: rest := by
    rw [← split, indexed.mem_iff]
    simp [Cell.isEmpty, occupied]
  constructor
  · exact behind r
  · intro later
    rcases List.mem_append.1 listed with earlier | waiting
    · have := before r earlier p List.mem_cons_self
      omega
    · rcases List.mem_cons.1 waiting with rfl | waiting
      · omega
      · exact waiting

/-- The cells with links lie in front of the next one. -/
theorem Partial.last (waits : Partial s settings (p :: rest) colours t)
    (member : r ∈ (t.cell q).dependents) : r.index < p.index := by
  rw [waits.pruned.mem_dependents_iff waits.upToDate.linked.mirrored, waits.text] at member
  split at member
  · cases member
  · rename_i entered
    have behind := indexed.mem_waiting_iff split (text_ne_of_mem_referencesOf member)
    rw [List.mem_cons, not_or, behind] at entered
    have apart : r.index ≠ p.index := fun same => entered.1 (Place.index_injective same)
    omega

theorem Partial.ranked_setText (waits : Partial s settings (p :: rest) colours t)
    (ranked : t.Ranked) : (after (Sheet.setText p.address (s.cell p).text t)).Ranked :=
  ranked.setText waits.upToDate.linked (fun _ _ => waits.last indexed split) _

include upToDate

/-- The lists of dependents once the text of `p` has been entered. -/
theorem Partial.dependents_setText (waits : Partial s settings (p :: rest) colours t)
    (ranked : t.Ranked) (q : Place rows columns) :
    ((after (Sheet.setText p.address (s.cell p).text t)).cell q).dependents =
      s.dependentsUpTo p q := by
  have linked₁ := (edited_setText waits.upToDate.linked p (s.cell p).text).linked
  have irreflexive : Std.Irrefl fun p q : Place rows columns => p.index < q.index :=
    ⟨fun p => Nat.lt_irrefl p.index⟩
  -- the two lists go row after row, so it is enough that they have the same members
  apply (waits.ranked_setText indexed split ranked q).eq_of_mem_iff (pairwise_dependentsUpTo s p q)
  intro r
  rw [(waits.pruned_setText upToDate).mem_dependents_iff linked₁.mirrored,
    waits.text_setText (indexed.notMem_waiting split), mem_dependentsUpTo]
  have unrelated : q ∉ referencesOf r "" := fun refers => text_ne_of_mem_referencesOf refers rfl
  by_cases blank : (s.cell r).text = ""
  · simp [blank, unrelated]
  · have waiting := indexed.mem_waiting_iff split blank
    by_cases later : r ∈ rest
    · simp [later, unrelated, not_le.2 (waiting.1 later)]
    · simp [later, not_lt.1 (mt waiting.2 later)]

theorem Partial.setText_tooDeep_iff (waits : Partial s settings (p :: rest) colours t)
    (ranked : t.Ranked) :
    fault? (Sheet.setText p.address (s.cell p).text t) =
        some (.cascadeTooDeep settings.depthLimit) ↔ s.Overlong settings.depthLimit p := by
  have dependents := funext (waits.dependents_setText upToDate indexed split ranked)
  rw [← waits.settings, fault?_eq_tooDeep_iff waits.upToDate.linked (upToDate.computes p) rfl,
    dependents, Overlong]

/-- A record is entered, unless the walk from its cell is refused. -/
theorem Partial.enter_ranked (waits : Partial s settings (p :: rest) (p :: rest) t)
    (ranked : t.Ranked) :
    (∃ u, Sheet.enter (s.record p) t = .ok () u ∧ Partial s settings rest rest u ∧ u.Ranked ∧
        ¬ s.Overlong settings.depthLimit p) ∨
      ∃ u, Sheet.enter (s.record p) t = .error (.cascadeTooDeep settings.depthLimit) u ∧
        s.Overlong settings.depthLimit p := by
  have fresh := indexed.notMem_waiting split
  have coloured := waits.setBackground fresh
  have ranked₁ := ranked.setBackground p (s.cell p).background
  have ranked₂ := coloured.ranked_setText indexed split ranked₁
  have verdict := coloured.setText_tooDeep_iff upToDate indexed split ranked₁
  rw [enter_record, Session.run_discard]
  rcases coloured.setText upToDate fresh with ⟨updates, u, succeeds, entered⟩ | ⟨-, u, refused⟩
  · rw [succeeds] at verdict ranked₂ ⊢
    refine .inl ⟨u, rfl, entered, ranked₂, ?_⟩
    intro overlong
    cases verdict.2 overlong
  · rw [refused] at verdict ⊢
    exact .inr ⟨u, rfl, verdict.1 rfl⟩

end Waiting

/-- The records of the cells that wait are entered, up to the first whose walk is refused. -/
theorem Partial.enterAll_ranked (waits : Partial s settings rest rest t) (upToDate : s.UpToDate)
    (indexed : s.Indexed) (split : s.occupied = done ++ rest) (ranked : t.Ranked) :
    (∃ u, (rest.map s.record).forM Sheet.enter t = .ok () u ∧
        ∀ p ∈ rest, ¬ s.Overlong settings.depthLimit p) ∨
      ∃ u, (rest.map s.record).forM Sheet.enter t =
          .error (.cascadeTooDeep settings.depthLimit) u ∧
        ∃ p ∈ rest, s.Overlong settings.depthLimit p := by
  induction rest generalizing done t with
  | nil => exact .inl ⟨t, rfl, fun _ member => absurd member List.not_mem_nil⟩
  | cons p rest ih =>
    have onward : s.occupied = (done ++ [p]) ++ rest := by simp [split]
    rw [List.map_cons, Session.run_enter_cons]
    rcases waits.enter_ranked upToDate indexed split ranked with
      ⟨u, entered, waits, ranked, within⟩ | ⟨u, refused, overlong⟩
    · rw [entered]
      rcases ih waits onward ranked with ⟨v, loaded, all⟩ | ⟨v, refused, q, member, overlong⟩
      · exact .inl ⟨v, loaded, List.forall_mem_cons.2 ⟨within, all⟩⟩
      · exact .inr ⟨v, refused, q, List.mem_cons_of_mem p member, overlong⟩
    · rw [refused]
      exact .inr ⟨u, rfl, p, List.mem_cons_self, overlong⟩

/-! ## When a sheet can be loaded from its own records -/

theorem feeds_dependentsUpTo (s : Sheet rows columns) (p : Place rows columns) :
    Cascade.Feeds (s.dependentsUpTo p) ≤ RefersTo s.texts :=
  fun _ _ feeds => (mem_dependentsUpTo.1 feeds).2

theorem UpToDate.acyclic_dependentsUpTo (upToDate : s.UpToDate) (p q : Place rows columns) :
    ¬ TransGen (Cascade.Feeds (s.dependentsUpTo p)) q q := by
  intro circular
  have feeds : Cascade.Feeds (s.dependentsUpTo p) ≤ s.Feeds := fun q r fed =>
    upToDate.linked.feeds_of_mem_referencesOf (feeds_dependentsUpTo s p q r fed)
  exact upToDate.acyclic q (TransGen.mono feeds q q circular)

theorem UpToDate.overlong_iff (upToDate : s.UpToDate) (limit : Nat) (p : Place rows columns) :
    s.Overlong limit p ↔
      ∃ c cells, Leftmost (s.dependentsUpTo p) p c cells ∧ max limit 1 < cells.length :=
  order_tooDeep_iff fun q _ => upToDate.acyclic_dependentsUpTo p q

/-- Behind its first cell, a chain of cells up to `p` has cells in front of `p` only. -/
theorem UpToDate.chain_of_route (upToDate : s.UpToDate) {c : Place rows columns}
    {cells : List (Place rows columns)}
    (route : Route (Cascade.Feeds (s.dependentsUpTo p)) p c cells) :
    ∃ chain, cells = p :: chain ∧ (p :: chain).IsChain (RefersTo s.texts) ∧
      ∀ q ∈ chain, q.index < p.index := by
  obtain ⟨chain, rfl⟩ := List.head?_eq_some_iff.1 route.first
  refine ⟨chain, rfl, route.chained.imp (feeds_dependentsUpTo s p), ?_⟩
  intro q member
  have later : TransGen (Cascade.Feeds (s.dependentsUpTo p)) p q :=
    List.rel_of_pairwise_cons (route.chained.imp fun _ _ => TransGen.single).pairwise member
  obtain ⟨r, -, feeds⟩ := TransGen.tail'_iff.1 later
  have upTo := (mem_dependentsUpTo.1 feeds).1
  have apart : q.index ≠ p.index := by
    intro same
    obtain rfl := Place.index_injective same
    exact upToDate.acyclic_dependentsUpTo q q later
  omega

/-- A sheet whose calls all succeeded can be loaded from its own records if and only if no walk
exceeds the limit that goes from the cell of a record through the cells up to it, listed row after
row.  Otherwise it is the limit that is named.  So the records are loaded if no chain exceeds it
that begins at the cell of a record, each of whose cells refers to the one before, and whose later
cells all lie in front of the first. -/
theorem load_own_records {settings : Settings} {history : List Call}
    {answers : List (List (Update rows columns))} {s : Sheet rows columns}
    (accepted : history.mapM perform (blank rows columns settings) = .ok answers s) :
    ((∃ t, load s.records s = .ok () t) ↔
      ∀ p ∈ s.occupied, ∀ c cells, Leftmost (s.dependentsUpTo p) p c cells →
        cells.length ≤ max s.settings.depthLimit 1) ∧
    (∀ fault t, load s.records s = .error fault t →
      fault = .cascadeTooDeep s.settings.depthLimit) ∧
    ((∀ p ∈ s.occupied, ∀ chain, (p :: chain).IsChain (RefersTo s.texts) →
        (∀ q ∈ chain, q.index < p.index) → (p :: chain).length ≤ max s.settings.depthLimit 1) →
      ∃ t, load s.records s = .ok () t) := by
  obtain ⟨upToDate, indexed⟩ := upToDate_of_history accepted
  have loading : load s.records s = (s.occupied.map s.record).forM enter s.clear := rfl
  have waits := partial_clear indexed (List.Perm.refl s.occupied) s
  have ends := waits.enterAll_ranked upToDate indexed (List.nil_append _).symm (ranked_clear s)
  rw [← loading] at ends
  have verdict : (∃ t, load s.records s = .ok () t) ↔
      ∀ p ∈ s.occupied, ∀ c cells, Leftmost (s.dependentsUpTo p) p c cells →
        cells.length ≤ max s.settings.depthLimit 1 := by
    have within : (∃ t, load s.records s = .ok () t) ↔
        ∀ p ∈ s.occupied, ¬ s.Overlong s.settings.depthLimit p := by
      rcases ends with ⟨t, loaded, within⟩ | ⟨t, refused, p, occupied, overlong⟩
      · exact ⟨fun _ => within, fun _ => ⟨t, loaded⟩⟩
      · constructor
        · rintro ⟨u, loaded⟩
          rw [refused] at loaded
          cases loaded
        · exact fun within => absurd overlong (within p occupied)
    simp only [within, upToDate.overlong_iff, not_exists, not_and, not_lt]
  refine ⟨verdict, ?_, ?_⟩
  · intro fault t failed
    rcases ends with ⟨u, loaded, -⟩ | ⟨u, refused, -⟩
    · rw [loaded] at failed
      cases failed
    · rw [refused] at failed
      cases failed
      rfl
  · intro short
    rw [verdict]
    intro p occupied c cells leftmost
    obtain ⟨chain, rfl, refers, before⟩ := upToDate.chain_of_route leftmost.route
    exact short p occupied chain refers before

def ascending : List Call :=
  [.setText ⟨0, 2⟩ "=B1", .setBackground ⟨0, 2⟩ 7, .setText ⟨0, 0⟩ "x", .setText ⟨0, 1⟩ "=A1"]

/-- Every cell is entered behind those that it refers to, so the chains are as short as can be. -/
theorem load_own_records_ascending :
    ∃ answers s t, ascending.mapM perform (blank 1 3 { depthLimit := 2 }) = .ok answers s ∧
      load s.records s = .ok () t := by
  obtain ⟨answers, s, accepted⟩ := exists_of_succeeds (show Sheet.succeeds
    (ascending.mapM perform (blank 1 3 { depthLimit := 2 })) = true by decide +kernel)
  have left : after (ascending.mapM perform (blank 1 3 { depthLimit := 2 })) = s := by
    rw [accepted, after]
  have forwards : ∀ p ∈ Place.all 1 3, ∀ q ∈ Place.all 1 3,
      p ∈ referencesOf q (s.cell q).text → ¬ q.index < p.index := by
    subst left
    decide +kernel
  obtain ⟨-, -, loads⟩ := @load_own_records 1 3 _ _ _ _ accepted
  obtain ⟨t, loaded⟩ := loads (by
    intro p _ chain refers before
    cases chain with
    | nil => exact Nat.le_max_right _ 1
    | cons q chain =>
      have next := (List.isChain_cons_cons.1 refers).1
      exact absurd (before q List.mem_cons_self)
        (forwards p (Place.mem_all p) q (Place.mem_all q) next))
  exact ⟨answers, s, t, accepted, loaded⟩

def descending : List Call :=
  [.setText ⟨0, 2⟩ "x", .setText ⟨0, 1⟩ "=C1", .setText ⟨0, 0⟩ "=B1"]

/-- No edit has anything to follow, but on loading the last cell comes behind the others. -/
theorem load_refused_descending :
    Sheet.succeeds (descending.mapM perform (blank 1 3 { depthLimit := 2 })) = true ∧
      fault? (load (after (descending.mapM perform (blank 1 3 { depthLimit := 2 }))).records
        (after (descending.mapM perform (blank 1 3 { depthLimit := 2 })))) =
          some (.cascadeTooDeep 2) := by
  decide +kernel

end FormulaGrid.Sheet
