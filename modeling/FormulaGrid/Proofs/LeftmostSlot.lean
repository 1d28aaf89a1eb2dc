import FormulaGrid.Proofs.Assignments

namespace FormulaGrid

namespace Variables

def unreadable (vs : Variables) (slot : Nat) : Bool :=
  vs.entries[slot]?.any fun v => (Number.parse? v.value).isNone

variable {vs : Variables} {slot : Nat}

theorem number_of_unreadable (strange : vs.unreadable slot) :
    ∃ v, vs.entries[slot]? = some v ∧ vs.number slot = .error (.invalidNumber v.name v.value) := by
  obtain ⟨v, entry, unparsed⟩ := (Option.any_eq_true _ _).1 strange
  refine ⟨v, entry, ?_⟩
  rw [number, entry]
  dsimp only
  rw [Option.isNone_iff_eq_none.1 unparsed]

theorem exists_number (bounded : slot < vs.entries.size) (plain : vs.unreadable slot = false) :
    ∃ x, vs.number slot = .ok x := by
  have entry := Array.getElem?_eq_getElem bounded
  rw [unreadable, entry, Option.any_some, Option.isNone_eq_false_iff] at plain
  obtain ⟨x, parsed⟩ := Option.isSome_iff_exists.1 plain
  refine ⟨x, ?_⟩
  rw [number, entry]
  dsimp only
  rw [parsed]

end Variables

namespace Expr

variable {vs : Variables} {e : Expr}

/-- Recursion fails at the leftmost variable whose slot holds no number, and succeeds if there is
none. -/
theorem recurse_of_covered (covered : ∀ slot ∈ e.slots, slot < vs.entries.size) :
    (∃ slot v, e.slots.find? vs.unreadable = some slot ∧ vs.entries[slot]? = some v ∧
      e.recurse vs = .error (.invalidNumber v.name v.value)) ∨
    (e.slots.find? vs.unreadable = none ∧ ∃ x, e.recurse vs = .ok x) := by
  induction e with
  | const x => exact .inr ⟨rfl, x, rfl⟩
  | var name slot =>
    have bounded := covered slot List.mem_cons_self
    cases strange : vs.unreadable slot with
    | true =>
      obtain ⟨v, entry, failed⟩ := Variables.number_of_unreadable strange
      exact .inl ⟨slot, v, by simp [slots, strange], entry, failed⟩
    | false =>
      obtain ⟨x, read⟩ := Variables.exists_number bounded strange
      exact .inr ⟨by simp [slots, strange], x, read⟩
  | binary op left right ihLeft ihRight =>
    obtain ⟨coveredLeft, coveredRight⟩ := List.forall_mem_append.1 covered
    rw [slots, List.find?_append, recurse]
    rcases ihLeft coveredLeft with ⟨slot, v, found, entry, failed⟩ | ⟨none, x, value⟩
    · exact .inl ⟨slot, v, by rw [found, Option.some_or], entry, by rw [failed]; rfl⟩
    rw [none, Option.none_or, value]
    rcases ihRight coveredRight with ⟨slot, v, found, entry, failed⟩ | ⟨none, y, value⟩
    · exact .inl ⟨slot, v, found, entry, by rw [failed]; rfl⟩
    · exact .inr ⟨none, op.apply x y, by rw [value]; rfl⟩

/-- Under a table that has all slots of an expression, the walk comes to what recursion comes to.  If
a variable has a slot that holds no number, the leftmost such variable is reported with the name and
the value in the slot, and otherwise there is a value.  No operator ever finds fewer than two values,
and at the end there is one. -/
theorem evaluate_covered (covered : ∀ slot ∈ e.slots, slot < vs.entries.size) :
    e.evaluate vs = e.recurse vs ∧
    (∀ slot, e.slots.find? vs.unreadable = some slot → ∃ v, vs.entries[slot]? = some v ∧
      e.evaluate vs = .error (.invalidNumber v.name v.value)) ∧
    ((∀ slot ∈ e.slots, vs.unreadable slot = false) → ∃ x, e.evaluate vs = .ok x) ∧
    (∀ symbol, e.evaluate vs ≠ .error (.insufficientOperands symbol)) ∧
    e.evaluate vs ≠ .error .emptyExpression := by
  rw [evaluate_eq_recurse]
  refine ⟨rfl, ?_⟩
  rcases recurse_of_covered covered with ⟨slot, v, found, entry, failed⟩ | ⟨none, x, value⟩
  · rw [failed]
    refine ⟨?_, ?_, ?_, ?_⟩
    · intro slot' leftmost
      rw [found] at leftmost
      cases leftmost
      exact ⟨v, entry, rfl⟩
    · intro plain
      have strange := List.find?_some found
      rw [plain slot (List.mem_of_find?_eq_some found)] at strange
      cases strange
    · rintro symbol ⟨⟩
    · rintro ⟨⟩
  · rw [value]
    refine ⟨?_, ?_, ?_, ?_⟩
    · intro slot found
      rw [none] at found
      cases found
    · exact fun _ => ⟨x, rfl⟩
    · rintro symbol ⟨⟩
    · rintro ⟨⟩

/-- The variable on the left is the one that is reported, by the name that its slot holds, although
it comes second in the table. -/
theorem evaluate_covered_renamed :
    (binary .sub (var "A1" 1) (binary .div (const 1) (var "B1" 0))).evaluate
      ⟨#[⟨"B1", "none"⟩, ⟨"C1", "1.2.3"⟩]⟩ = .error (.invalidNumber "C1" "1.2.3") := by
  obtain ⟨-, leftmost, -⟩ := @evaluate_covered ⟨#[⟨"B1", "none"⟩, ⟨"C1", "1.2.3"⟩]⟩
    (binary .sub (var "A1" 1) (binary .div (const 1) (var "B1" 0))) (by decide +kernel)
  obtain ⟨v, entry, failed⟩ := leftmost 1 (by decide +kernel)
  cases entry
  exact failed

end Expr

end FormulaGrid
