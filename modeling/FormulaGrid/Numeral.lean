/-! # Positional numerals

Digits are not confined to `0 … base - 1`: cell names count their columns with the digits `1 … 26`.
-/

namespace FormulaGrid.Numeral

/-! ## Reading digits -/

def value (base : Nat) (digits : List Nat) : Nat :=
  digits.foldl (fun n d => n * base + d) 0

/-- The value of `digits` if it is below `limit`.  No intermediate number is `limit * base` or
more, so a long row of digits costs no more than a short one. -/
def valueBelow? (limit base : Nat) (digits : List Nat) : Option Nat :=
  digits.foldlM (fun n d => if n * base + d < limit then some (n * base + d) else none) 0

theorem value_append_singleton (base : Nat) (digits : List Nat) (d : Nat) :
    value base (digits ++ [d]) = value base digits * base + d := by
  simp [value]

/-- Reading on from `n` never ends below `n`. -/
theorem le_foldl_digits {base : Nat} (hbase : 0 < base) :
    ∀ (digits : List Nat) (n : Nat), n ≤ digits.foldl (fun n d => n * base + d) n
  | [], n => Nat.le_refl n
  | d :: ds, n => by
    have step : n ≤ n * base + d :=
      Nat.le_trans (Nat.le_mul_of_pos_right n hbase) (Nat.le_add_right _ d)
    exact Nat.le_trans step (le_foldl_digits hbase ds (n * base + d))

theorem foldlM_digits_eq_some_iff {limit base : Nat} (hbase : 0 < base) :
    ∀ (digits : List Nat) (n v : Nat), n < limit →
      (digits.foldlM (fun n d => if n * base + d < limit then some (n * base + d) else none) n
          = some v ↔
        digits.foldl (fun n d => n * base + d) n = v ∧ v < limit)
  | [], n, v, hn => by
    constructor
    · intro h
      obtain rfl : n = v := by simpa using h
      exact ⟨rfl, hn⟩
    · rintro ⟨rfl, -⟩
      rfl
  | d :: ds, n, v, _ => by
    by_cases h : n * base + d < limit
    · simpa [h] using foldlM_digits_eq_some_iff hbase ds (n * base + d) v h
    · have grows := le_foldl_digits hbase ds (n * base + d)
      simp only [List.foldlM_cons, h, if_false, List.foldl_cons]
      constructor
      · intro hnone
        cases hnone
      · rintro ⟨rfl, hv⟩
        omega

/-- The bounded reading finds the value exactly when the value is below the limit. -/
theorem valueBelow?_eq_some_iff {limit base : Nat} (hlimit : 0 < limit) (hbase : 0 < base)
    (digits : List Nat) (v : Nat) :
    valueBelow? limit base digits = some v ↔ value base digits = v ∧ v < limit :=
  foldlM_digits_eq_some_iff hbase digits 0 v hlimit

/-! ## Digit characters -/

def digitValue (c : Char) : Nat :=
  c.toNat - '0'.toNat

/-- In base ten, the value of a row of digit characters is the number they write. -/
theorem value_map_digitValue (cs : List Char) :
    value 10 (cs.map digitValue) = Nat.ofDigitChars 10 cs 0 := by
  simp only [value, digitValue, List.foldl_map, Nat.ofDigitChars_eq_foldl, Nat.mul_comm]

end FormulaGrid.Numeral
