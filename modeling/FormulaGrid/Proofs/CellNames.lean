import FormulaGrid.Proofs.Lexemes
import FormulaGrid.Address.Parse
import Mathlib.Data.List.Induction
import Mathlib.Data.Nat.Digits.Defs

namespace FormulaGrid

namespace Numeral

/-- The value of a row of digits is the sum of the digits, each times a power of the base. -/
theorem value_eq_ofDigits (base : Nat) (digits : List Nat) :
    value base digits = Nat.ofDigits base digits.reverse := by
  rw [Nat.ofDigits_eq_foldr, List.foldr_reverse, value]
  congr 1
  funext n d
  rw [Nat.cast_id, Nat.mul_comm, Nat.add_comm]

/-! ## Digits of base ten -/

theorem digitValue_lt {c : Char} (digit : c.isDigit) : digitValue c < 10 := by
  obtain ⟨first, last⟩ := Char.isDigit_iff_toNat.1 digit
  have ten : '9'.toNat = '0'.toNat + 9 := rfl
  rw [digitValue]
  omega

theorem digitChar_digitValue {c : Char} (digit : c.isDigit) : (digitValue c).digitChar = c := by
  apply Char.toNat_inj.1
  rw [Nat.toNat_digitChar_of_lt_ten (digitValue_lt digit), digitValue]
  exact Nat.add_sub_cancel' (Char.isDigit_iff_toNat.1 digit).1

def numeral (n : Nat) : List Char :=
  if n = 0 then [] else Nat.toDigits 10 n

theorem numeral_eq_nil_iff {n : Nat} : numeral n = [] ↔ n = 0 := by
  rw [numeral]
  split
  · simp [*]
  · simp [*]

/-- One more digit is written at the end, unless it were a zero in front of nothing. -/
theorem numeral_step (n : Nat) {c : Char} (digit : c.isDigit) :
    numeral (n * 10 + digitValue c) =
      if n = 0 then [c].dropWhile (· = '0') else numeral n ++ [c] := by
  have small := digitValue_lt digit
  have single : Nat.toDigits 10 (digitValue c) = [c] := by
    rw [Nat.toDigits_of_lt_base small, digitChar_digitValue digit]
  split
  · subst n
    have zero : digitValue c = 0 ↔ c = '0' := by
      rw [← Nat.digitChar_eq_zero, digitChar_digitValue digit]
    rw [Nat.zero_mul, Nat.zero_add, numeral]
    by_cases same : c = '0'
    · rw [if_pos (zero.2 same), same]
      rfl
    · rw [if_neg (mt zero.1 same), single, List.dropWhile_cons_of_neg (by simpa using same)]
  · rename_i positive
    have more : n * 10 + digitValue c ≠ 0 := by omega
    rw [numeral, numeral, if_neg more, if_neg positive, Nat.mul_comm,
      ← Nat.toDigits_append_toDigits (by decide) (Nat.pos_of_ne_zero positive) small, single]

/-- Digits are written back without the zeros in front of them. -/
theorem numeral_value {digits : List Char} (all : ∀ c ∈ digits, c.isDigit) :
    numeral (value 10 (digits.map digitValue)) = digits.dropWhile (· = '0') := by
  induction digits using List.reverseRecOn with
  | nil => rfl
  | append_singleton digits c ih =>
    obtain ⟨others, last⟩ := List.forall_mem_append.1 all
    have front := ih others
    have none := numeral_eq_nil_iff (n := value 10 (digits.map digitValue))
    rw [front] at none
    rw [List.map_append, List.map_singleton, value_append_singleton,
      numeral_step _ (last c List.mem_cons_self), List.dropWhile_append, front]
    simp only [List.isEmpty_iff, none]

end Numeral

namespace Address

/-! ## Letters of a column -/

def rank (c : Char) : Nat :=
  "ABCDEFGHIJKLMNOPQRSTUVWXYZ".toList.idxOf c.toUpper + 1

/-- A letter of ASCII is one of twenty-six in one of two cases. -/
theorem exists_letter {c : Char} (alpha : c.isAlpha) :
    ∃ d < 26, c = columnLetter d ∨ c = Char.ofNat ('a'.toNat + d) := by
  rcases Bool.or_eq_true_iff.1 alpha with upper | lower
  · obtain ⟨above, below⟩ := of_decide_eq_true upper
    have first : 'A'.toNat ≤ c.toNat := UInt32.le_iff_toNat_le.1 above
    have last : c.toNat ≤ 'A'.toNat + 25 := UInt32.le_iff_toNat_le.1 below
    refine ⟨c.toNat - 'A'.toNat, by omega, .inl ?_⟩
    rw [columnLetter, Nat.add_sub_cancel' first, Char.ofNat_toNat]
  · obtain ⟨above, below⟩ := Bool.and_eq_true_iff.1 lower
    have first : 'a'.toNat ≤ c.toNat := UInt32.le_iff_toNat_le.1 (of_decide_eq_true above)
    have last : c.toNat ≤ 'a'.toNat + 25 := UInt32.le_iff_toNat_le.1 (of_decide_eq_true below)
    refine ⟨c.toNat - 'a'.toNat, by omega, .inr ?_⟩
    rw [Nat.add_sub_cancel' first, Char.ofNat_toNat]

theorem rank_columnLetter : ∀ d < 26, rank (columnLetter d) = d + 1 := by
  decide

theorem letterValue_columnLetter : ∀ d < 26, letterValue (columnLetter d) = d + 1 := by
  decide

theorem isAlpha_columnLetter : ∀ d < 26, (columnLetter d).isAlpha := by
  decide

theorem toUpper_columnLetter : ∀ d < 26, (columnLetter d).toUpper = columnLetter d := by
  decide

theorem toUpper_lowerCase : ∀ d < 26, (Char.ofNat ('a'.toNat + d)).toUpper = columnLetter d := by
  decide

/-- A letter and its capital are worth the same, and the capital is written for it. -/
theorem exists_capital {c : Char} (alpha : c.isAlpha) :
    ∃ d < 26, c.toUpper = columnLetter d ∧ letterValue c = d + 1 ∧ rank c = d + 1 := by
  obtain ⟨d, small, spelled⟩ := exists_letter alpha
  have capital : c.toUpper = columnLetter d := by
    rcases spelled with rfl | rfl
    · exact toUpper_columnLetter d small
    · exact toUpper_lowerCase d small
  have fixed : c.toUpper.toUpper = c.toUpper := by
    rw [capital, toUpper_columnLetter d small]
  refine ⟨d, small, capital, ?_, ?_⟩
  · rw [← letterValue_columnLetter d small, ← capital, letterValue, letterValue, fixed]
  · rw [← rank_columnLetter d small, ← capital, rank, rank, fixed]

theorem columnLetters_step (n : Nat) {d : Nat} (small : d < 26) :
    columnLetters (n * 26 + (d + 1)) = columnLetters n ++ [columnLetter d] := by
  have quotient : (n * 26 + d) / 26 = n := by omega
  have remainder : (n * 26 + d) % 26 = d := by omega
  rw [← Nat.add_assoc, columnLetters, quotient, remainder]

/-- Letters are written back in capitals. -/
theorem columnLetters_value {letters : List Char} (all : ∀ c ∈ letters, c.isAlpha) :
    columnLetters (Numeral.value 26 (letters.map letterValue)) = letters.map Char.toUpper := by
  -- from the last letter, which is the digit that the division by the base splits off
  induction letters using List.reverseRecOn with
  | nil => rw [List.map_nil, List.map_nil, Numeral.value, List.foldl_nil, columnLetters]
  | append_singleton letters c ih =>
    obtain ⟨others, last⟩ := List.forall_mem_append.1 all
    obtain ⟨d, small, capital, worth, -⟩ := exists_capital (last c List.mem_cons_self)
    rw [List.map_append, List.map_singleton, Numeral.value_append_singleton, worth,
      columnLetters_step _ small, ih others, List.map_append, List.map_singleton, capital]

theorem value_columnLetters (n : Nat) :
    Numeral.value 26 ((columnLetters n).map letterValue) = n := by
  induction n using columnLetters.induct with
  | case1 => rw [columnLetters, List.map_nil, Numeral.value, List.foldl_nil]
  | case2 n ih =>
    rw [columnLetters, List.map_append, List.map_singleton, Numeral.value_append_singleton, ih,
      letterValue_columnLetter _ (Nat.mod_lt n (by decide)), ← Nat.add_assoc, Nat.div_add_mod']

theorem isAlpha_columnLetters (n : Nat) : ∀ c ∈ columnLetters n, c.isAlpha := by
  induction n using columnLetters.induct with
  | case1 =>
    rw [columnLetters]
    exact fun _ member => by cases member
  | case2 n ih =>
    rw [columnLetters]
    refine List.forall_mem_append.2 ⟨ih, ?_⟩
    rintro c (_ | ⟨_, ⟨⟩⟩)
    exact isAlpha_columnLetter _ (Nat.mod_lt n (by decide))

/-! ## Reading a name -/

def columnValue (letters : List Char) : Nat :=
  Nat.ofDigits 26 (letters.map rank).reverse

/-- A text of letters and then digits, at least one of each. -/
structure Spelled (text : String) (letters digits : List Char) : Prop where
  split : text.toList = letters ++ digits
  someLetter : letters ≠ []
  someDigit : digits ≠ []
  alpha : ∀ c ∈ letters, c.isAlpha
  digit : ∀ c ∈ digits, c.isDigit

theorem value_letters {letters : List Char} (all : ∀ c ∈ letters, c.isAlpha) :
    Numeral.value 26 (letters.map letterValue) = columnValue letters := by
  have same : letters.map letterValue = letters.map rank := by
    apply List.map_congr_left
    intro c member
    obtain ⟨d, -, -, worth, place⟩ := exists_capital (all c member)
    rw [worth, place]
  rw [same, Numeral.value_eq_ofDigits, columnValue]

theorem columnNumber?_eq_some_iff {letters : List Char} (all : ∀ c ∈ letters, c.isAlpha) {n : Nat} :
    columnNumber? letters = some n ↔ columnValue letters = n ∧ n < limit := by
  rw [columnNumber?, Numeral.valueBelow?_eq_some_iff (by decide) (by decide), value_letters all]

theorem rowNumber?_eq_some_iff {digits : List Char} {n : Nat} :
    rowNumber? digits = some n ↔ Nat.ofDigitChars 10 digits 0 = n ∧ n < limit := by
  rw [rowNumber?, Numeral.valueBelow?_eq_some_iff (by decide) (by decide),
    Numeral.value_map_digitValue]

variable {text : String} {letters digits : List Char} {a : Address}

/-- The letters end at the first digit. -/
theorem Spelled.parts (spelled : Spelled text letters digits) :
    text.toList.takeWhile Char.isAlpha = letters ∧ text.toList.dropWhile Char.isAlpha = digits := by
  rw [spelled.split]
  apply Token.takeWhile_append_of_head spelled.alpha
  intro c member
  exact isAlpha_of_isDigit (spelled.digit c (List.mem_of_mem_head? member))

theorem parse?_of_spelled (spelled : Spelled text letters digits) :
    parse? text = match columnNumber? letters, rowNumber? digits with
      | some (column + 1), some (row + 1) => some ⟨row, column⟩
      | _, _ => none := by
  obtain ⟨taken, dropped⟩ := spelled.parts
  have shape : (letters.isEmpty || digits.isEmpty || !digits.all Char.isDigit) = false := by
    simpa [spelled.someLetter, spelled.someDigit] using spelled.digit
  simp only [parse?, taken, dropped, shape]
  rfl

theorem spelled_of_parse? (read : parse? text = some a) :
    Spelled text (text.toList.takeWhile Char.isAlpha) (text.toList.dropWhile Char.isAlpha) := by
  simp only [parse?] at read
  split at read
  · cases read
  · rename_i shape
    simp only [Bool.or_eq_true, List.isEmpty_iff, Bool.not_eq_true', not_or, Bool.not_eq_false,
      List.all_eq_true] at shape
    exact ⟨List.takeWhile_append_dropWhile.symm, shape.1.1, shape.1.2,
      fun c member => List.mem_takeWhile_imp member, shape.2⟩

theorem parse?_eq_some_iff :
    parse? text = some a ↔ ∃ letters digits, Spelled text letters digits ∧
      columnNumber? letters = some (a.column + 1) ∧ rowNumber? digits = some (a.row + 1) := by
  constructor
  · intro read
    have spelled := spelled_of_parse? read
    refine ⟨_, _, spelled, ?_⟩
    rw [parse?_of_spelled spelled] at read
    split at read
    · rename_i column row ofLetters ofDigits
      cases read
      exact ⟨ofLetters, ofDigits⟩
    · cases read
  · rintro ⟨letters, digits, spelled, column, row⟩
    rw [parse?_of_spelled spelled, column, row]

theorem parse_eq_ok_iff : parse text = .ok a ↔ parse? text = some a := by
  rw [parse]
  cases parse? text with
  | none => simp
  | some b => simp

/-! ## Numbers of 64 bits -/

def mulWord? (m n : UInt64) : Option UInt64 :=
  if m.toNat * n.toNat < UInt64.size then some (m * n) else none

def addWord? (m n : UInt64) : Option UInt64 :=
  if m.toNat + n.toNat < UInt64.size then some (m + n) else none

def pushLetter? (n : UInt64) (c : Char) : Option UInt64 :=
  (mulWord? n 26).bind fun m => addWord? m (UInt64.ofNat (letterValue c))

def columnWord? (letters : List Char) : Option UInt64 :=
  letters.foldlM pushLetter? 0

theorem toNat_pushLetter? (n : UInt64) {c : Char} (alpha : c.isAlpha) :
    (pushLetter? n c).map UInt64.toNat =
      if n.toNat * 26 + letterValue c < limit then some (n.toNat * 26 + letterValue c)
      else none := by
  obtain ⟨d, small, -, worth, -⟩ := exists_capital alpha
  have letter : (UInt64.ofNat (letterValue c)).toNat = letterValue c := by
    apply UInt64.toNat_ofNat_of_lt'
    rw [worth, UInt64.size]
    omega
  have base : (26 : UInt64).toNat = 26 := rfl
  rw [pushLetter?, mulWord?, limit, base]
  by_cases product : n.toNat * 26 < UInt64.size
  · have exact_product : (n * 26).toNat = n.toNat * 26 := by
      rw [UInt64.toNat_mul]
      exact Nat.mod_eq_of_lt product
    rw [if_pos product, Option.bind_some, addWord?, letter, exact_product]
    by_cases sum : n.toNat * 26 + letterValue c < UInt64.size
    · rw [if_pos sum, if_pos sum, Option.map_some, UInt64.toNat_add, exact_product, letter]
      exact congrArg some (Nat.mod_eq_of_lt sum)
    · rw [if_neg sum, if_neg sum, Option.map_none]
  · have sum : ¬ n.toNat * 26 + letterValue c < UInt64.size := by omega
    rw [if_neg product, if_neg sum, Option.bind_none, Option.map_none]

theorem toNat_columnWord? (all : ∀ c ∈ letters, c.isAlpha) :
    (columnWord? letters).map UInt64.toNat = columnNumber? letters := by
  have run : ∀ n : UInt64, (letters.foldlM pushLetter? n).map UInt64.toNat =
      (letters.map letterValue).foldlM
        (fun n d => if n * 26 + d < limit then some (n * 26 + d) else none) n.toNat := by
    induction letters with
    | nil => exact fun _ => rfl
    | cons c letters ih =>
      intro n
      obtain ⟨first, others⟩ := List.forall_mem_cons.1 all
      have step := toNat_pushLetter? n first
      rw [List.map_cons, List.foldlM_cons, List.foldlM_cons, ← step]
      cases pushLetter? n c with
      | none => rfl
      | some m => exact ih others m
  exact run 0

/-! ## Which names are accepted -/

/-- The numbers of a name, the row counted from one, are numbers of 64 bits. -/
structure Representable (letters digits : List Char) : Prop where
  column : columnValue letters ≤ 2 ^ 64 - 1
  firstRow : 1 ≤ Nat.ofDigitChars 10 digits 0
  row : Nat.ofDigitChars 10 digits 0 ≤ 2 ^ 64 - 1

theorem columnValue_pos (nonempty : letters ≠ []) : 1 ≤ columnValue letters := by
  rw [columnValue, ← Numeral.value_eq_ofDigits, ← List.dropLast_concat_getLast nonempty,
    List.map_append, List.map_singleton, Numeral.value_append_singleton, rank]
  omega

theorem lt_limit_iff {n : Nat} : n < limit ↔ n ≤ 2 ^ 64 - 1 := by
  rw [limit, UInt64.size]
  omega

theorem columnNumber?_eq (all : ∀ c ∈ letters, c.isAlpha) :
    columnNumber? letters =
      if columnValue letters ≤ 2 ^ 64 - 1 then some (columnValue letters) else none := by
  apply Option.ext
  intro n
  rw [columnNumber?_eq_some_iff all, Option.ite_none_right_eq_some, Option.some_inj, lt_limit_iff]
  constructor
  · rintro ⟨rfl, below⟩
    exact ⟨below, rfl⟩
  · rintro ⟨below, rfl⟩
    exact ⟨rfl, below⟩

theorem parse_eq_ok_iff_representable :
    parse text = .ok a ↔ ∃ letters digits, Spelled text letters digits ∧
      Representable letters digits ∧
      a = ⟨Nat.ofDigitChars 10 digits 0 - 1, columnValue letters - 1⟩ := by
  rw [parse_eq_ok_iff, parse?_eq_some_iff]
  constructor
  · rintro ⟨letters, digits, spelled, ofLetters, ofDigits⟩
    obtain ⟨column, columnBelow⟩ := (columnNumber?_eq_some_iff spelled.alpha).1 ofLetters
    obtain ⟨row, rowBelow⟩ := rowNumber?_eq_some_iff.1 ofDigits
    rw [← column, lt_limit_iff] at columnBelow
    rw [← row, lt_limit_iff] at rowBelow
    exact ⟨letters, digits, spelled, ⟨columnBelow, by omega, rowBelow⟩, by rw [row, column]; rfl⟩
  · rintro ⟨letters, digits, spelled, fits, rfl⟩
    have column := Nat.sub_add_cancel (columnValue_pos spelled.someLetter)
    have row := Nat.sub_add_cancel fits.firstRow
    refine ⟨letters, digits, spelled, (columnNumber?_eq_some_iff spelled.alpha).2 ?_,
      rowNumber?_eq_some_iff.2 ?_⟩
    · rw [column]
      exact ⟨rfl, lt_limit_iff.2 fits.column⟩
    · rw [row]
      exact ⟨rfl, lt_limit_iff.2 fits.row⟩

theorem parse_eq_error_iff {fault : Fault} :
    parse text = .error fault ↔ fault = .invalidAddress text ∧ ¬ ∃ a, parse text = .ok a := by
  rw [parse]
  cases parse? text with
  | none => simp [eq_comm]
  | some b => simp

/-- A text is read as an address exactly if it is letters and then digits and both numbers are of 64
bits, the row not zero; both are then counted from zero.  Every other text is refused as a whole.
Computed letter by letter in words, with every product and every sum checked, the column is the
same, and it is refused only if the number itself is too large. -/
theorem names_accepted (text : String) :
    (∀ a, parse text = .ok a ↔ ∃ letters digits, Spelled text letters digits ∧
      Representable letters digits ∧
      a = ⟨Nat.ofDigitChars 10 digits 0 - 1, columnValue letters - 1⟩) ∧
    (∀ fault, parse text = .error fault ↔ fault = .invalidAddress text ∧
      ¬ ∃ letters digits, Spelled text letters digits ∧ Representable letters digits) ∧
    ∀ letters digits, Spelled text letters digits →
      columnNumber? letters = (columnWord? letters).map UInt64.toNat ∧
      (columnWord? letters).map UInt64.toNat =
        if columnValue letters ≤ 2 ^ 64 - 1 then some (columnValue letters) else none := by
  refine ⟨fun _ => parse_eq_ok_iff_representable, fun fault => ?_, fun letters digits spelled => ?_⟩
  · have accepted : (∃ a, parse text = .ok a) ↔
        ∃ letters digits, Spelled text letters digits ∧ Representable letters digits := by
      constructor
      · rintro ⟨a, read⟩
        obtain ⟨letters, digits, spelled, fits, -⟩ := parse_eq_ok_iff_representable.1 read
        exact ⟨letters, digits, spelled, fits⟩
      · rintro ⟨letters, digits, spelled, fits⟩
        exact ⟨_, parse_eq_ok_iff_representable.2 ⟨letters, digits, spelled, fits, rfl⟩⟩
    rw [parse_eq_error_iff, accepted]
  · rw [toNat_columnWord? spelled.alpha]
    exact ⟨rfl, columnNumber?_eq spelled.alpha⟩

/-- The last cell of all, with a zero in front of its row, and a column just past the last. -/
theorem names_accepted_at_the_end :
    parse "gkgwbylwrxtlpO018446744073709551615" = .ok ⟨2 ^ 64 - 2, 2 ^ 64 - 2⟩ ∧
      parse "GKGWBYLWRXTLPP1" = .error (.invalidAddress "GKGWBYLWRXTLPP1") ∧
      (columnWord? "GKGWBYLWRXTLPP".toList).map UInt64.toNat = none := by
  have last : Spelled "gkgwbylwrxtlpO018446744073709551615" "gkgwbylwrxtlpO".toList
      "018446744073709551615".toList :=
    ⟨by decide +kernel, by decide, by decide, List.all_eq_true.1 (by decide +kernel),
      List.all_eq_true.1 (by decide +kernel)⟩
  have past : Spelled "GKGWBYLWRXTLPP1" "GKGWBYLWRXTLPP".toList "1".toList :=
    ⟨by decide +kernel, by decide, by decide, List.all_eq_true.1 (by decide +kernel),
      List.all_eq_true.1 (by decide +kernel)⟩
  have large : ¬ columnValue "GKGWBYLWRXTLPP".toList ≤ 2 ^ 64 - 1 := by
    decide +kernel
  refine ⟨((names_accepted _).1 _).2 ⟨_, _, last, ⟨?_, ?_, ?_⟩, ?_⟩,
    ((names_accepted _).2.1 _).2 ⟨rfl, ?_⟩, ?_⟩
  · decide +kernel
  · decide +kernel
  · decide +kernel
  · decide +kernel
  · rintro ⟨letters, digits, spelled, fits⟩
    rw [← spelled.parts.1, past.parts.1] at fits
    exact large fits.column
  · rw [((names_accepted _).2.2 _ _ past).2, if_neg large]

/-! ## Writing a name -/

def capitals (text : String) : List Char :=
  (text.toList.takeWhile Char.isAlpha).map Char.toUpper

/-- What follows the letters of a text, without the zeros in front. -/
def figures (text : String) : List Char :=
  (text.toList.dropWhile Char.isAlpha).dropWhile (· = '0')

theorem toNat_sub_one {n : UInt64} (positive : n ≠ 0) : (n - 1).toNat + 1 = n.toNat := by
  have one : (1 : UInt64).toNat = 1 := rfl
  have nonzero : n.toNat ≠ 0 := fun zero => positive (UInt64.toNat_inj.1 zero)
  have first : 1 ≤ n.toNat := Nat.pos_of_ne_zero nonzero
  rw [UInt64.toNat_sub_of_le n 1 (UInt64.le_iff_toNat_le.2 first), one, Nat.sub_add_cancel first]

def columnLettersWord (n : UInt64) : List Char :=
  if n = 0 then [] else columnLettersWord ((n - 1) / 26) ++ [columnLetter ((n - 1) % 26).toNat]
termination_by n.toNat
decreasing_by
  rename_i positive
  rw [UInt64.toNat_div, ← toNat_sub_one positive]
  exact Nat.lt_succ_of_le (Nat.div_le_self _ _)

/-- The name of an address, computed in words. -/
def wordName (a : Address) : String :=
  String.ofList (columnLettersWord (UInt64.ofNat a.column + 1)) ++
    toString (UInt64.ofNat a.row + 1)

theorem columnLettersWord_eq (n : UInt64) : columnLettersWord n = columnLetters n.toNat := by
  induction n using columnLettersWord.induct with
  | case1 =>
    rw [columnLettersWord, if_pos rfl, UInt64.toNat_zero, columnLetters]
  | case2 n positive ih =>
    have base : (26 : UInt64).toNat = 26 := rfl
    rw [columnLettersWord, if_neg positive, ih, ← toNat_sub_one positive, columnLetters,
      UInt64.toNat_div, UInt64.toNat_mod, base]

theorem toNat_ofNat_add_one {n : Nat} (small : n ≤ 2 ^ 64 - 2) :
    (UInt64.ofNat n + 1).toNat = n + 1 := by
  have one : (1 : UInt64).toNat = 1 := rfl
  rw [UInt64.toNat_add, UInt64.toNat_ofNat_of_lt' (by rw [UInt64.size]; omega), one]
  exact Nat.mod_eq_of_lt (by omega)

theorem wordName_eq (row : a.row ≤ 2 ^ 64 - 2) (column : a.column ≤ 2 ^ 64 - 2) :
    a.wordName = a.name := by
  have rowText : toString (UInt64.ofNat a.row + 1) = toString (a.row + 1) :=
    congrArg Nat.repr (toNat_ofNat_add_one row)
  rw [wordName, columnLettersWord_eq, toNat_ofNat_add_one column, rowText, name, columnName]

theorem toList_name (a : Address) :
    a.name.toList = columnLetters (a.column + 1) ++ Nat.toDigits 10 (a.row + 1) := by
  rw [name, columnName, String.toList_append, String.toList_ofList]
  congr 1
  exact Nat.toList_repr

theorem spelled_name (a : Address) :
    Spelled a.name (columnLetters (a.column + 1)) (Nat.toDigits 10 (a.row + 1)) where
  split := toList_name a
  someLetter := by
    rw [columnLetters]
    exact List.concat_ne_nil _ _
  someDigit := Nat.toDigits_ne_nil
  alpha := isAlpha_columnLetters _
  digit := fun _ member => Nat.isDigit_of_mem_toDigits (by decide) (by decide) member

/-- The name of an address of 64 bits is read as the address. -/
theorem parse_name (row : a.row ≤ 2 ^ 64 - 2) (column : a.column ≤ 2 ^ 64 - 2) :
    parse a.name = .ok a := by
  have spelled := spelled_name a
  refine parse_eq_ok_iff.2 (parse?_eq_some_iff.2 ⟨_, _, spelled, ?_, ?_⟩)
  · refine (columnNumber?_eq_some_iff spelled.alpha).2 ⟨?_, lt_limit_iff.2 (by omega)⟩
    rw [← value_letters spelled.alpha, value_columnLetters]
  · exact rowNumber?_eq_some_iff.2 ⟨Nat.ofDigitChars_ten_toDigits, lt_limit_iff.2 (by omega)⟩

/-- What is read can be written in 64 bits, and is written as it was read, in capitals and without
zeros in front. -/
theorem written_of_parse (read : parse text = .ok a) :
    a.row ≤ 2 ^ 64 - 2 ∧ a.column ≤ 2 ^ 64 - 2 ∧
      columnLetters (a.column + 1) = capitals text ∧
      Nat.toDigits 10 (a.row + 1) = figures text := by
  obtain ⟨letters, digits, spelled, ofLetters, ofDigits⟩ :=
    parse?_eq_some_iff.1 (parse_eq_ok_iff.1 read)
  obtain ⟨column, columnBelow⟩ := (columnNumber?_eq_some_iff spelled.alpha).1 ofLetters
  obtain ⟨row, rowBelow⟩ := rowNumber?_eq_some_iff.1 ofDigits
  obtain ⟨taken, dropped⟩ := spelled.parts
  rw [lt_limit_iff] at columnBelow rowBelow
  refine ⟨by omega, by omega, ?_, ?_⟩
  · rw [← column, ← value_letters spelled.alpha, columnLetters_value spelled.alpha, capitals, taken]
  · have written := Numeral.numeral_value spelled.digit
    rwa [Numeral.value_map_digitValue, row, Numeral.numeral, if_neg (Nat.succ_ne_zero _),
      ← dropped] at written

/-- Addresses and names, in 64 bits.  The name of an address, computed in words, is exact and is
read as the address.  What is read can be written, and is written with its letters in capitals and
without zeros in front of its digits; so two texts are names of one cell exactly if they differ in
no more than case and zeros in front. -/
theorem names_printed :
    (∀ a : Address, a.row ≤ 2 ^ 64 - 2 → a.column ≤ 2 ^ 64 - 2 →
      a.wordName = a.name ∧ parse a.name = .ok a) ∧
    (∀ text a, parse text = .ok a → a.row ≤ 2 ^ 64 - 2 ∧ a.column ≤ 2 ^ 64 - 2 ∧
      a.name = String.ofList (capitals text ++ figures text)) ∧
    ∀ text text' a a', parse text = .ok a → parse text' = .ok a' →
      (a = a' ↔ capitals text = capitals text' ∧ figures text = figures text') := by
  refine ⟨fun a row column => ⟨wordName_eq row column, parse_name row column⟩,
    fun text a read => ?_, fun text text' a a' read read' => ?_⟩
  · obtain ⟨row, column, letters, digits⟩ := written_of_parse read
    refine ⟨row, column, ?_⟩
    rw [← letters, ← digits, ← toList_name, String.ofList_toList]
  · obtain ⟨-, -, letters, digits⟩ := written_of_parse read
    obtain ⟨-, -, letters', digits'⟩ := written_of_parse read'
    rw [← letters, ← digits, ← letters', ← digits']
    constructor
    · rintro rfl
      exact ⟨rfl, rfl⟩
    · rintro ⟨column, row⟩
      have sameColumn := congrArg (fun cs => Numeral.value 26 (cs.map letterValue)) column
      have sameRow := congrArg (Nat.ofDigitChars 10 · 0) row
      simp only [value_columnLetters, Nat.ofDigitChars_ten_toDigits, Nat.add_right_cancel_iff]
        at sameColumn sameRow
      rw [Address.mk.injEq]
      exact ⟨sameRow, sameColumn⟩

/-- The last cell of all is written and read, and a small one is read from two spellings. -/
theorem names_printed_at_the_end :
    parse (name ⟨2 ^ 64 - 2, 2 ^ 64 - 2⟩) = .ok ⟨2 ^ 64 - 2, 2 ^ 64 - 2⟩ ∧
      name ⟨6, 701⟩ = String.ofList (capitals "zZ007" ++ figures "zZ007") ∧
      capitals "zZ007" = capitals "Zz07" ∧ figures "zZ007" = figures "Zz07" := by
  have first : parse "zZ007" = .ok ⟨6, 701⟩ := by decide +kernel
  have second : parse "Zz07" = .ok ⟨6, 701⟩ := by decide +kernel
  exact ⟨(names_printed.1 ⟨2 ^ 64 - 2, 2 ^ 64 - 2⟩ (Nat.le_refl _) (Nat.le_refl _)).2,
    (names_printed.2.1 _ _ first).2.2, (names_printed.2.2 _ _ _ _ first second).1 rfl⟩

end Address

end FormulaGrid
