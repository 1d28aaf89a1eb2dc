import FormulaGrid.Expr.Basic
import FormulaGrid.Token.Scan
import Mathlib.Data.List.TakeWhile

namespace FormulaGrid

/-! ## Characters -/

namespace Symbol

def char : Symbol → Char
  | leftParen => '('
  | rightParen => ')'
  | binary op => op.char

def text (s : Symbol) : String :=
  String.singleton s.char

theorem toList_text (s : Symbol) : s.text.toList = [s.char] :=
  String.toList_singleton s.char

theorem ofChar?_eq_some_iff {c : Char} {s : Symbol} : ofChar? c = some s ↔ c = s.char := by
  constructor
  · intro found
    simp only [ofChar?] at found
    split at found
    all_goals cases found
    all_goals rfl
  · rintro rfl
    cases s with
    | leftParen => rfl
    | rightParen => rfl
    | binary op => cases op <;> rfl

theorem ofText?_eq_some_iff {text : String} {s : Symbol} :
    ofText? text = some s ↔ text.toList = [s.char] := by
  simp only [ofText?]
  split
  · rename_i c spelled
    rw [spelled, ofChar?_eq_some_iff]
    simp
  · rename_i other
    constructor
    · intro found
      cases found
    · exact fun spelled => absurd spelled (other s.char)

theorem isAlphanum_char (s : Symbol) : s.char.isAlphanum = false := by
  cases s with
  | leftParen => rfl
  | rightParen => rfl
  | binary op => cases op <;> rfl

theorem isDigit_char (s : Symbol) : s.char.isDigit = false :=
  (Bool.or_eq_false_iff.1 (isAlphanum_char s)).2

theorem isAlpha_char (s : Symbol) : s.char.isAlpha = false :=
  (Bool.or_eq_false_iff.1 (isAlphanum_char s)).1

end Symbol

theorem Operator.toList_text (op : Operator) : op.text.toList = [op.char] :=
  String.toList_singleton op.char

theorem Operator.ofText_eq_ok_iff {text : String} {op : Operator} :
    ofText text = .ok op ↔ text = op.text := by
  constructor
  · intro read
    simp only [ofText] at read
    split at read
    · rename_i found
      cases read
      exact String.toList_inj.1 ((Symbol.ofText?_eq_some_iff.1 found).trans op.toList_text.symm)
    · cases read
  · rintro rfl
    have found : Symbol.ofText? op.text = some (.binary op) :=
      Symbol.ofText?_eq_some_iff.2 op.toList_text
    rw [ofText, found]

theorem Operator.eq_of_ofText_eq_error {text : String} {fault : Fault}
    (failed : ofText text = .error fault) : fault = .unsupportedOperator text := by
  simp only [ofText] at failed
  split at failed
  · cases failed
  · cases failed
    rfl

theorem Operator.utf8ByteSize_text (op : Operator) : op.text.utf8ByteSize = 1 := by
  cases op <;> rfl

theorem isAlpha_of_isDigit {c : Char} (digit : c.isDigit) : c.isAlpha = false := by
  have letter : c.isAlpha =
      (decide (c.val ≥ 'A'.val ∧ c.val ≤ 'Z'.val) ||
        (decide (c.val ≥ 'a'.val) && decide (c.val ≤ 'z'.val))) :=
    rfl
  rw [letter]
  simp only [Char.isDigit] at digit
  grind

namespace Token

/-! ## Texts of tokens -/

structure Digits (cs : List Char) : Prop where
  some : cs ≠ []
  all : ∀ c ∈ cs, c.isDigit

inductive IsFraction : List Char → Prop
  | none : IsFraction []
  | point {digits : List Char} (behind : Digits digits) : IsFraction ('.' :: digits)

inductive IsUnsigned : List Char → Prop
  | decimal {whole fraction : List Char} (digits : Digits whole) (behind : IsFraction fraction) :
    IsUnsigned (whole ++ fraction)

inductive IsNumber : List Char → Prop
  | unsigned {cs : List Char} (decimal : IsUnsigned cs) : IsNumber cs
  | signed {sign : Char} {cs : List Char} (isSign : isSign sign) (decimal : IsUnsigned cs) :
    IsNumber (sign :: cs)

inductive IsIdentifier : List Char → Prop
  | letters {letters digits : List Char} (some : letters ≠ []) (alpha : ∀ c ∈ letters, c.isAlpha)
    (behind : ∀ c ∈ digits, c.isDigit) : IsIdentifier (letters ++ digits)

theorem IsUnsigned.exists_cons {cs : List Char} (decimal : IsUnsigned cs) :
    ∃ d ds fraction, cs = d :: (ds ++ fraction) ∧ d.isDigit ∧ (∀ c ∈ ds, c.isDigit) ∧
      IsFraction fraction := by
  cases decimal with
  | @decimal whole fraction digits behind =>
    cases whole with
    | nil => exact absurd rfl digits.some
    | cons d ds =>
      obtain ⟨first, others⟩ := List.forall_mem_cons.1 digits.all
      exact ⟨d, ds, fraction, rfl, first, others, behind⟩

theorem IsIdentifier.exists_cons {cs : List Char} (name : IsIdentifier cs) :
    ∃ c letters digits, cs = c :: (letters ++ digits) ∧ c.isAlpha ∧ (∀ c ∈ letters, c.isAlpha) ∧
      ∀ c ∈ digits, c.isDigit := by
  cases name with
  | @letters letters digits some alpha behind =>
    cases letters with
    | nil => exact absurd rfl some
    | cons c letters =>
      obtain ⟨first, others⟩ := List.forall_mem_cons.1 alpha
      exact ⟨c, letters, digits, rfl, first, others, behind⟩

/-! ## Kinds -/

theorem symbol?_eq_some_iff {t : Token} {s : Symbol} :
    t.symbol? = some s ↔ t.text.toList = [s.char] :=
  Symbol.ofText?_eq_some_iff

theorem symbol?_symbol (s : Symbol) (offset : Nat) : symbol? ⟨s.text, offset⟩ = some s :=
  symbol?_eq_some_iff.2 s.toList_text

theorem text_of_symbol? {t : Token} {s : Symbol} (symbol : t.symbol? = some s) : t.text = s.text :=
  String.toList_inj.1 ((symbol?_eq_some_iff.1 symbol).trans s.toList_text.symm)

theorem symbol?_of_text {t : Token} {s : Symbol} (spelled : t.text = s.text) : t.symbol? = some s :=
  symbol?_eq_some_iff.2 (spelled ▸ s.toList_text)

theorem symbol?_of_notMem {t : Token} (strange : ∀ s : Symbol, t.text.toList ≠ [s.char]) :
    t.symbol? = none := by
  cases found : t.symbol? with
  | none => rfl
  | some s => exact absurd (symbol?_eq_some_iff.1 found) (strange s)

theorem IsNumber.symbol?_eq {text : String} (number : IsNumber text.toList) (offset : Nat) :
    symbol? ⟨text, offset⟩ = none := by
  apply symbol?_of_notMem
  intro s spelled
  rw [spelled] at number
  generalize same : [s.char] = cs at number
  cases number with
  | unsigned decimal =>
    obtain ⟨d, ds, fraction, rfl, digit, -, -⟩ := decimal.exists_cons
    rw [← (List.cons.inj same).1, s.isDigit_char] at digit
    cases digit
  | signed _ decimal =>
    obtain ⟨d, ds, fraction, rfl, -, -, -⟩ := decimal.exists_cons
    cases (List.cons.inj same).2

theorem IsIdentifier.symbol?_eq {text : String} (name : IsIdentifier text.toList) (offset : Nat) :
    symbol? ⟨text, offset⟩ = none := by
  apply symbol?_of_notMem
  intro s spelled
  obtain ⟨c, letters, digits, spelled', alpha, -, -⟩ := name.exists_cons
  rw [spelled] at spelled'
  rw [← (List.cons.inj spelled').1, s.isAlpha_char] at alpha
  cases alpha

theorem IsNumber.kind_eq {text : String} (number : IsNumber text.toList) (offset : Nat) :
    kind ⟨text, offset⟩ = .number := by
  simp only [kind]
  rw [number.symbol?_eq]
  dsimp only
  generalize text.toList = cs at number
  cases number with
  | unsigned decimal =>
    obtain ⟨d, ds, fraction, rfl, digit, -, -⟩ := decimal.exists_cons
    simp [isAlpha_of_isDigit digit]
  | @signed sign cs isSign decimal =>
    simp only [Token.isSign, Bool.or_eq_true, beq_iff_eq] at isSign
    rcases isSign with rfl | rfl <;> rfl

theorem IsIdentifier.kind_eq {text : String} (name : IsIdentifier text.toList) (offset : Nat) :
    kind ⟨text, offset⟩ = .identifier := by
  simp only [kind]
  rw [name.symbol?_eq]
  obtain ⟨c, letters, digits, spelled, alpha, -, -⟩ := name.exists_cons
  simp [spelled, alpha]

theorem kind_symbol (s : Symbol) (offset : Nat) : kind ⟨s.text, offset⟩ = match s with
    | .leftParen => .leftParen
    | .rightParen => .rightParen
    | .binary _ => .operator := by
  simp only [kind]
  rw [symbol?_symbol]
  cases s <;> rfl

theorem kind_of_spelled {t : Token} {s : Symbol} (spelled : t.text = s.text) :
    t.kind = kind ⟨s.text, t.offset⟩ := by
  rw [← spelled]

theorem kind_of_operator {t : Token} {op : Operator} (spelled : t.text = op.text) :
    t.kind = .operator := by
  have kind := @kind_of_spelled t (.binary op) spelled
  rwa [kind_symbol] at kind

/-- A token that is no symbol is an operand. -/
theorem kind_of_operand {t : Token} (plain : t.symbol? = none) :
    t.kind = .number ∨ t.kind = .identifier := by
  simp only [kind, plain]
  split
  · split
    · exact .inr rfl
    · exact .inl rfl
  · exact .inl rfl

/-! ## Runs of characters -/

theorem takeWhile_of_head {p : Char → Bool} {rest : List Char}
    (ends : ∀ c ∈ rest.head?, p c = false) :
    rest.takeWhile p = [] ∧ rest.dropWhile p = rest := by
  cases rest with
  | nil => exact ⟨rfl, rfl⟩
  | cons c rest =>
    have other := ends c rfl
    simp [other]

/-- A run of characters is taken as a whole, if what follows does not prolong it. -/
theorem takeWhile_append_of_head {p : Char → Bool} {run rest : List Char} (all : ∀ c ∈ run, p c)
    (ends : ∀ c ∈ rest.head?, p c = false) :
    (run ++ rest).takeWhile p = run ∧ (run ++ rest).dropWhile p = rest := by
  obtain ⟨taken, dropped⟩ := takeWhile_of_head ends
  constructor
  · rw [List.takeWhile_append_of_pos all, taken, List.append_nil]
  · rw [List.dropWhile_append_of_pos all, dropped]

/-! ## Where a token ends -/

/-- What follows a token and cannot be a part of it. -/
def Ends (rest : List Char) : Prop :=
  ∀ c ∈ rest.head?, c.isAlphanum = false ∧ c ≠ '.'

theorem ends_nil : Ends [] := by
  intro c member
  cases member

theorem ends_symbol (s : Symbol) (rest : List Char) : Ends (s.char :: rest) := by
  intro c member
  cases member
  refine ⟨s.isAlphanum_char, ?_⟩
  cases s with
  | leftParen => decide
  | rightParen => decide
  | binary op => cases op <;> decide

theorem Ends.isDigit {rest : List Char} (ends : Ends rest) :
    ∀ c ∈ rest.head?, c.isDigit = false :=
  fun c member => (Bool.or_eq_false_iff.1 (ends c member).1).2

theorem Ends.isAlpha {rest : List Char} (ends : Ends rest) :
    ∀ c ∈ rest.head?, c.isAlpha = false :=
  fun c member => (Bool.or_eq_false_iff.1 (ends c member).1).1

structure DecimalCut (whole fraction rest : List Char) : Prop where
  digits : ∀ c ∈ whole, c.isDigit
  behind : IsFraction fraction
  noDigit : ∀ c ∈ rest.head?, c.isDigit = false
  noFraction : fraction = [] → ∀ d ds, rest = '.' :: d :: ds → d.isDigit = false

structure NameCut (letters digits rest : List Char) : Prop where
  alpha : ∀ c ∈ letters, c.isAlpha
  behind : ∀ c ∈ digits, c.isDigit
  noDigit : ∀ c ∈ rest.head?, c.isDigit = false
  noLetter : digits = [] → ∀ c ∈ rest.head?, c.isAlpha = false

theorem decimalExtent_append {whole fraction rest : List Char}
    (cut : DecimalCut whole fraction rest) :
    decimalExtent (whole ++ fraction ++ rest) = (whole ++ fraction).length := by
  obtain ⟨digits, behind, noDigit, noFraction⟩ := cut
  simp only [decimalExtent]
  cases behind with
  | none =>
    obtain ⟨taken, dropped⟩ := takeWhile_append_of_head digits noDigit
    rw [List.append_nil]
    simp only [taken, dropped]
    split
    · rw [noFraction rfl _ _ rfl, if_neg Bool.false_ne_true]
    · rfl
  | @point behind decimals =>
    obtain ⟨some, all⟩ := decimals
    cases behind with
    | nil => exact absurd rfl some
    | cons d ds =>
      obtain ⟨first, others⟩ := List.forall_mem_cons.1 all
      have point : ∀ c ∈ ('.' :: (d :: ds ++ rest)).head?, c.isDigit = false := by
        intro c member
        cases member
        rfl
      obtain ⟨taken, dropped⟩ := takeWhile_append_of_head digits point
      obtain ⟨taken', -⟩ := takeWhile_append_of_head others noDigit
      rw [List.append_assoc, List.cons_append, taken, dropped]
      simp only [List.cons_append, first, if_true, taken', List.length_append, List.length_cons]
      omega

theorem nameExtent_append {letters digits rest : List Char} (cut : NameCut letters digits rest) :
    nameExtent (letters ++ digits ++ rest) = (letters ++ digits).length := by
  have noLetter : ∀ c ∈ (digits ++ rest).head?, c.isAlpha = false := by
    intro c member
    cases digits with
    | nil => exact cut.noLetter rfl c member
    | cons d digits =>
      cases member
      exact isAlpha_of_isDigit (cut.behind c List.mem_cons_self)
  obtain ⟨taken, dropped⟩ := takeWhile_append_of_head cut.alpha noLetter
  obtain ⟨taken', -⟩ := takeWhile_append_of_head cut.behind cut.noDigit
  rw [nameExtent, List.append_assoc, taken, dropped, taken', List.length_append]

/-- The characters of a token, where `rest` follows them and an operand is expected or not. -/
inductive Cut (expected : Bool) (rest : List Char) : List Char → Prop
  | unsigned {d : Char} {ds fraction : List Char} (digit : d.isDigit)
    (cut : DecimalCut ds fraction rest) : Cut expected rest (d :: (ds ++ fraction))
  | signed {sign d : Char} {ds fraction : List Char} (operand : expected = true)
    (isSign : isSign sign) (digit : d.isDigit) (cut : DecimalCut (d :: ds) fraction rest) :
    Cut expected rest (sign :: (d :: ds ++ fraction))
  | name {c : Char} {letters digits : List Char} (alpha : c.isAlpha)
    (cut : NameCut letters digits rest) : Cut expected rest (c :: (letters ++ digits))
  | symbol (s : Symbol)
    (alone : expected = true → isSign s.char → ∀ d ∈ rest.head?, d.isDigit = false) :
    Cut expected rest [s.char]

theorem isSign_of_isAlphanum {c : Char} (alphanum : c.isAlphanum) : isSign c = false := by
  cases sign : isSign c with
  | false => rfl
  | true =>
    simp only [isSign, Bool.or_eq_true, beq_iff_eq] at sign
    rcases sign with rfl | rfl <;> cases alphanum

theorem digitNext_eq_false {cs : List Char} (noDigit : ∀ d ∈ cs.head?, d.isDigit = false) :
    digitNext cs = false := by
  cases cs with
  | nil => rfl
  | cons d cs => exact noDigit d rfl

theorem Cut.extent? {expected : Bool} {rest : List Char} {c : Char} {cs : List Char}
    (cut : Cut expected rest (c :: cs)) :
    Token.extent? expected c (cs ++ rest) = some cs.length := by
  generalize same : c :: cs = text at cut
  cases cut with
  | unsigned digit cut =>
    cases same
    rw [Token.extent?, digit, Bool.true_or, if_pos rfl, decimalExtent_append cut]
  | @signed sign d ds fraction operand isSign digit cut =>
    cases same
    have next : digitNext (d :: ds ++ fraction ++ rest) = true := digit
    rw [Token.extent?, operand, isSign, next, Bool.and_self, Bool.and_self, Bool.or_true,
      if_pos rfl, decimalExtent_append cut]
  | name alpha cut =>
    cases same
    have noDigit : c.isDigit = false := by
      cases digit : c.isDigit with
      | false => rfl
      | true => rw [isAlpha_of_isDigit digit] at alpha; cases alpha
    have noSign : isSign c = false :=
      isSign_of_isAlphanum (by rw [Char.isAlphanum, alpha, Bool.true_or])
    rw [Token.extent?, noDigit, noSign, Bool.and_false, Bool.false_and, Bool.or_false,
      if_neg Bool.false_ne_true, if_pos alpha, nameExtent_append cut]
  | symbol s alone =>
    cases same
    have number : (expected && isSign s.char && digitNext rest) = false := by
      cases sign : expected && isSign s.char with
      | false => rfl
      | true =>
        obtain ⟨operand, sign⟩ := Bool.and_eq_true_iff.1 sign
        exact digitNext_eq_false (alone operand sign)
    have found : (Symbol.ofChar? s.char).isSome = true := by
      rw [Symbol.ofChar?_eq_some_iff.2 rfl]
      rfl
    rw [Token.extent?, List.nil_append, s.isDigit_char, s.isAlpha_char, number, Bool.or_false,
      if_neg Bool.false_ne_true, if_neg Bool.false_ne_true, if_pos found]
    rfl

/-! ## Scanning one lexeme -/

theorem scanFrom_text {expected : Bool} {offset : Nat} {done : List Token} {text : String}
    {rest : List Char} (cut : Cut expected rest text.toList) :
    scanFrom expected offset done (text.toList ++ rest) =
      scanFrom (!(kind ⟨text, offset⟩).endsOperand) (offset + text.utf8ByteSize)
        (⟨text, offset⟩ :: done) rest := by
  cases spelled : text.toList with
  | nil =>
    rw [spelled] at cut
    cases cut
  | cons c cs =>
    have whole : String.ofList (c :: cs) = text := by
      rw [← spelled, String.ofList_toList]
    rw [spelled] at cut
    rw [List.cons_append, scanFrom, cut.extent?]
    simp only [List.take_left, List.drop_left, whole]

theorem decimalCut_of_ends {whole fraction rest : List Char} (digits : ∀ c ∈ whole, c.isDigit)
    (behind : IsFraction fraction) (ends : Ends rest) : DecimalCut whole fraction rest where
  digits := digits
  behind := behind
  noDigit := ends.isDigit
  noFraction := by
    rintro - d ds rfl
    exact absurd rfl (ends '.' rfl).2

theorem IsNumber.cut {cs rest : List Char} (number : IsNumber cs) (ends : Ends rest) :
    Cut true rest cs := by
  cases number with
  | unsigned decimal =>
    obtain ⟨d, ds, fraction, rfl, digit, others, behind⟩ := decimal.exists_cons
    exact .unsigned digit (decimalCut_of_ends others behind ends)
  | signed isSign decimal =>
    obtain ⟨d, ds, fraction, rfl, digit, others, behind⟩ := decimal.exists_cons
    have digits : ∀ c ∈ d :: ds, c.isDigit := List.forall_mem_cons.2 ⟨digit, others⟩
    exact .signed rfl isSign digit (decimalCut_of_ends digits behind ends)

theorem IsIdentifier.cut {cs rest : List Char} (name : IsIdentifier cs) (ends : Ends rest)
    (expected : Bool) : Cut expected rest cs := by
  obtain ⟨c, letters, digits, rfl, alpha, others, behind⟩ := name.exists_cons
  exact .name alpha ⟨others, behind, ends.isDigit, fun _ => ends.isAlpha⟩

theorem scanFrom_number {offset : Nat} {done : List Token} {text : String} {rest : List Char}
    (number : IsNumber text.toList) (ends : Ends rest) :
    scanFrom true offset done (text.toList ++ rest) =
      scanFrom false (offset + text.utf8ByteSize) (⟨text, offset⟩ :: done) rest := by
  rw [scanFrom_text (number.cut ends), number.kind_eq]
  rfl

theorem scanFrom_name {expected : Bool} {offset : Nat} {done : List Token} {text : String}
    {rest : List Char} (name : IsIdentifier text.toList) (ends : Ends rest) :
    scanFrom expected offset done (text.toList ++ rest) =
      scanFrom false (offset + text.utf8ByteSize) (⟨text, offset⟩ :: done) rest := by
  rw [scanFrom_text (name.cut ends expected), name.kind_eq]
  rfl

/-- A sign is a symbol of its own where no operand is expected. -/
theorem scanFrom_symbol {expected : Bool} {offset : Nat} {done : List Token} (s : Symbol)
    (rest : List Char) (alone : expected = false ∨ isSign s.char = false) :
    scanFrom expected offset done (s.char :: rest) =
      scanFrom (!(kind ⟨s.text, offset⟩).endsOperand) (offset + s.text.utf8ByteSize)
        (⟨s.text, offset⟩ :: done) rest := by
  have cut : Cut expected rest s.text.toList := by
    rw [s.toList_text]
    apply Cut.symbol
    intro operand sign
    rcases alone with other | other
    · rw [other] at operand
      cases operand
    · rw [other] at sign
      cases sign
  change scanFrom expected offset done ([s.char] ++ rest) = _
  rw [← s.toList_text]
  exact scanFrom_text cut

theorem scanFrom_leftParen {expected : Bool} {offset : Nat} {done : List Token}
    (rest : List Char) :
    scanFrom expected offset done ('(' :: rest) =
      scanFrom true (offset + 1) (⟨"(", offset⟩ :: done) rest := by
  have step := @scanFrom_symbol expected offset done .leftParen rest (.inr rfl)
  rw [kind_symbol] at step
  exact step

theorem scanFrom_rightParen {expected : Bool} {offset : Nat} {done : List Token}
    (rest : List Char) :
    scanFrom expected offset done (')' :: rest) =
      scanFrom false (offset + 1) (⟨")", offset⟩ :: done) rest := by
  have step := @scanFrom_symbol expected offset done .rightParen rest (.inr rfl)
  rw [kind_symbol] at step
  exact step

theorem scanFrom_operator {offset : Nat} {done : List Token} (op : Operator) (rest : List Char) :
    scanFrom false offset done (op.char :: rest) =
      scanFrom true (offset + 1) (⟨op.text, offset⟩ :: done) rest := by
  have step := @scanFrom_symbol false offset done (.binary op) rest (.inl rfl)
  rw [kind_symbol, show (Symbol.binary op).text = op.text from rfl, op.utf8ByteSize_text] at step
  exact step

/-! ## Reading a number -/

theorem IsUnsigned.exists_decimal {cs : List Char} (decimal : IsUnsigned cs) :
    ∃ d, Number.decimal? cs = some d := by
  cases decimal with
  | @decimal whole fraction digits behind =>
    obtain ⟨taken, dropped⟩ : (whole ++ fraction).takeWhile Char.isDigit = whole ∧
        (whole ++ fraction).dropWhile Char.isDigit = fraction := by
      apply takeWhile_append_of_head digits.all
      cases behind with
      | none => exact ends_nil.isDigit
      | point _ =>
        intro c member
        cases member
        rfl
    have rest : (Number.splitFraction fraction).2 = [] := by
      cases behind with
      | none => rfl
      | point decimals => exact List.dropWhile_eq_nil_iff.2 decimals.all
    have some : whole.isEmpty = false := by
      simpa using digits.some
    simp only [Number.decimal?]
    rw [taken, dropped]
    simp only [some, Bool.false_and, Bool.false_eq_true, if_false, rest, Number.exponent?]
    exact ⟨_, rfl⟩

theorem IsNumber.exists_parse {text : String} (number : IsNumber text.toList) :
    ∃ x, Number.parse? text = some x := by
  unfold Number.parse?
  generalize text.toList = cs at number
  obtain ⟨d, read⟩ : ∃ d, Number.decimal? (Number.splitSign cs).2 = some d := by
    cases number with
    | unsigned decimal =>
      obtain ⟨c, ds, fraction, rfl, digit, -, -⟩ := decimal.exists_cons
      have unsigned : (Number.splitSign (c :: (ds ++ fraction))).2 = c :: (ds ++ fraction) := by
        simp only [Number.splitSign]
        split
        · rename_i same
          rw [(List.cons.inj same).1] at digit
          cases digit
        · rename_i same
          rw [(List.cons.inj same).1] at digit
          cases digit
        · rfl
      rw [unsigned]
      exact decimal.exists_decimal
    | @signed sign cs isSign decimal =>
      simp only [Token.isSign, Bool.or_eq_true, beq_iff_eq] at isSign
      rcases isSign with rfl | rfl <;> exact decimal.exists_decimal
  -- no number is a word, but if one were, it could be read all the same
  dsimp only
  rw [read]
  cases Number.word? (Number.splitSign cs).2 <;> exact ⟨_, rfl⟩

end Token

end FormulaGrid
