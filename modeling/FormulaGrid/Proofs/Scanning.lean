import FormulaGrid.Proofs.Lexemes

/-! # What the scanner makes

Whatever the scanner accepts, it cuts into lexemes and loses nothing: put together again, the tokens
are the formula.  Each token is as long as it can be, and a sign belongs to a number exactly where an
operand is expected and a digit follows.  This leaves one way to cut a formula, so the conditions on
the tokens say all that the scanner does.
-/

namespace FormulaGrid.Token

inductive IsLexeme (t : Token) : Prop
  | number (isNumber : IsNumber t.text.toList)
  | name (isIdentifier : IsIdentifier t.text.toList)
  | symbol (s : Symbol) (spelled : t.text = s.text)

def spelling (tokens : List Token) : List Char :=
  tokens.flatMap fun t => t.text.toList

@[simp]
theorem spelling_nil : spelling [] = [] :=
  rfl

@[simp]
theorem spelling_cons (t : Token) (tokens : List Token) :
    spelling (t :: tokens) = t.text.toList ++ spelling tokens :=
  rfl

@[simp]
theorem spelling_append (tokens tokens' : List Token) :
    spelling (tokens ++ tokens') = spelling tokens ++ spelling tokens' :=
  List.flatMap_append

def width (tokens : List Token) : Nat :=
  (String.ofList (spelling tokens)).utf8ByteSize

theorem width_append_singleton (tokens : List Token) (t : Token) :
    width (tokens ++ [t]) = width tokens + t.text.utf8ByteSize := by
  simp [width, String.ofList_append, String.utf8ByteSize_append]

/-! ## Classes of lexemes -/

inductive OfKind (text : String) : Kind → Prop
  | number (isNumber : IsNumber text.toList) : OfKind text .number
  | identifier (isIdentifier : IsIdentifier text.toList) : OfKind text .identifier
  | operator (op : Operator) (spelled : text = op.text) : OfKind text .operator
  | leftParen (spelled : text = "(") : OfKind text .leftParen
  | rightParen (spelled : text = ")") : OfKind text .rightParen

theorem OfKind.kind_eq {text : String} {k : Kind} (ofKind : OfKind text k) (offset : Nat) :
    kind ⟨text, offset⟩ = k := by
  cases ofKind with
  | number isNumber => exact isNumber.kind_eq offset
  | identifier isIdentifier => exact isIdentifier.kind_eq offset
  | operator op spelled => exact spelled ▸ kind_symbol (.binary op) offset
  | leftParen spelled => exact spelled ▸ kind_symbol .leftParen offset
  | rightParen spelled => exact spelled ▸ kind_symbol .rightParen offset

theorem IsLexeme.exists_ofKind {t : Token} (lexeme : t.IsLexeme) : ∃ k, OfKind t.text k := by
  cases lexeme with
  | number isNumber => exact ⟨.number, .number isNumber⟩
  | name isIdentifier => exact ⟨.identifier, .identifier isIdentifier⟩
  | symbol s spelled =>
    cases s with
    | leftParen => exact ⟨.leftParen, .leftParen spelled⟩
    | rightParen => exact ⟨.rightParen, .rightParen spelled⟩
    | binary op => exact ⟨.operator, .operator op spelled⟩

/-- The kind that is read off a lexeme is the class that it belongs to. -/
theorem IsLexeme.kind_eq_iff {t : Token} (lexeme : t.IsLexeme) {k : Kind} :
    t.kind = k ↔ OfKind t.text k := by
  constructor
  · rintro rfl
    obtain ⟨k, ofKind⟩ := lexeme.exists_ofKind
    have same : t.kind = k := ofKind.kind_eq t.offset
    exact same ▸ ofKind
  · exact fun ofKind => ofKind.kind_eq t.offset

/-! ## As many characters as a token takes -/

theorem head_dropWhile (p : Char → Bool) (cs : List Char) :
    ∀ c ∈ (cs.dropWhile p).head?, p c = false := by
  intro c member
  have other := List.head?_dropWhile_not p cs
  rw [Option.mem_def.1 member] at other
  exact other

theorem exists_decimalCut (cs : List Char) :
    ∃ whole fraction rest, cs = whole ++ fraction ++ rest ∧ DecimalCut whole fraction rest := by
  have split : cs = cs.takeWhile Char.isDigit ++ cs.dropWhile Char.isDigit :=
    List.takeWhile_append_dropWhile.symm
  have digits : ∀ c ∈ cs.takeWhile Char.isDigit, c.isDigit :=
    fun c member => List.mem_takeWhile_imp member
  by_cases fraction : ∃ d ds, cs.dropWhile Char.isDigit = '.' :: d :: ds ∧ d.isDigit
  · obtain ⟨d, ds, behind, digit⟩ := fraction
    have decimals : Digits (d :: ds.takeWhile Char.isDigit) := by
      refine ⟨List.cons_ne_nil _ _, List.forall_mem_cons.2 ⟨digit, ?_⟩⟩
      exact fun c member => List.mem_takeWhile_imp member
    refine ⟨_, '.' :: d :: ds.takeWhile Char.isDigit, ds.dropWhile Char.isDigit, ?_, digits,
      .point decimals, head_dropWhile _ ds, fun empty => by cases empty⟩
    conv => lhs; rw [split, behind]
    simp
  · refine ⟨_, [], cs.dropWhile Char.isDigit, ?_, digits, .none, head_dropWhile _ cs, ?_⟩
    · rw [List.append_nil]
      exact split
    · intro _ d ds behind
      exact Bool.eq_false_iff.2 fun digit => fraction ⟨d, ds, behind, digit⟩

theorem exists_nameCut (cs : List Char) :
    ∃ letters digits rest, cs = letters ++ digits ++ rest ∧ NameCut letters digits rest := by
  have noLetter := head_dropWhile Char.isAlpha cs
  refine ⟨cs.takeWhile Char.isAlpha, (cs.dropWhile Char.isAlpha).takeWhile Char.isDigit,
    (cs.dropWhile Char.isAlpha).dropWhile Char.isDigit, ?_, ?_, ?_, head_dropWhile _ _, ?_⟩
  · rw [List.append_assoc, List.takeWhile_append_dropWhile, List.takeWhile_append_dropWhile]
  · exact fun c member => List.mem_takeWhile_imp member
  · exact fun c member => List.mem_takeWhile_imp member
  · intro empty
    have rest := List.takeWhile_append_dropWhile (p := Char.isDigit) (l := cs.dropWhile Char.isAlpha)
    rw [empty, List.nil_append] at rest
    rw [rest]
    exact noLetter

theorem exists_cut {expected : Bool} {c : Char} {cs : List Char} {n : Nat}
    (extent : extent? expected c cs = some n) :
    ∃ front rest, cs = front ++ rest ∧ front.length = n ∧ Cut expected rest (c :: front) := by
  simp only [extent?] at extent
  split at extent
  · rename_i begins
    rcases Bool.or_eq_true_iff.1 begins with digit | signed
    · obtain ⟨whole, fraction, rest, rfl, cut⟩ := exists_decimalCut cs
      rw [decimalExtent_append cut] at extent
      exact ⟨whole ++ fraction, rest, rfl, Option.some.inj extent, .unsigned digit cut⟩
    · simp only [Bool.and_eq_true] at signed
      obtain ⟨⟨operand, sign⟩, next⟩ := signed
      cases cs with
      | nil => cases next
      | cons d cs =>
        have digit : d.isDigit := next
        obtain ⟨whole, fraction, rest, rfl, others⟩ := exists_decimalCut cs
        have cut : DecimalCut (d :: whole) fraction rest :=
          { others with digits := List.forall_mem_cons.2 ⟨digit, others.digits⟩ }
        have length := decimalExtent_append cut
        rw [List.cons_append, List.cons_append] at length
        rw [length] at extent
        exact ⟨d :: whole ++ fraction, rest, rfl, Option.some.inj extent,
          .signed operand sign digit cut⟩
  · rename_i begins
    split at extent
    · rename_i alpha
      obtain ⟨letters, digits, rest, rfl, cut⟩ := exists_nameCut cs
      rw [nameExtent_append cut] at extent
      exact ⟨letters ++ digits, rest, rfl, Option.some.inj extent, .name alpha cut⟩
    · split at extent
      · rename_i found
        obtain ⟨s, found⟩ := Option.isSome_iff_exists.1 found
        obtain rfl := Symbol.ofChar?_eq_some_iff.1 found
        refine ⟨[], cs, rfl, Option.some.inj extent, .symbol s ?_⟩
        intro operand sign d next
        cases cs with
        | nil => cases next
        | cons e cs =>
          cases next
          simpa [operand, sign, digitNext, s.isDigit_char] using begins
      · cases extent

/-! ## Tokens as long as they can be -/

/-- A token with the given characters would take some of what follows it: a number a digit, a whole
number a point and a digit, a name a digit, and a name without digits a letter. -/
inductive Prolonged (cs : List Char) : List Char → Prop
  | number {d : Char} {rest : List Char} (isNumber : IsNumber cs) (digit : d.isDigit) :
    Prolonged cs (d :: rest)
  | fraction {d : Char} {rest : List Char} (isNumber : IsNumber cs) (whole : '.' ∉ cs)
    (digit : d.isDigit) : Prolonged cs ('.' :: d :: rest)
  | name {d : Char} {rest : List Char} (isIdentifier : IsIdentifier cs) (digit : d.isDigit) :
    Prolonged cs (d :: rest)
  | letters {c : Char} {rest : List Char} (isIdentifier : IsIdentifier cs)
    (letters : ∀ l ∈ cs, l.isAlpha) (alpha : c.isAlpha) : Prolonged cs (c :: rest)

def OperandExpected (before : List Token) : Prop :=
  ∀ t ∈ before.getLast?, t.text = "(" ∨ ∃ op : Operator, t.text = op.text

/-- A token between others and the characters that follow it, where the scanner would cut it out. -/
structure Munched (before : List Token) (t : Token) (rest : List Char) : Prop where
  lexeme : t.IsLexeme
  offset : t.offset = width before
  /-- Only where an operand is expected is a sign part of a number. -/
  signed : ∀ sign decimal, t.text.toList = sign :: decimal → isSign sign → IsUnsigned decimal →
    OperandExpected before
  maximal : ¬ Prolonged t.text.toList rest
  /-- Where an operand is expected, a sign in front of a digit is part of a number. -/
  alone : t.text = "+" ∨ t.text = "-" → OperandExpected before →
    ∀ d ∈ rest.head?, d.isDigit = false

theorem IsNumber.not_isIdentifier {cs : List Char} (number : IsNumber cs) : ¬ IsIdentifier cs := by
  intro name
  rw [← String.toList_ofList (l := cs)] at number name
  have same := (number.kind_eq 0).symm.trans (name.kind_eq 0)
  cases same

theorem point_notMem_of_digits {cs : List Char} (digits : ∀ c ∈ cs, c.isDigit) : '.' ∉ cs := by
  intro member
  exact absurd (digits '.' member) (by decide)

/-- A fraction that is missing is told by the point, which is nowhere else in a number. -/
theorem IsFraction.eq_nil {fraction : List Char} (behind : IsFraction fraction)
    (whole : '.' ∉ fraction) : fraction = [] := by
  cases behind with
  | none => rfl
  | point _ => exact absurd List.mem_cons_self whole

theorem DecimalCut.not_prolonged {front whole fraction rest : List Char}
    (cut : DecimalCut whole fraction rest) (isNumber : IsNumber (front ++ fraction)) :
    ¬ Prolonged (front ++ fraction) rest := by
  intro prolonged
  cases prolonged with
  | number _ digit =>
    rw [cut.noDigit _ rfl] at digit
    cases digit
  | fraction _ noPoint digit =>
    have empty := cut.behind.eq_nil fun member => noPoint (List.mem_append_right _ member)
    rw [cut.noFraction empty _ _ rfl] at digit
    cases digit
  | name isIdentifier _ => exact isNumber.not_isIdentifier isIdentifier
  | letters isIdentifier _ _ => exact isNumber.not_isIdentifier isIdentifier

theorem decimalCut_of_not_prolonged {front whole fraction rest : List Char}
    (isNumber : IsNumber (front ++ fraction)) (noPoint : '.' ∉ front)
    (digits : ∀ c ∈ whole, c.isDigit) (behind : IsFraction fraction)
    (maximal : ¬ Prolonged (front ++ fraction) rest) : DecimalCut whole fraction rest where
  digits := digits
  behind := behind
  noDigit := by
    intro d member
    cases rest with
    | nil => cases member
    | cons e rest =>
      cases member
      exact Bool.eq_false_iff.2 fun digit => maximal (.number isNumber digit)
  noFraction := by
    rintro rfl d ds rfl
    rw [List.append_nil] at isNumber maximal
    exact Bool.eq_false_iff.2 fun digit => maximal (.fraction isNumber noPoint digit)

theorem NameCut.not_prolonged {c : Char} {letters digits rest : List Char}
    (cut : NameCut letters digits rest) (isIdentifier : IsIdentifier (c :: (letters ++ digits))) :
    ¬ Prolonged (c :: (letters ++ digits)) rest := by
  intro prolonged
  cases prolonged with
  | number isNumber _ => exact isNumber.not_isIdentifier isIdentifier
  | fraction isNumber _ _ => exact isNumber.not_isIdentifier isIdentifier
  | name _ digit =>
    rw [cut.noDigit _ rfl] at digit
    cases digit
  | letters _ all alpha =>
    cases digits with
    | nil =>
      rw [cut.noLetter rfl _ rfl] at alpha
      cases alpha
    | cons d digits =>
      have letter := all d (by simp)
      rw [isAlpha_of_isDigit (cut.behind d List.mem_cons_self)] at letter
      cases letter

theorem not_prolonged_symbol (s : Symbol) (rest : List Char) : ¬ Prolonged s.text.toList rest := by
  have noNumber : ¬ IsNumber s.text.toList := by
    intro isNumber
    have none := isNumber.symbol?_eq 0
    rw [symbol?_symbol] at none
    cases none
  have noName : ¬ IsIdentifier s.text.toList := by
    intro isIdentifier
    have none := isIdentifier.symbol?_eq 0
    rw [symbol?_symbol] at none
    cases none
  intro prolonged
  cases prolonged with
  | number isNumber _ => exact noNumber isNumber
  | fraction isNumber _ _ => exact noNumber isNumber
  | name isIdentifier _ => exact noName isIdentifier
  | letters isIdentifier _ _ => exact noName isIdentifier

/-! ## The scanner takes what is munched, and nothing else -/

variable {before : List Token} {t : Token} {rest : List Char} {expected : Bool}

theorem Munched.cut (munched : Munched before t rest)
    (flag : expected = true ↔ OperandExpected before) : Cut expected rest t.text.toList := by
  obtain ⟨lexeme, -, signed, maximal, alone⟩ := munched
  cases lexeme with
  | number isNumber =>
    generalize t.text.toList = cs at isNumber signed maximal
    cases isNumber with
    | unsigned decimal =>
      obtain ⟨d, ds, fraction, rfl, digit, others, behind⟩ := decimal.exists_cons
      have digits : ∀ c ∈ d :: ds, c.isDigit := List.forall_mem_cons.2 ⟨digit, others⟩
      exact .unsigned digit (@decimalCut_of_not_prolonged (d :: ds) ds fraction _
        (.unsigned decimal) (point_notMem_of_digits digits) others behind maximal)
    | @signed sign _ isSign decimal =>
      obtain ⟨d, ds, fraction, rfl, digit, others, behind⟩ := decimal.exists_cons
      have digits : ∀ c ∈ d :: ds, c.isDigit := List.forall_mem_cons.2 ⟨digit, others⟩
      have noPoint : '.' ∉ sign :: d :: ds := by
        intro member
        cases member with
        | head => cases isSign
        | tail _ member => exact point_notMem_of_digits digits member
      exact .signed (flag.2 (signed _ _ rfl isSign decimal)) isSign digit
        (@decimalCut_of_not_prolonged (sign :: d :: ds) (d :: ds) fraction _
          (.signed isSign decimal) noPoint digits behind maximal)
  | name isIdentifier =>
    obtain ⟨c, letters, digits, spelled, alpha, others, numerals⟩ := isIdentifier.exists_cons
    rw [spelled] at isIdentifier maximal ⊢
    refine .name alpha ⟨others, numerals, ?_, ?_⟩
    · intro d member
      rw [Option.mem_def, List.head?_eq_some_iff] at member
      obtain ⟨rest, next⟩ := member
      rw [next] at maximal
      exact Bool.eq_false_iff.2 fun digit => maximal (.name isIdentifier digit)
    · rintro rfl l member
      rw [Option.mem_def, List.head?_eq_some_iff] at member
      obtain ⟨rest, next⟩ := member
      rw [next, List.append_nil] at maximal
      rw [List.append_nil] at isIdentifier
      have all : ∀ l ∈ c :: letters, l.isAlpha := List.forall_mem_cons.2 ⟨alpha, others⟩
      exact Bool.eq_false_iff.2 fun letter => maximal (.letters isIdentifier all letter)
  | symbol s spelled =>
    rw [spelled, s.toList_text]
    refine .symbol s fun operand sign => alone ?_ (flag.1 operand)
    simp only [isSign, Bool.or_eq_true, beq_iff_eq] at sign
    rw [spelled, Symbol.text]
    rcases sign with plus | minus
    · exact .inl (plus ▸ rfl)
    · exact .inr (minus ▸ rfl)

/-- Only a token that begins with a sign depends on what is expected. -/
theorem munched_of_alphanum {c : Char} {cs : List Char} (spelled : t.text.toList = c :: cs)
    (alphanum : c.isAlphanum) (lexeme : t.IsLexeme) (offset : t.offset = width before)
    (maximal : ¬ Prolonged t.text.toList rest) : Munched before t rest where
  lexeme := lexeme
  offset := offset
  signed := by
    intro sign decimal spelled' isSign
    rw [spelled] at spelled'
    rw [← (List.cons.inj spelled').1, isSign_of_isAlphanum alphanum] at isSign
    cases isSign
  maximal := maximal
  alone := by
    intro sign
    have isSign : isSign c := by
      rcases sign with plus | minus
      · rw [plus] at spelled
        cases spelled
        rfl
      · rw [minus] at spelled
        cases spelled
        rfl
    rw [isSign_of_isAlphanum alphanum] at isSign
    cases isSign

theorem munched_of_cut (cut : Cut expected rest t.text.toList)
    (flag : expected = true ↔ OperandExpected before) (offset : t.offset = width before) :
    Munched before t rest := by
  generalize spelled : t.text.toList = cs at cut
  cases cut with
  | @unsigned d ds fraction digit cut =>
    have digits : Digits (d :: ds) :=
      ⟨List.cons_ne_nil _ _, List.forall_mem_cons.2 ⟨digit, cut.digits⟩⟩
    have isNumber : IsNumber (d :: ds ++ fraction) := .unsigned (.decimal digits cut.behind)
    apply munched_of_alphanum spelled _ (.number (spelled ▸ isNumber)) offset
    · rw [spelled]
      exact cut.not_prolonged isNumber
    · rw [Char.isAlphanum, digit, Bool.or_true]
  | @signed sign d ds fraction operand isSign digit cut =>
    have digits : Digits (d :: ds) := ⟨List.cons_ne_nil _ _, cut.digits⟩
    have isNumber : IsNumber (sign :: (d :: ds) ++ fraction) :=
      .signed isSign (.decimal digits cut.behind)
    refine ⟨.number (spelled ▸ isNumber), offset, fun _ _ _ _ _ => flag.1 operand, ?_, ?_⟩
    · rw [spelled]
      exact cut.not_prolonged isNumber
    · intro lone
      rcases lone with plus | minus
      · rw [plus] at spelled
        cases spelled
      · rw [minus] at spelled
        cases spelled
  | @name c letters digits alpha cut =>
    have isIdentifier : IsIdentifier (c :: letters ++ digits) :=
      .letters (List.cons_ne_nil _ _) (List.forall_mem_cons.2 ⟨alpha, cut.alpha⟩) cut.behind
    apply munched_of_alphanum spelled _ (.name (spelled ▸ isIdentifier)) offset
    · rw [spelled]
      exact cut.not_prolonged isIdentifier
    · rw [Char.isAlphanum, alpha, Bool.true_or]
  | symbol s alone =>
    have text : t.text = s.text := String.toList_inj.1 (spelled.trans s.toList_text.symm)
    refine ⟨.symbol s text, offset, ?_, ?_, ?_⟩
    · intro sign decimal spelled' _ isUnsigned
      rw [spelled] at spelled'
      cases spelled'
      obtain ⟨d, ds, fraction, none, -⟩ := isUnsigned.exists_cons
      cases none
    · rw [text]
      exact not_prolonged_symbol s _
    · intro lone operand
      apply alone (flag.2 operand)
      rcases lone with plus | minus
      · rw [plus] at spelled
        exact (List.cons.inj spelled).1 ▸ rfl
      · rw [minus] at spelled
        exact (List.cons.inj spelled).1 ▸ rfl

theorem operandExpected_append_singleton (before : List Token) (lexeme : t.IsLexeme) :
    (!t.kind.endsOperand) = true ↔ OperandExpected (before ++ [t]) := by
  have last : OperandExpected (before ++ [t]) ↔ t.text = "(" ∨ ∃ op : Operator, t.text = op.text := by
    simp [OperandExpected]
  rw [last, Bool.not_eq_true']
  have ofKind := lexeme.kind_eq_iff.1 rfl
  constructor
  · intro more
    generalize t.kind = k at ofKind more
    cases ofKind with
    | operator op spelled => exact .inr ⟨op, spelled⟩
    | leftParen spelled => exact .inl spelled
    | number _ => cases more
    | identifier _ => cases more
    | rightParen _ => cases more
  · rintro (opens | ⟨op, operator⟩)
    · rw [lexeme.kind_eq_iff.2 (.leftParen opens)]
      rfl
    · rw [lexeme.kind_eq_iff.2 (.operator op operator)]
      rfl

def Tokenized (before tokens : List Token) : Prop :=
  ∀ front t behind, tokens = front ++ t :: behind → Munched (before ++ front) t (spelling behind)

theorem tokenized_nil (before : List Token) : Tokenized before [] := by
  intro front t behind split
  cases front <;> cases split

theorem tokenized_cons {tokens : List Token} :
    Tokenized before (t :: tokens) ↔
      Munched before t (spelling tokens) ∧ Tokenized (before ++ [t]) tokens := by
  constructor
  · intro tokenized
    constructor
    · have first := tokenized [] t tokens rfl
      rwa [List.append_nil] at first
    · intro front u behind split
      have later := tokenized (t :: front) u behind (by rw [split, List.cons_append])
      rwa [List.append_cons] at later
  · rintro ⟨first, others⟩ front u behind split
    cases front with
    | nil =>
      cases split
      rwa [List.append_nil]
    | cons v front =>
      cases split
      rw [List.append_cons]
      exact others front u behind rfl

theorem scanFrom_of_tokenized {tokens : List Token} (flag : expected = true ↔ OperandExpected before)
    (tokenized : Tokenized before tokens) :
    scanFrom expected (width before) before.reverse (spelling tokens) = .ok (before ++ tokens) := by
  induction tokens generalizing before expected with
  | nil => rw [spelling_nil, scanFrom, List.reverse_reverse, List.append_nil]
  | cons t tokens ih =>
    obtain ⟨first, others⟩ := tokenized_cons.1 tokenized
    have token : (⟨t.text, width before⟩ : Token) = t := by
      rw [← first.offset]
    have onward := ih (operandExpected_append_singleton before first.lexeme) others
    rw [List.reverse_append, List.reverse_singleton, List.singleton_append, width_append_singleton,
      List.append_assoc] at onward
    rw [spelling_cons, scanFrom_text (first.cut flag), token]
    exact onward

/-- What the scanner takes is a token as long as it can be. -/
theorem munched_of_extent {offset n : Nat} {c : Char} {cs : List Char}
    (extent : extent? expected c cs = some n) (flag : expected = true ↔ OperandExpected before)
    (place : offset = width before) :
    Munched before ⟨String.ofList (c :: cs.take n), offset⟩ (cs.drop n) := by
  obtain ⟨front, rest, rfl, rfl, cut⟩ := exists_cut extent
  rw [List.take_left, List.drop_left]
  exact munched_of_cut (String.toList_ofList.symm ▸ cut) flag place

theorem tokenized_of_scanFrom {offset : Nat} {done tokens : List Token} {cs : List Char}
    (scanned : scanFrom expected offset done cs = .ok tokens)
    (flag : expected = true ↔ OperandExpected done.reverse) (place : offset = width done.reverse) :
    ∃ new, tokens = done.reverse ++ new ∧ spelling new = cs ∧ Tokenized done.reverse new := by
  induction expected, offset, done, cs using scanFrom.induct with
  | case1 expected offset done =>
    rw [scanFrom] at scanned
    cases scanned
    exact ⟨[], (List.append_nil _).symm, rfl, tokenized_nil _⟩
  | case2 expected offset done c cs none =>
    rw [scanFrom, none] at scanned
    cases scanned
  | case3 expected offset done c cs n extent token ih =>
    rw [scanFrom, extent] at scanned
    have munched : Munched done.reverse token (cs.drop n) := munched_of_extent extent flag place
    have next := operandExpected_append_singleton done.reverse munched.lexeme
    rw [← List.reverse_cons] at next
    have onward : offset + token.text.utf8ByteSize = width (token :: done).reverse := by
      rw [List.reverse_cons, width_append_singleton, place]
    obtain ⟨new, rfl, spelled, others⟩ := ih scanned next onward
    rw [List.reverse_cons] at others
    refine ⟨token :: new, by simp, ?_, tokenized_cons.2 ⟨spelled.symm ▸ munched, others⟩⟩
    rw [spelling_cons, spelled, String.toList_ofList, List.cons_append, List.take_append_drop]

/-! ## Whole formulas -/

theorem scan_eq_ok_iff {formula : String} {tokens : List Token} :
    scan formula = .ok tokens ↔ spelling tokens = formula.toList ∧ Tokenized [] tokens := by
  have start : true = true ↔ OperandExpected [] := by
    simp [OperandExpected]
  constructor
  · intro scanned
    obtain ⟨new, rfl, spelled, tokenized⟩ := @tokenized_of_scanFrom true 0 [] _ _ scanned start rfl
    exact ⟨spelled, tokenized⟩
  · rintro ⟨spelled, tokenized⟩
    rw [scan, ← spelled]
    exact scanFrom_of_tokenized start tokenized

theorem scan_sound {formula : String} {tokens : List Token} (scanned : scan formula = .ok tokens) :
    spelling tokens = formula.toList ∧ ∀ t ∈ tokens, IsLexeme t := by
  obtain ⟨spelled, tokenized⟩ := scan_eq_ok_iff.1 scanned
  refine ⟨spelled, fun t member => ?_⟩
  obtain ⟨front, behind, split⟩ := List.append_of_mem member
  exact (tokenized front t behind split).lexeme

/-- The scanner answers with the one list of tokens that spells the formula and in which every token
is a lexeme in its place: it begins at its offset, it is as long as it can be, and it begins with a
sign, or is a sign in front of a digit, only where the first or the second is right.  The kind of each
token is the class of lexemes that it belongs to. -/
theorem maximal_munch (formula : String) (tokens : List Token) :
    (scan formula = .ok tokens ↔
      spelling tokens = formula.toList ∧
        ∀ before t behind, tokens = before ++ t :: behind →
          Munched before t (spelling behind)) ∧
    (scan formula = .ok tokens → ∀ t ∈ tokens, ∀ k, t.kind = k ↔ OfKind t.text k) := by
  refine ⟨scan_eq_ok_iff, ?_⟩
  intro scanned t member k
  exact ((scan_sound scanned).2 t member).kind_eq_iff

example : (scan "2*-3-1").toOption =
    some [⟨"2", 0⟩, ⟨"*", 1⟩, ⟨"-3", 2⟩, ⟨"-", 4⟩, ⟨"1", 5⟩] := by
  decide +kernel

end FormulaGrid.Token
