import FormulaGrid.Proofs.Scanning

namespace FormulaGrid

/-! ## Pieces of a text -/

/-- The bytes of a text from an offset on are those of a piece, and both ends of the piece are
boundaries between characters. -/
structure CutAt (text piece : String) (offset : Nat) : Prop where
  begins : String.Pos.Raw.IsValid text ⟨offset⟩
  ends : String.Pos.Raw.IsValid text ⟨offset + piece.utf8ByteSize⟩
  bytes : text.toByteArray.extract offset (offset + piece.utf8ByteSize) = piece.toByteArray

theorem cutAt_append (front piece behind : String) :
    CutAt (front ++ piece ++ behind) piece front.utf8ByteSize where
  begins := by
    rw [String.append_assoc]
    exact String.Pos.Raw.isValid_rawEndPos.append_right (piece ++ behind)
  ends := by
    rw [← String.utf8ByteSize_append]
    exact String.Pos.Raw.isValid_rawEndPos.append_right behind
  bytes := by
    have behindFront := @ByteArray.extract_append_size_add front.toByteArray
      (piece.toByteArray ++ behind.toByteArray) 0 piece.utf8ByteSize
    have first : (piece.toByteArray ++ behind.toByteArray).extract 0 piece.utf8ByteSize =
        piece.toByteArray :=
      ByteArray.extract_append_eq_left rfl
    rw [Nat.add_zero, String.size_toByteArray, first] at behindFront
    rw [String.append_assoc, String.toByteArray_append, String.toByteArray_append]
    exact behindFront

namespace Token

variable {before tokens : List Token} {t : Token} {expected : Bool} {offset : Nat}
  {cs rest : List Char}

/-! ## Where no token begins -/

def Begins (c : Char) : Prop :=
  c.isAlpha ∨ c.isDigit ∨ ∃ s : Symbol, c = s.char

theorem isSome_ofChar?_iff {c : Char} : (Symbol.ofChar? c).isSome ↔ ∃ s : Symbol, c = s.char := by
  simp only [Option.isSome_iff_exists, Symbol.ofChar?_eq_some_iff]

theorem startsToken_iff {c : Char} : startsToken c ↔ Begins c := by
  rw [startsToken, Char.isAlphanum, Bool.or_eq_true, Bool.or_eq_true, isSome_ofChar?_iff, or_assoc]
  rfl

theorem startsToken_eq_false_iff {c : Char} : startsToken c = false ↔ ¬ Begins c := by
  rw [← startsToken_iff, Bool.not_eq_true]

/-- A sign begins a token in any case: it is an operator where it does not begin a number. -/
theorem ofChar?_of_isSign {c : Char} (sign : isSign c) : (Symbol.ofChar? c).isSome := by
  simp only [isSign, Bool.or_eq_true, beq_iff_eq] at sign
  rcases sign with rfl | rfl <;> rfl

theorem extent?_eq_none_iff {c : Char} : extent? expected c cs = none ↔ ¬ Begins c := by
  rw [← startsToken_eq_false_iff, startsToken, Char.isAlphanum, Bool.or_eq_false_iff,
    Bool.or_eq_false_iff, extent?]
  constructor
  · intro stuck
    split at stuck
    · cases stuck
    · rename_i number
      split at stuck
      · cases stuck
      · rename_i letter
        split at stuck
        · cases stuck
        · rename_i symbol
          rw [Bool.not_eq_true, Bool.or_eq_false_iff] at number
          rw [Bool.not_eq_true] at letter symbol
          exact ⟨⟨letter, number.1⟩, symbol⟩
  · rintro ⟨⟨letter, digit⟩, symbol⟩
    have sign : isSign c = false := by
      rw [Bool.eq_false_iff]
      intro sign
      rw [ofChar?_of_isSign sign] at symbol
      cases symbol
    simp [letter, digit, symbol, sign]

/-! ## Tokens taken -/

inductive Reads : Bool → Nat → List Char → List Token → List Char → Prop
  | stop {expected : Bool} {offset : Nat} {rest : List Char} : Reads expected offset rest [] rest
  | take {expected : Bool} {offset n : Nat} {c : Char} {cs rest : List Char} {t : Token}
    {tokens : List Token} (extent : extent? expected c cs = some n)
    (cut : t = ⟨String.ofList (c :: cs.take n), offset⟩)
    (onward : Reads (!t.kind.endsOperand) (offset + t.text.utf8ByteSize) (cs.drop n) tokens rest) :
    Reads expected offset (c :: cs) (t :: tokens) rest

/-- What is cut out where something follows is cut out where nothing, or less of it, does. -/
theorem Munched.of_append {more : List Char} (munched : Munched before t (rest ++ more)) :
    Munched before t rest where
  lexeme := munched.lexeme
  offset := munched.offset
  signed := munched.signed
  maximal := by
    intro prolonged
    apply munched.maximal
    cases prolonged with
    | number isNumber digit => exact .number isNumber digit
    | fraction isNumber whole digit => exact .fraction isNumber whole digit
    | name isIdentifier digit => exact .name isIdentifier digit
    | letters isIdentifier letters alpha => exact .letters isIdentifier letters alpha
  alone := by
    intro sign operand d next
    apply munched.alone sign operand
    rw [Option.mem_def] at next ⊢
    rw [List.head?_append, next, Option.some_or]

/-- The tokens taken are those of the text that they spell: what is left behind them would not have
prolonged any, and nothing prolongs a token at the end. -/
theorem Reads.tokenized (reads : Reads expected offset cs tokens rest)
    (flag : expected = true ↔ OperandExpected before) (place : offset = width before) :
    cs = spelling tokens ++ rest ∧ Tokenized before tokens := by
  induction reads generalizing before with
  | stop => exact ⟨rfl, tokenized_nil before⟩
  | @take expected offset n c cs rest t tokens extent cut onward ih =>
    have munched : Munched before t (cs.drop n) := cut ▸ munched_of_extent extent flag place
    have next : offset + t.text.utf8ByteSize = width (before ++ [t]) := by
      rw [width_append_singleton, place]
    obtain ⟨spelled, others⟩ :=
      ih (operandExpected_append_singleton before munched.lexeme) next
    rw [spelled] at munched
    refine ⟨?_, tokenized_cons.2 ⟨munched.of_append, others⟩⟩
    rw [spelling_cons, List.append_assoc, ← spelled, cut, String.toList_ofList, List.cons_append,
      List.take_append_drop]

/-! ## Where the scanner fails -/

/-- What is reported where the scanner stands: the next character and what follows it up to one that
begins a token. -/
def fragmentAt (c : Char) (cs : List Char) : String :=
  String.ofList (c :: cs.takeWhile fun d => !startsToken d)

def beyond (cs : List Char) : List Char :=
  cs.dropWhile fun d => !startsToken d

theorem toList_fragmentAt_append (c : Char) (cs : List Char) :
    (fragmentAt c cs).toList ++ beyond cs = c :: cs := by
  rw [fragmentAt, beyond, String.toList_ofList, List.cons_append, List.takeWhile_append_dropWhile]

theorem not_begins_of_mem_fragmentAt {c : Char} (strange : ¬ Begins c) {d : Char}
    (member : d ∈ (fragmentAt c cs).toList) : ¬ Begins d := by
  rw [fragmentAt, String.toList_ofList] at member
  rcases List.mem_cons.1 member with rfl | member
  · exact strange
  · have passed := List.mem_takeWhile_imp member
    rw [Bool.not_eq_true'] at passed
    exact startsToken_eq_false_iff.1 passed

theorem begins_of_mem_head_beyond {d : Char} (member : d ∈ (beyond cs).head?) : Begins d := by
  have stopped := head_dropWhile _ cs d member
  rw [Bool.not_eq_false'] at stopped
  exact startsToken_iff.1 stopped

/-- The fragment ends where the next token begins, and not before. -/
theorem fragmentAt_append {c : Char} {others : List Char} (strange : ∀ d ∈ others, ¬ Begins d)
    (next : ∀ d ∈ rest.head?, Begins d) :
    fragmentAt c (others ++ rest) = String.ofList (c :: others) := by
  have taken : (others ++ rest).takeWhile (fun d => !startsToken d) = others := by
    refine (takeWhile_append_of_head ?_ ?_).1
    · intro d member
      rw [startsToken_eq_false_iff.2 (strange d member), Bool.not_false]
    · intro d member
      rw [startsToken_iff.2 (next d member), Bool.not_true]
  rw [fragmentAt, taken]

theorem scanFrom_eq_error_iff {done : List Token} {fault : Fault} :
    scanFrom expected offset done cs = .error fault ↔
      ∃ tokens c rest, Reads expected offset cs tokens (c :: rest) ∧ ¬ Begins c ∧
        fault = .unsupportedToken (fragmentAt c rest) := by
  constructor
  · intro failed
    induction expected, offset, done, cs using scanFrom.induct with
    | case1 expected offset done =>
      rw [scanFrom] at failed
      cases failed
    | case2 expected offset done c cs stuck =>
      rw [scanFrom, stuck] at failed
      cases failed
      exact ⟨[], c, cs, .stop, extent?_eq_none_iff.1 stuck, rfl⟩
    | case3 expected offset done c cs n extent token ih =>
      rw [scanFrom, extent] at failed
      obtain ⟨tokens, d, rest, reads, strange, rfl⟩ := ih failed
      exact ⟨token :: tokens, d, rest, .take extent rfl reads, strange, rfl⟩
  · rintro ⟨tokens, c, rest, reads, strange, rfl⟩
    -- the induction needs the rest as a variable; it is the same all along the run
    generalize left : c :: rest = behind at reads
    induction reads generalizing done with
    | stop =>
      rw [← left, scanFrom, extent?_eq_none_iff.2 strange, fragmentAt]
    | take extent cut onward ih =>
      subst cut
      rw [scanFrom, extent]
      exact ih left

/-! ## Whole formulas -/

theorem cutAt_of_tokenized {text : String} (spelled : text.toList = spelling tokens ++ rest)
    (tokenized : Tokenized [] tokens) (member : t ∈ tokens) : CutAt text t.text t.offset := by
  obtain ⟨front, behind, rfl⟩ := List.append_of_mem member
  have offset := (tokenized front t behind rfl).offset
  have split : text = String.ofList (spelling front) ++ t.text ++
      String.ofList (spelling behind ++ rest) := by
    apply String.toList_inj.1
    simp [spelled]
  rw [offset, split]
  exact cutAt_append _ _ _

/-- The scanner fails exactly if it takes some tokens and comes to a fragment that begins none.  The
text in front of the fragment has these tokens also by itself.  The fragment is reported as a whole:
no character of it begins a token, and the one behind it, if there is one, does.  All that is cut
out of the formula is cut between characters. -/
theorem fragment_reported (formula : String) (fault : Fault) :
    scan formula = .error fault ↔
      ∃ (consumed fragment rest : String) (tokens : List Token),
        fault = .unsupportedToken fragment ∧ formula = consumed ++ fragment ++ rest ∧
        Reads true 0 formula.toList tokens (fragment ++ rest).toList ∧
        scan consumed = .ok tokens ∧
        fragment ≠ "" ∧ (∀ c ∈ fragment.toList, ¬ Begins c) ∧
        (∀ c ∈ rest.toList.head?, Begins c) ∧
        (∀ t ∈ tokens, CutAt formula t.text t.offset) ∧
        CutAt formula fragment consumed.utf8ByteSize := by
  constructor
  · intro failed
    obtain ⟨tokens, c, cs, reads, strange, rfl⟩ := scanFrom_eq_error_iff.1 failed
    have start : true = true ↔ OperandExpected [] := by
      simp [OperandExpected]
    obtain ⟨spelled, tokenized⟩ := reads.tokenized start rfl
    have whole : (fragmentAt c cs ++ String.ofList (beyond cs)).toList = c :: cs := by
      rw [String.toList_append, String.toList_ofList, toList_fragmentAt_append]
    have split : formula =
        String.ofList (spelling tokens) ++ fragmentAt c cs ++ String.ofList (beyond cs) := by
      apply String.toList_inj.1
      rw [String.append_assoc, String.toList_append, whole, String.toList_ofList, spelled]
    refine ⟨_, _, _, tokens, rfl, split, whole.symm ▸ reads, ?_, ?_, ?_, ?_, ?_, ?_⟩
    · exact scan_eq_ok_iff.2 ⟨String.toList_ofList.symm, tokenized⟩
    · simp [fragmentAt]
    · exact fun d => not_begins_of_mem_fragmentAt strange
    · rw [String.toList_ofList]
      exact fun d => begins_of_mem_head_beyond
    · exact fun t member => cutAt_of_tokenized spelled tokenized member
    · rw [split]
      exact cutAt_append _ _ _
  · rintro ⟨consumed, fragment, rest, tokens, rfl, -, reads, -, nonempty, strange, next, -, -⟩
    cases spelled : fragment.toList with
    | nil => exact absurd (String.toList_eq_nil_iff.1 spelled) nonempty
    | cons c cs =>
      rw [spelled] at strange
      obtain ⟨first, others⟩ := List.forall_mem_cons.1 strange
      rw [String.toList_append, spelled, List.cons_append] at reads
      refine scanFrom_eq_error_iff.2 ⟨tokens, c, cs ++ rest.toList, reads, first, ?_⟩
      rw [fragmentAt_append others next, ← spelled, String.ofList_toList]

example : scan "3.é+1" = .error (.unsupportedToken ".é") := by
  decide +kernel

end Token

end FormulaGrid
