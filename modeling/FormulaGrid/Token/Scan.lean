import FormulaGrid.Token.Basic

/-! # Cutting a formula into tokens

A formula is read from left to right, and each token takes as many characters as it can:

* a number is a run of digits, with a point and more digits if a digit follows the point;
* a name is a run of letters and then a run of digits;
* every other token is a single symbol.

Where an operand is expected, a sign that stands directly before a digit belongs to the number.  A
character that begins no token ends the reading, and the fault carries everything up to the next
character that begins one.  Letters and digits are those of ASCII.
-/

namespace FormulaGrid.Token

/-! ## Extents -/

def decimalExtent (cs : List Char) : Nat :=
  let whole := (cs.takeWhile Char.isDigit).length
  match cs.dropWhile Char.isDigit with
  | '.' :: d :: rest =>
    if d.isDigit then whole + 2 + (rest.takeWhile Char.isDigit).length else whole
  | _ => whole

def nameExtent (cs : List Char) : Nat :=
  (cs.takeWhile Char.isAlpha).length +
    ((cs.dropWhile Char.isAlpha).takeWhile Char.isDigit).length

def isSign (c : Char) : Bool :=
  c == '+' || c == '-'

def digitNext : List Char → Bool
  | c :: _ => c.isDigit
  | [] => false

/-- The number of characters that the token beginning with `c` has behind it, if `c` begins one. -/
def extent? (operandExpected : Bool) (c : Char) (cs : List Char) : Option Nat :=
  if c.isDigit || (operandExpected && isSign c && digitNext cs) then
    some (decimalExtent cs)
  else if c.isAlpha then
    some (nameExtent cs)
  else if (Symbol.ofChar? c).isSome then
    some 0
  else
    none

def startsToken (c : Char) : Bool :=
  c.isAlphanum || (Symbol.ofChar? c).isSome

/-! ## Scanning -/

/-- The tokens of the text `cs`, which begins at the given offset, behind the tokens `done`, the
last of them first. -/
def scanFrom (operandExpected : Bool) (offset : Nat) (done : List Token) :
    List Char → Except Fault (List Token)
  | [] => .ok done.reverse
  | c :: cs =>
    match extent? operandExpected c cs with
    | none =>
      .error (.unsupportedToken (String.ofList (c :: cs.takeWhile fun d => !startsToken d)))
    | some n =>
      let token : Token := ⟨String.ofList (c :: cs.take n), offset⟩
      scanFrom (!token.kind.endsOperand) (offset + token.text.utf8ByteSize) (token :: done)
        (cs.drop n)
termination_by cs => cs.length
decreasing_by simp only [List.length_drop, List.length_cons]; omega

def scan (formula : String) : Except Fault (List Token) :=
  scanFrom true 0 [] formula.toList

def isName (text : String) : Bool :=
  !(text.toList.takeWhile Char.isAlpha).isEmpty &&
    (text.toList.dropWhile Char.isAlpha).all Char.isDigit

end FormulaGrid.Token
