import FormulaGrid.Decimal.Shortest

/-! # Numbers as text

A number is written with the fewest digits that read back to it, never with an exponent.  It is read
from a sign, digits with a point, and an exponent; every part but the digits may be missing.  The
words for infinity and for what is not a number are read in either case.
-/

namespace FormulaGrid.Number

/-! ## Writing -/

/-- The text of a number.  What is not a number has no sign. -/
def text (x : Float) : String :=
  let (negative, magnitude) := Binary64.ofFloat x
  let sign := if negative then ['-'] else []
  match magnitude with
  | .notANumber => "NaN"
  | .infinite => String.ofList (sign ++ "inf".toList)
  | .finite value =>
    if value.mantissa = 0 then
      String.ofList (sign ++ ['0'])
    else
      String.ofList (sign ++ value.shortest.positional)

/-! ## Reading -/

def splitSign : List Char → Bool × List Char
  | '-' :: cs => (true, cs)
  | '+' :: cs => (false, cs)
  | cs => (false, cs)

def natural? (cs : List Char) : Option Nat :=
  if cs.isEmpty || !cs.all Char.isDigit then none else some (Nat.ofDigitChars 10 cs 0)

def exponent? : List Char → Option Int
  | [] => some 0
  | e :: cs =>
    if e = 'e' || e = 'E' then
      let (negative, digits) := splitSign cs
      (natural? digits).map fun n => if negative then -(n : Int) else n
    else
      none

def splitFraction : List Char → List Char × List Char
  | '.' :: cs => (cs.takeWhile Char.isDigit, cs.dropWhile Char.isDigit)
  | cs => ([], cs)

def decimal? (cs : List Char) : Option Decimal :=
  let whole := cs.takeWhile Char.isDigit
  let (fraction, rest) := splitFraction (cs.dropWhile Char.isDigit)
  if whole.isEmpty && fraction.isEmpty then
    none
  else
    (exponent? rest).map fun e =>
      ⟨Nat.ofDigitChars 10 (whole ++ fraction) 0, e - fraction.length⟩

def word? (cs : List Char) : Option Float :=
  let word := String.ofList (cs.map Char.toLower)
  if word = "inf" || word = "infinity" then some (1 / 0)
  else if word = "nan" then some (0 / 0)
  else none

def parse? (text : String) : Option Float :=
  let (negative, cs) := splitSign text.toList
  let magnitude? := (word? cs).orElse fun _ => (decimal? cs).map Decimal.toFloat
  magnitude?.map fun x => if negative then -x else x

end FormulaGrid.Number
