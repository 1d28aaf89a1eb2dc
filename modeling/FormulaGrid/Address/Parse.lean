import FormulaGrid.Numeral
import FormulaGrid.Fault

namespace FormulaGrid.Address

/-- Rows and columns, counted from one, are numbers of 64 bits. -/
def limit : Nat :=
  UInt64.size

def letterValue (c : Char) : Nat :=
  c.toUpper.toNat - 'A'.toNat + 1

def columnNumber? (letters : List Char) : Option Nat :=
  Numeral.valueBelow? limit 26 (letters.map letterValue)

def rowNumber? (digits : List Char) : Option Nat :=
  Numeral.valueBelow? limit 10 (digits.map Numeral.digitValue)

def parse? (text : String) : Option Address :=
  let letters := text.toList.takeWhile Char.isAlpha
  let digits := text.toList.dropWhile Char.isAlpha
  if letters.isEmpty || digits.isEmpty || !digits.all Char.isDigit then
    none
  else
    match columnNumber? letters, rowNumber? digits with
    | some (column + 1), some (row + 1) => some ⟨row, column⟩
    | _, _ => none

def parse (text : String) : Except Fault Address :=
  match parse? text with
  | some address => .ok address
  | none => .error (.invalidAddress text)

end FormulaGrid.Address
