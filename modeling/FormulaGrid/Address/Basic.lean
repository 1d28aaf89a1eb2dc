namespace FormulaGrid

structure Address where
  row : Nat
  column : Nat
  deriving DecidableEq, Repr

namespace Address

/-! ## Names -/

def columnLetter (d : Nat) : Char :=
  Char.ofNat ('A'.toNat + d)

/-- The letters of the column with the given number, numbers counted from one. -/
def columnLetters : Nat → List Char
  | 0 => []
  | n + 1 => columnLetters (n / 26) ++ [columnLetter (n % 26)]
termination_by n => n
decreasing_by omega

def columnName (column : Nat) : String :=
  String.ofList (columnLetters (column + 1))

def name (a : Address) : String :=
  columnName a.column ++ toString (a.row + 1)

/-! ## Order -/

def le (a b : Address) : Bool :=
  a.row < b.row || (a.row == b.row && a.column ≤ b.column)

def sort (addresses : List Address) : List Address :=
  addresses.mergeSort le

end Address

end FormulaGrid
