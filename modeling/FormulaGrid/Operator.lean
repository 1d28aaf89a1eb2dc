import FormulaGrid.Fault

namespace FormulaGrid

inductive Operator where
  | add
  | sub
  | mul
  | div
  deriving DecidableEq, Repr

inductive Symbol where
  | leftParen
  | rightParen
  | binary (op : Operator)
  deriving DecidableEq, Repr

namespace Operator

def char : Operator → Char
  | add => '+'
  | sub => '-'
  | mul => '*'
  | div => '/'

def text (op : Operator) : String :=
  String.singleton op.char

def precedence : Operator → Nat
  | add | sub => 1
  | mul | div => 2

def leftAssociative : Operator → Bool
  | add | sub | mul | div => true

/-- The value of an operator at two numbers, in double precision: a division by zero is an infinity
or not a number. -/
def apply : Operator → Float → Float → Float
  | add => (· + ·)
  | sub => (· - ·)
  | mul => (· * ·)
  | div => (· / ·)

end Operator

namespace Symbol

def ofChar? : Char → Option Symbol
  | '(' => some leftParen
  | ')' => some rightParen
  | '+' => some (binary .add)
  | '-' => some (binary .sub)
  | '*' => some (binary .mul)
  | '/' => some (binary .div)
  | _ => none

def ofText? (text : String) : Option Symbol :=
  match text.toList with
  | [c] => ofChar? c
  | _ => none

def precedence : Symbol → Nat
  | leftParen | rightParen => 0
  | binary op => op.precedence

end Symbol

def Operator.ofText (text : String) : Except Fault Operator :=
  match Symbol.ofText? text with
  | some (.binary op) => .ok op
  | _ => .error (.unsupportedOperator text)

end FormulaGrid
