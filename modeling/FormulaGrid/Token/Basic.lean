import FormulaGrid.Operator

namespace FormulaGrid

/-- A piece of a formula.  The offset counts the bytes before it in UTF-8. -/
structure Token where
  text : String
  offset : Nat
  deriving DecidableEq, Repr

namespace Token

inductive Kind where
  | number
  | identifier
  | operator
  | leftParen
  | rightParen
  deriving DecidableEq, Repr

/-- An operand, or a group, ends with this token: an operator may follow, and a sign may not. -/
def Kind.endsOperand : Kind → Bool
  | number | identifier | rightParen => true
  | operator | leftParen => false

def symbol? (t : Token) : Option Symbol :=
  Symbol.ofText? t.text

def kind (t : Token) : Kind :=
  match t.symbol? with
  | some .leftParen => .leftParen
  | some .rightParen => .rightParen
  | some (.binary _) => .operator
  | none =>
    match t.text.toList with
    | c :: _ => if c.isAlpha then .identifier else .number
    | [] => .number

end Token

end FormulaGrid
