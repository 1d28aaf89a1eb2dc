import FormulaGrid.Address.Basic

namespace FormulaGrid

inductive Fault where
  | unsupportedToken (fragment : String)
  | unmatchedParenthesis
  /-- A parenthesis is never closed, or operands are left without an operator. -/
  | unbalancedExpression
  | insufficientOperands (symbol : String)
  | unsupportedOperator (symbol : String)
  | unknownVariable (name : String)
  | unboundSlot (slot : Nat)
  | invalidNumber (name value : String)
  | emptyExpression
  | circularReference (cell : Address)
  | cascadeTooDeep (limit : Nat)
  | invalidDimensions (rows columns : Nat)
  | outOfBounds (row column : Nat)
  | invalidAddress (text : String)
  deriving DecidableEq, Repr

def Fault.quote (text : String) : String :=
  "'" ++ text ++ "'"

def Fault.message : Fault → String
  | .unsupportedToken fragment => "unsupported token " ++ quote fragment
  | .unmatchedParenthesis => "no matching '(' for ')'"
  | .unbalancedExpression => "unbalanced expression"
  | .insufficientOperands symbol => "not enough operands for operator " ++ quote symbol
  | .unsupportedOperator symbol => "unsupported operator " ++ quote symbol
  | .unknownVariable name => "unknown variable " ++ quote name
  | .unboundSlot slot => "no variable in slot " ++ toString slot
  | .invalidNumber name value =>
    "value " ++ quote value ++ " of " ++ quote name ++ " is not a number"
  | .emptyExpression => "empty expression"
  | .circularReference cell => "circular reference through " ++ cell.name
  | .cascadeTooDeep limit => "recalculation cascade deeper than " ++ toString limit ++ " cells"
  | .invalidDimensions rows columns =>
    "invalid grid dimensions " ++ toString rows ++ "x" ++ toString columns
  | .outOfBounds row column =>
    "cell (" ++ toString row ++ ", " ++ toString column ++ ") is out of bounds"
  | .invalidAddress text => "invalid cell address " ++ quote text

end FormulaGrid
