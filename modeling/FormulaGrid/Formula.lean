import FormulaGrid.Token.Scan
import FormulaGrid.Token.ReversePolish
import FormulaGrid.Expr.Evaluation

namespace FormulaGrid

/-- A parsed formula.  The expression is missing if the formula has no operands. -/
structure Formula where
  text : String
  tokens : List Token
  reversePolish : List Token
  vars : Variables
  root : Option Expr
  deriving BEq, Repr

namespace Formula

def namesOf (tokens : List Token) : List String :=
  (tokens.filter fun t => t.kind == .identifier).map Token.text

def parse (text : String) : Except Fault Formula := do
  let tokens ← Token.scan text
  let vars := Variables.ofNames (namesOf tokens)
  let reversePolish ← Token.reversePolish tokens
  let root ← Expr.ofReversePolish reversePolish vars
  return { text, tokens, reversePolish, vars, root }

def setVariable (f : Formula) (name value : String) : Except Fault Formula := do
  let vars ← f.vars.set name value
  return { f with vars }

def evaluate (f : Formula) : Except Fault Float :=
  match f.root with
  | some e => e.evaluate f.vars
  | none => .error .emptyExpression

/-- The value of a formula whose variables are all zero. -/
def valueOf (text : String) : Except Fault Float := do
  let f ← parse text
  f.evaluate

end Formula

end FormulaGrid
