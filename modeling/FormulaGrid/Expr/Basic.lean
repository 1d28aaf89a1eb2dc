import FormulaGrid.Token.Basic
import FormulaGrid.Variables

namespace FormulaGrid

/-- The tree of a formula.  A variable is found in the table by its slot; its name is for show. -/
inductive Expr where
  | const (value : Float)
  | var (name : String) (slot : Nat)
  | binary (op : Operator) (left right : Expr)
  deriving BEq, Repr

namespace Expr

def push (vs : Variables) (stack : List Expr) (t : Token) : Except Fault (List Expr) :=
  match t.kind with
  | .number =>
    match Number.parse? t.text with
    | some x => .ok (const x :: stack)
    | none => .error (.unsupportedToken t.text)
  | .identifier =>
    match vs.slot? t.text with
    | some slot => .ok (var t.text slot :: stack)
    | none => .error (.unknownVariable t.text)
  | .operator | .leftParen | .rightParen =>
    match stack with
    | right :: left :: rest => do
      let op ← Operator.ofText t.text
      return binary op left right :: rest
    | _ => .error (.insufficientOperands t.text)

def single : List Expr → Except Fault (Option Expr)
  | [] => .ok none
  | [e] => .ok (some e)
  | _ => .error .unbalancedExpression

/-- The expression that tokens in reverse Polish order stand for, none if there are no tokens.  The
names among them have to be in the table. -/
def ofReversePolish (tokens : List Token) (vs : Variables) : Except Fault (Option Expr) := do
  let stack ← tokens.foldlM (push vs) []
  single stack

end Expr

end FormulaGrid
