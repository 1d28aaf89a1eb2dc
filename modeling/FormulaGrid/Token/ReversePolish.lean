import FormulaGrid.Token.Basic

/-! # Reverse Polish order

Operands keep their places, and an operator goes behind its operands.  The operators that wait for
their right operand are kept on a stack, together with the parentheses that are still open.  An
operator sends out the waiting operators that bind at least as tightly, which makes all of them
associate to the left; a closing parenthesis sends out everything down to its opening one.
-/

namespace FormulaGrid.Token

/-- The tokens already put in order, the last of them first, and the tokens that wait, the last of
them on top. -/
structure Yard where
  output : List Token := []
  waiting : List Token := []

namespace Yard

def opensGroup (t : Token) : Bool :=
  t.symbol? == some .leftParen

def goesBefore (op : Operator) (t : Token) : Bool :=
  match t.symbol? with
  | some symbol => op.precedence ≤ symbol.precedence
  | none => false

def sendWhile (p : Token → Bool) (y : Yard) : Yard :=
  { output := (y.waiting.takeWhile p).reverse ++ y.output
    waiting := y.waiting.dropWhile p }

def accept (y : Yard) (t : Token) : Except Fault Yard :=
  match t.symbol? with
  | none => .ok { y with output := t :: y.output }
  | some .leftParen => .ok { y with waiting := t :: y.waiting }
  | some .rightParen =>
    let sent := y.sendWhile fun w => !opensGroup w
    match sent.waiting with
    | [] => .error .unmatchedParenthesis
    | _ :: below => .ok { sent with waiting := below }
  | some (.binary op) =>
    let sent := y.sendWhile (goesBefore op)
    .ok { sent with waiting := t :: sent.waiting }

/-- Ends the formula: what still waits goes out, unless a group is still open. -/
def close (y : Yard) : Except Fault (List Token) :=
  if y.waiting.any opensGroup then
    .error .unbalancedExpression
  else
    .ok (y.output.reverse ++ y.waiting)

end Yard

def reversePolish (tokens : List Token) : Except Fault (List Token) := do
  let yard ← tokens.foldlM Yard.accept {}
  yard.close

end FormulaGrid.Token
