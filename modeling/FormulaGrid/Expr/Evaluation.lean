import FormulaGrid.Expr.Basic

/-! # Evaluation

An expression is evaluated from left to right under a table of variables.  What is still to be done
is kept on a stack of its own, so the depth of an expression is no limit.  The values found so far
are on a second stack, where an operator finds its operands, the right one on top.
-/

namespace FormulaGrid.Expr

/-- What is still to be done: an expression is visited, or an operator is applied to the two topmost
values. -/
inductive Step where
  | visit (e : Expr)
  | apply (op : Operator)

def size : Expr → Nat
  | const _ | var _ _ => 1
  | binary _ left right => size left + size right + 1

def Step.turns : Step → Nat
  | visit e => 2 * size e
  | apply _ => 1

def turns : List Step → Nat
  | [] => 0
  | step :: steps => step.turns + turns steps

def run (vs : Variables) : List Step → List Float → Except Fault Float
  | [], value :: _ => .ok value
  | [], [] => .error .emptyExpression
  | .visit (const x) :: steps, values => run vs steps (x :: values)
  | .visit (var _ slot) :: steps, values =>
    match vs.number slot with
    | .ok x => run vs steps (x :: values)
    | .error fault => .error fault
  | .visit (binary op left right) :: steps, values =>
    run vs (.visit left :: .visit right :: .apply op :: steps) values
  | .apply op :: steps, right :: left :: values => run vs steps (op.apply left right :: values)
  | .apply op :: _, _ => .error (.insufficientOperands op.text)
termination_by steps => turns steps
decreasing_by
  all_goals simp only [turns, Step.turns, size]
  all_goals omega

def evaluate (e : Expr) (vs : Variables) : Except Fault Float :=
  run vs [.visit e] []

end FormulaGrid.Expr
