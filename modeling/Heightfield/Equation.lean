import Heightfield.Text.Blank
/-!
# Equations

A user may type `z = x + y` or `f(x, y) = x + y` for `x + y`.  Only what follows the
first equals sign counts; a text without one is taken whole.
-/

namespace Heightfield

/-- Nothing but blanks follows the equals sign. -/
inductive EquationError where
  | emptyRightHandSide
  deriving DecidableEq, Repr

/-- The right-hand side of an equation, trimmed. -/
def rightHandSide (s : String) : Except EquationError String :=
  let t := trim s.toList
  match t.dropWhile (· != '=') with
  | [] => .ok (String.ofList t)
  | _ :: r => match trim r with
    | [] => .error .emptyRightHandSide
    | r => .ok (String.ofList r)

end Heightfield
