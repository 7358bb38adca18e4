import Heightfield.Formula.Apply
import Heightfield.Formula.Compile
/-!
# Evaluating formulas at points

An expression has a value where its variables have values and nothing in it fails.  A point
`(x, y)` gives the variables of the mode their values; in the complex plane `x` and `y` are
complex numbers too, so that a root of a negative `x` is a number there.

The outcome of a formula at a point is a number or a pair of numbers.  Every failure, and
every result of the wrong sort or that is not finite, is not a number.
-/

namespace Heightfield

variable {α : Type} [Analytic α]

namespace Formula

/-- The values of variables. -/
abbrev Environment (α : Type) := String → Option (Value α)

/-- The value of an expression, or none where a step of it fails. -/
def Expr.eval (env : Environment α) : Expr → Option (Value α)
  | .int n => some (.int n)
  | .decimal d e => some (.real .written (Scalar.ofDecimal d e))
  | .constant c => some c.eval
  | .var name => env name
  | .neg a => (a.eval env).map Value.neg
  | .apply f a => (a.eval env).bind f.eval
  | .binary op a b => (a.eval env).bind fun v => (b.eval env).bind fun w => op.eval v w
  | .undefined _ | .applied _ _ | .bare => none

/-! ## Points -/

/-- `x + iy`, computed on complex numbers. -/
def planePoint (x y : α) : Complex α :=
  (Complex.ofReal x).add ((⟨Scalar.ofInt 0, Scalar.ofInt 1⟩ : Complex α).mul (.ofReal y))

/-- The values that a point gives to the variables of a mode. -/
def environment (mode : Mode) (x y : α) : Environment α := fun name =>
  match mode with
  | .real =>
    if name = "x" then some (.computed x)
    else if name = "y" then some (.computed y)
    else none
  | .complex =>
    if name = "x" then some (.computedComplex (.ofReal x))
    else if name = "y" then some (.computedComplex (.ofReal y))
    else if name = "z" then some (.computedComplex (planePoint x y))
    else none

/-- The value of a formula at a point. -/
def value? (f : Formula) (x y : α) : Option (Value α) := f.expr.eval (environment f.mode x y)

/-! ## Outcomes -/

def Value.notANumber : Complex α := ⟨Scalar.nan, Scalar.nan⟩

/-- A scalar, or not a number if it is not finite. -/
def Value.finiteOrNaN (x : α) : α := if Scalar.isFinite x then x else Scalar.nan

/-- A scalar as a complex number, or not a number if it is not finite. -/
def Value.finiteReal (x : α) : Complex α := if Scalar.isFinite x then .ofReal x else Value.notANumber

/-- A complex number, or not a number if one of its parts is not finite. -/
def Value.finiteComplex (z : Complex α) : Complex α := if z.isFinite then z else Value.notANumber

/-- The height that a value stands for: its number if it is real and finite. -/
def Value.realOutcome : Option (Value α) → α
  | some (.int n) | some (.word n) => Value.finiteOrNaN (Scalar.ofInt n)
  | some (.real _ x) => Value.finiteOrNaN x
  | some (.complex _ _) | none => Scalar.nan

/-- The complex number that a value stands for, if both parts are finite. -/
def Value.complexOutcome : Option (Value α) → Complex α
  | some (.int n) | some (.word n) => Value.finiteReal (Scalar.ofInt n)
  | some (.real _ x) => Value.finiteReal x
  | some (.complex _ z) => Value.finiteComplex z
  | none => Value.notANumber

end Formula

/-- A formula was compiled for another mode than the one asked for. -/
structure WrongMode where
  asked : Mode
  deriving DecidableEq, Repr

def WrongMode.message (e : WrongMode) : String :=
  "evaluate_" ++ e.asked.name ++ " needs an expression compiled in " ++ e.asked.name ++ " mode"

namespace Formula

/-- The outcome at a point of the real plane. -/
def evaluateReal (f : Formula) (x y : α) : Except WrongMode α :=
  if f.mode = .real then .ok (Value.realOutcome (f.value? x y)) else .error ⟨.real⟩

/-- The outcome at the point `x + iy` of the complex plane. -/
def evaluateComplex (f : Formula) (x y : α) : Except WrongMode (Complex α) :=
  if f.mode = .complex then .ok (Value.complexOutcome (f.value? x y)) else .error ⟨.complex⟩

/-- What a formula gives at one point: a height, or a complex number. -/
inductive Outcome (α : Type) where
  | height (x : α)
  | number (z : Complex α)

/-- The outcome at a point, by the formula's own mode. -/
def outcome (f : Formula) (x y : α) : Outcome α :=
  match f.mode with
  | .real => .height (Value.realOutcome (f.value? x y))
  | .complex => .number (Value.complexOutcome (f.value? x y))

end Formula

end Heightfield
