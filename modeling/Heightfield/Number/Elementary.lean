import Heightfield.Number.Complex
/-!
# Elementary functions

Functions of analysis that formulas may call, on scalars and on complex numbers, and the
class of scalars that have them.
-/

namespace Heightfield

inductive Elementary where
  | sin | cos | tan | asin | acos | atan
  | sinh | cosh | tanh | asinh | acosh | atanh
  | exp | log | log10 | log2 | sqrt
  /-- Euler's function, the factorial moved by one. -/
  | gamma
  deriving DecidableEq, Repr

/-- Scalars with the elementary functions, on themselves and on complex numbers. -/
class Analytic (α : Type) extends Scalar α where
  apply : Elementary → α → α
  applyComplex : Elementary → Complex α → Complex α
  cbrt : α → α
  pow : α → α → α
  /-- A complex power that is no small integer power. -/
  powComplex : Complex α → Complex α → Complex α
  hypot : α → α → α
  /-- The angle of the point `(x, y)`, given `y` first. -/
  atan2 : α → α → α
  pi : α
  euler : α

end Heightfield
