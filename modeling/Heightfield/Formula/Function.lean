import Heightfield.Number.Elementary
/-!
# The functions of formulas

A formula is built from functions of one operand and operations on two.  The
arithmetic signs are operations like `mod` and `max`; they differ only in how they are
written.
-/

namespace Heightfield.Formula

/-- A function of one operand. -/
inductive Function where
  | elementary (f : Elementary)
  | sec | csc | cot
  | asec | acsc | acot
  | cbrt | abs | sign
  | floor | ceil | round
  | factorial
  /-- The product of every second number down from the operand. -/
  | doubleFactorial
  | conj | arg | re | im
  deriving DecidableEq, Repr

/-- An operation on two operands. -/
inductive Operation where
  | add | sub | mul | div | pow
  | mod | atan2 | gcd | lcm | min | max
  /-- The logarithm of the first operand to the base of the second. -/
  | log
  deriving DecidableEq, Repr

/-- A constant with a name of its own. -/
inductive Constant where
  | pi | euler | imaginary | infinity | nan
  deriving DecidableEq, Repr

end Heightfield.Formula
