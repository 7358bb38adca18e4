import Heightfield.Number.Binary64
/-!
# Scalars

Heights, limits, statistics and colours are computed with the same few operations,
whether the numbers are doubles or exact.  `Scalar` names those operations; everything
that is summarised or coloured is written over it, and runs on doubles.

A scalar may be infinite or not a number, and comparisons with what is not a number are
false, as for doubles.
-/

namespace Heightfield

class Scalar (α : Type) extends Add α, Sub α, Mul α, Div α, Neg α where
  /-- The scalar nearest to a quotient of integers. -/
  ofRatio : Int → Nat → α
  /-- The scalar nearest to `digits * 10 ^ exponent`. -/
  ofDecimal : Nat → Int → α
  nan : α
  infinity : α
  lt : α → α → Bool
  le : α → α → Bool
  isFinite : α → Bool
  isNaN : α → Bool
  /-- The greatest integer that is not greater, of a finite scalar. -/
  floor? : α → Option Int
  /-- The same as a scalar; what is not finite stays as it is. -/
  floor : α → α
  /-- The remainder with the sign of the divisor. -/
  mod : α → α → α

namespace Scalar

variable {α : Type} [Scalar α]

def ofInt (n : Int) : α := ofRatio n 1

def ofNat (n : Nat) : α := ofRatio n 1

instance : Inhabited α := ⟨nan⟩

/-- The integer that a scalar is, when it is one. -/
def toInt? (x : α) : Option Int :=
  (floor? x).bind fun n => if le x (ofInt n) then some n else none

def ceil? (x : α) : Option Int := (floor? (-x)).map (- ·)

def ceil (x : α) : α := -(floor (-x))

def isInfinite (x : α) : Bool := !isFinite x && !isNaN x

def isZero (x : α) : Bool := le x (ofInt 0) && le (ofInt 0) x

def isNegative (x : α) : Bool := lt x (ofInt 0)

/-- Equal as numbers; what is not a number equals nothing. -/
def eq (x y : α) : Bool := le x y && le y x

/-- The greater of two; not a number if one of them is not. -/
def max (x y : α) : α := if isNaN x then x else if isNaN y then y else if le y x then x else y

def min (x y : α) : α := if isNaN x then x else if isNaN y then y else if le x y then x else y

/-- The value moved into `[lower, upper]`. -/
def clamp (lower upper x : α) : α := min (max x lower) upper

/-- Minus one, zero or one; not a number stays so. -/
def sign (x : α) : α :=
  if isNaN x then x else if lt x (ofInt 0) then ofInt (-1) else if lt (ofInt 0) x then ofInt 1 else ofInt 0

/-- The double's or the exact value's magnitude. -/
def abs (x : α) : α := if lt x (ofInt 0) then -x else if isZero x then ofInt 0 else x

end Scalar

/-! ## Doubles -/

instance : Scalar Float where
  ofRatio := Binary64.ofRatio
  ofDecimal := Binary64.ofDecimal false
  nan := 0.0 / 0.0
  infinity := 1.0 / 0.0
  lt x y := decide (x < y)
  le x y := decide (x ≤ y)
  isFinite := Float.isFinite
  isNaN := Float.isNaN
  floor? x := (Binary64.ofFloat x).floor?
  floor := floorDouble
  mod := modDouble

end Heightfield
