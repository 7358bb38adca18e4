import Heightfield.Number.Scalar
/-!
# Complex numbers

A complex number is a pair of scalars.  The arithmetic is that of pairs of doubles:
products are formed in full, so that signed zeros and what is not a number come out as
they do there, and a quotient is scaled by the larger part of the divisor.
-/

namespace Heightfield

structure Complex (α : Type) where
  re : α
  im : α
  deriving DecidableEq, Repr

namespace Complex

variable {α : Type} [Scalar α]

open Scalar

def ofReal (x : α) : Complex α := ⟨x, ofInt 0⟩

def add (z w : Complex α) : Complex α := ⟨z.re + w.re, z.im + w.im⟩

def sub (z w : Complex α) : Complex α := ⟨z.re - w.re, z.im - w.im⟩

def neg (z : Complex α) : Complex α := ⟨-z.re, -z.im⟩

def mul (z w : Complex α) : Complex α :=
  ⟨z.re * w.re - z.im * w.im, z.re * w.im + z.im * w.re⟩

def isZero (z : Complex α) : Bool := Scalar.isZero z.re && Scalar.isZero z.im

/-- The quotient, scaled by the larger part of the divisor. -/
def div (z w : Complex α) : Complex α :=
  if Scalar.le (Scalar.abs w.im) (Scalar.abs w.re) then
    if w.isZero then ⟨z.re / Scalar.abs w.re, z.im / Scalar.abs w.re⟩
    else
      let ratio := w.im / w.re
      let scale := ofInt 1 / (w.re + w.im * ratio)
      ⟨(z.re + z.im * ratio) * scale, (z.im - z.re * ratio) * scale⟩
  else
    let ratio := w.re / w.im
    let scale := ofInt 1 / (w.im + w.re * ratio)
    ⟨(z.re * ratio + z.im) * scale, (z.im * ratio - z.re) * scale⟩

def conj (z : Complex α) : Complex α := ⟨z.re, -z.im⟩

def isFinite (z : Complex α) : Bool := Scalar.isFinite z.re && Scalar.isFinite z.im

def hasNaN (z : Complex α) : Bool := Scalar.isNaN z.re || Scalar.isNaN z.im

/-- The natural power by repeated squaring, the factors taken from the lowest binary
digit of the exponent upwards. -/
def powNat (z : Complex α) (n : Nat) : Complex α := go z (ofReal (ofInt 1)) n
where
  go (square product : Complex α) (n : Nat) : Complex α :=
    if n = 0 then product
    else
      let product := if n % 2 = 1 then mul product square else product
      if n / 2 = 0 then product else go (mul square square) product (n / 2)
  termination_by n
  decreasing_by omega

/-- Whether `z` comes after `w`, or is it, in lexicographic order. -/
def lexGe (z w : Complex α) : Bool :=
  (lt w.re z.re && !isNaN z.im && !isNaN w.im) || (eq z.re w.re && le w.im z.im)

def lexMax (z w : Complex α) : Complex α :=
  if z.hasNaN then z else if w.hasNaN then w else if lexGe z w then z else w

def lexMin (z w : Complex α) : Complex α :=
  if z.hasNaN then z else if w.hasNaN then w else if lexGe w z then z else w

end Complex

end Heightfield
