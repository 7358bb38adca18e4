import Heightfield.Formula.Value
/-!
# Arithmetic on values

Sums, differences, products, quotients and powers.  Two exact integers give an exact
integer, except that a quotient, and a power with a negative exponent, is real.
-/

namespace Heightfield.Formula

namespace Value

variable {α : Type} [Analytic α]

open Scalar (ofInt)

def add (v w : Value α) : Option (Value α) :=
  (unify v w).map fun
    | .ints a b => int (a + b)
    | .words a b => word (wrap (a + b))
    | .reals o x y => real o (x + y)
    | .complexes o z u => complex o (z.add u)

def sub (v w : Value α) : Option (Value α) :=
  (unify v w).map fun
    | .ints a b => int (a - b)
    | .words a b => word (wrap (a - b))
    | .reals o x y => real o (x - y)
    | .complexes o z u => complex o (z.sub u)

def mul (v w : Value α) : Option (Value α) :=
  (unify v w).map fun
    | .ints a b => int (a * b)
    | .words a b => word (wrap (a * b))
    | .reals o x y => real o (x * y)
    | .complexes o z u => complex o (z.mul u)

def neg : Value α → Value α
  | int n => int (-n)
  | word n => word (wrap (-n))
  | real o x => real o (-x)
  | complex o z => complex o z.neg

/-! ## Quotients -/

/-- The quotient of two integers, rounded once; none for a zero divisor or a quotient that
is too large. -/
def ratio (a b : Int) : Option (Value α) :=
  if b = 0 then none
  else
    let x : α := if b < 0 then (if a = 0 then -ofInt 0 else Scalar.ofRatio (-a) b.natAbs)
      else Scalar.ofRatio a b.natAbs
    if Scalar.isFinite x then some (real .written x) else none

def div (v w : Value α) : Option (Value α) :=
  (unify v w).bind fun
    | .ints a b => ratio a b
    | .words a b => some (computed (ofInt a / ofInt b))
    | .reals o x y => if o = .written && Scalar.isZero y then none else some (real o (x / y))
    | .complexes o z u => if o = .written && u.isZero then none else some (complex o (z.div u))

/-! ## Powers -/

/-- The length in bits from which on a power of integers is not formed. -/
def maxBits : Nat := 1 <<< 24

/-- The exact power of an integer; none if it would be too long to form. -/
def powInt (a : Int) (n : Nat) : Option Int :=
  if a.natAbs ≤ 1 then some (if n = 0 then 1 else if n % 2 = 0 then a * a else a)
  else if n * (Nat.log2 a.natAbs + 1) ≤ maxBits then some (Int.pow a n)
  else none

/-- The power of a word, computed on words. -/
def powWord (a : Int) (n : Nat) : Int := go a 1 n
where
  go (square product : Int) (n : Nat) : Int :=
    if n = 0 then product
    else go (wrap (square * square)) (if n % 2 = 1 then wrap (product * square) else product) (n / 2)
  termination_by n
  decreasing_by omega

/-- A complex power.  The zeroth power is one and a positive power of zero is zero; a
whole exponent below one hundred in magnitude multiplies. -/
def powComplex (z w : Complex α) : Complex α :=
  let one : Complex α := .ofReal (ofInt 1)
  if w.isZero then one
  else if z.isZero then
    if Scalar.lt (ofInt 0) w.re then .ofReal (ofInt 0) else ⟨Scalar.nan, Scalar.nan⟩
  else match if Scalar.isZero w.im then Scalar.toInt? w.re else none with
    | some n =>
      if n.natAbs < 100 then
        let p := z.powNat n.natAbs
        if n < 0 then one.div p else p
      else Analytic.powComplex z w
    | none => Analytic.powComplex z w

/-- A complex power of computed numbers.  The first three natural powers are products of the
base alone, so that the signs of its zeros count. -/
def powComplexComputed (z w : Complex α) : Complex α :=
  if z.isZero || !Scalar.isZero w.im then powComplex z w
  else match Scalar.toInt? w.re with
    | some 1 => z
    | some 2 => z.mul z
    | some 3 => z.mul (z.mul z)
    | _ => powComplex z w

/-- A complex power of written numbers: zero has no negative and no complex power, and the
result must not overflow. -/
def powComplexWritten (z w : Complex α) : Option (Value α) :=
  if !w.isZero && z.isZero && (Scalar.lt w.re (ofInt 0) || !Scalar.isZero w.im) then none
  else
    let p := powComplex z w
    if p.isFinite || !(z.isFinite && w.isFinite) then some (complex .written p) else none

/-- A real power of written numbers: zero has no negative power, a broken power of a
negative number is complex, and the result must not overflow. -/
def powRealWritten (x y : α) : Option (Value α) :=
  let finite := Scalar.isFinite x && Scalar.isFinite y
  if finite && Scalar.isZero x && Scalar.lt y (ofInt 0) then none
  else if finite && Scalar.lt x (ofInt 0) && (Scalar.toInt? y).isNone then
    powComplexWritten (.ofReal x) (.ofReal y)
  else
    let p := Analytic.pow x y
    if Scalar.isFinite p || !finite then some (real .written p) else none

def powReal (o : Origin) (x y : α) : Option (Value α) :=
  if o = .written then powRealWritten x y else some (computed (Analytic.pow x y))

def pow (v w : Value α) : Option (Value α) :=
  (unify v w).bind fun
    | .ints a b =>
      if 0 ≤ b then (powInt a b.toNat).map int
      else (scalar? a).bind fun x => (scalar? b).bind fun y => powReal .written x y
    | .words a b =>
      if 0 ≤ b then some (word (powWord a b.toNat))
      else powReal .computed (ofInt a) (ofInt b)
    | .reals o x y => powReal o x y
    | .complexes o z u =>
      if o = .written then powComplexWritten z u else some (complex o (powComplexComputed z u))

end Value

end Heightfield.Formula
