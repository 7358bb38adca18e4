import Heightfield.Formula.Arithmetic
import Heightfield.Formula.Function
/-!
# Functions of values

What the named functions and operations do on values.  Most take real numbers to computed
real numbers and complex ones to computed complex ones.  Rounding functions keep integers,
and a few operations exist on the real axis only: off it, they are not a number.
-/

namespace Heightfield.Formula

namespace Value

variable {α : Type} [Analytic α]

open Scalar (ofInt)

def analytic (f : Elementary) : Value α → Option (Value α)
  | complex _ z => some (computedComplex (Analytic.applyComplex f z))
  | v => v.argument?.map fun x => computed (Analytic.apply f x)

def one : Value α := int 1

/-! ## Rounding -/

/-- A function that rounds a real number applied to both parts of a complex one. -/
def componentwise (f : α → α) (z : Complex α) : Complex α :=
  (Complex.ofReal (f z.re)).add ((⟨ofInt 0, ofInt 1⟩ : Complex α).mul (.ofReal (f z.im)))

/-- The integer as a word, when it is one. -/
def toWord (n : Int) : Value α := if fitsUnsigned n then word n else int n

/-- A rounding function that leaves integers as they are. -/
def rounded (f : α → α) : Value α → Value α
  | int n => toWord n
  | word n => word n
  | real _ x => computed (f x)
  | complex _ z => computedComplex (componentwise f z)

/-- The nearest integer, a half away from zero. -/
def roundHalfAway (x : α) : α :=
  Scalar.sign x * Scalar.floor (Scalar.abs x + Scalar.ofRatio 1 2)

def round : Value α → Option (Value α)
  | complex _ z => some (computedComplex (componentwise roundHalfAway z))
  | v => v.toReal?.map fun (_, x) => computed (roundHalfAway x)

/-! ## Sign and modulus -/

/-- The direction of a complex number: one of length one, except that zero has none. -/
def direction (z : Complex α) : Complex α :=
  let m := Analytic.hypot z.re z.im
  if Scalar.isFinite m then
    if Scalar.isZero m then .ofReal (ofInt 0) else ⟨z.re / m, z.im / m⟩
  else if Scalar.isNaN m then ⟨Scalar.nan, Scalar.nan⟩
  else match Scalar.isInfinite z.re, Scalar.isInfinite z.im with
    | true, true => ⟨Scalar.nan, Scalar.nan⟩
    | true, false => ⟨Scalar.sign z.re, ofInt 0⟩
    | false, _ => ⟨ofInt 0, Scalar.sign z.im⟩

def sign : Value α → Value α
  | int n => toWord n.sign
  | word n => word n.sign
  | real _ x => computed (Scalar.sign x)
  | complex _ z => computedComplex (direction z)

def abs : Value α → Option (Value α)
  | int n => some (int n.natAbs)
  | word n => some (word (wrap n.natAbs))
  | real o x => some (real o (Scalar.abs x))
  | complex o z =>
    let m := Analytic.hypot z.re z.im
    if o = .written && z.isFinite && !Scalar.isFinite m then none else some (real o m)

/-! ## Parts of complex numbers -/

def conj : Value α → Value α
  | int n => toWord n
  | word n => word n
  | real _ x => computed x
  | complex _ z => computedComplex z.conj

def arg : Value α → Option (Value α)
  | complex _ z => some (computed (Analytic.atan2 z.im z.re))
  | v => v.argument?.map fun x => computed (Analytic.atan2 (ofInt 0) x)

def re : Value α → Value α
  | complex o z => real o z.re
  | v => v

def im : Value α → Value α
  | int _ => int 0
  | word _ => word 0
  | real o _ => real o (ofInt 0)
  | complex o z => real o z.im

/-! ## Factorials -/

def gamma (v : Value α) : Option (Value α) := analytic .gamma v

def factorial (v : Value α) : Option (Value α) := (add v one).bind gamma

/-! ## Operations on the real axis -/

/-- The number of a value on the real axis; not a number off it. -/
def onAxis (v : Value α) : Option α :=
  match v with
  | complex _ z => some (if Scalar.isZero z.im then z.re else Scalar.nan)
  | v => v.toReal?.map (·.2)

/-- A remainder of integers has the sign of the divisor.  Modulo zero a word is zero, and
a longer integer has no remainder. -/
def modInt (a b : Int) : Option (Value α) :=
  if fitsUnsigned a && fitsUnsigned b then
    some (computed (ofInt (if b = 0 then 0 else a.fmod b)))
  else if b = 0 then none
  else some (int (a.fmod b))

def mod (v w : Value α) : Option (Value α) :=
  match v, w with
  | int a, int b | int a, word b | word a, int b | word a, word b => modInt a b
  | v, w => (onAxis v).bind fun x => (onAxis w).map fun y => computed (Scalar.mod x y)

def atan2 (v w : Value α) : Option (Value α) :=
  let side : Value α → Option α
    | complex o z => onAxis (complex o z)
    | v => v.argument?
  (side v).bind fun y => (side w).map fun x => computed (Analytic.atan2 y x)

/-- The integer that an integral number is cast to: itself if it is a word, else the least
word. -/
def castInt (n : Int) : Int := if fits n then n else leastWord

/-- An operation on words, given integral numbers on the real axis. -/
def onIntegers (f : Int → Int → Int) (v w : Value α) : Option (Value α) :=
  (onAxis v).bind fun x => (onAxis w).map fun y =>
    match Scalar.toInt? x, Scalar.toInt? y with
    | some a, some b => computed (ofInt (wrap (f (castInt a) (castInt b))))
    | _, _ => computed Scalar.nan

def gcd (v w : Value α) : Option (Value α) := onIntegers (fun a b => Int.gcd a b) v w

/-- The least common multiple; a product that is no word wraps around. -/
def lcm (v w : Value α) : Option (Value α) :=
  onIntegers (fun a b => if Int.gcd a b = 0 then 0 else a.natAbs / Int.gcd a b * b.natAbs) v w

/-! ## Extrema and logarithms -/

/-- Integers that are words give a word; longer ones stay exact. -/
def chosenInt (f : Int → Int → Int) (a b : Int) : Value α :=
  if fits a && fits b then word (f a b) else int (f a b)

def extremum (ints : Int → Int → Int) (reals : α → α → α)
    (complexes : Complex α → Complex α → Complex α) (v w : Value α) : Option (Value α) :=
  (unify v w).map fun
    | .ints a b => chosenInt ints a b
    | .words a b => word (ints a b)
    | .reals _ x y => computed (reals x y)
    | .complexes _ z u => computedComplex (complexes z u)

def min (v w : Value α) : Option (Value α) :=
  extremum (fun a b => if a ≤ b then a else b) Scalar.min Complex.lexMin v w

def max (v w : Value α) : Option (Value α) :=
  extremum (fun a b => if b ≤ a then a else b) Scalar.max Complex.lexMax v w

/-- The logarithm to a base. -/
def logBase (v base : Value α) : Option (Value α) :=
  (analytic .log v).bind fun a => (analytic .log base).bind (div a)

/-! ## Double factorials -/

/-- The longest double factorial that is formed exactly. -/
def maxDoubleFactorial : Nat := 10000

/-- `n * (n - 2) * (n - 4) * …`, down to one or two. -/
def doubleFactorialNat : Nat → Nat
  | 0 => 1
  | 1 => 1
  | n + 2 => (n + 2) * doubleFactorialNat n

/-- The factor by which the gamma function is corrected: one for even numbers, the root of
`2 / π` for odd ones. -/
def doubleFactorialFactor (v : Value α) : Option (Value α) :=
  (mod v (int 2)).map fun
    | real _ r =>
      if Scalar.isZero r then one
      else if Scalar.eq r (ofInt 1) then
        computed (Analytic.apply .sqrt (ofInt 2 / Analytic.pi))
      else computed Scalar.nan
    | _ => computed Scalar.nan

def doubleFactorial (v : Value α) : Option (Value α) :=
  match v with
  | int (.ofNat n) =>
    if n ≤ maxDoubleFactorial then some (int (doubleFactorialNat n)) else none
  | v => do
    let half ← div v (int 2)
    let power ← pow (int 2) half
    let g ← (add half one).bind gamma
    let factor ← doubleFactorialFactor v
    (mul power g).bind (mul · factor)

end Value

/-! ## By name -/

open Value

variable {α : Type} [Analytic α]

def Function.eval (f : Function) (v : Value α) : Option (Value α) :=
  match f with
  | .elementary f => analytic f v
  | .sec => (analytic .cos v).bind (div one)
  | .csc => (analytic .sin v).bind (div one)
  | .cot => (analytic .tan v).bind (div one)
  | .asec => (div one v).bind (analytic .acos)
  | .acsc => (div one v).bind (analytic .asin)
  | .acot => (div one v).bind (analytic .atan)
  | .cbrt => match v with
    | .complex _ z => some (computedComplex (powComplex z (.ofReal (Scalar.ofRatio 1 3))))
    | v => v.argument?.map fun x => computed (Analytic.cbrt x)
  | .abs => Value.abs v
  | .sign => some (Value.sign v)
  | .floor => some (rounded Scalar.floor v)
  | .ceil => some (rounded Scalar.ceil v)
  | .round => Value.round v
  | .factorial => Value.factorial v
  | .doubleFactorial => Value.doubleFactorial v
  | .conj => some (Value.conj v)
  | .arg => Value.arg v
  | .re => some (Value.re v)
  | .im => some (Value.im v)

def Operation.eval (op : Operation) (v w : Value α) : Option (Value α) :=
  match op with
  | .add => Value.add v w
  | .sub => Value.sub v w
  | .mul => Value.mul v w
  | .div => Value.div v w
  | .pow => Value.pow v w
  | .mod => Value.mod v w
  | .atan2 => Value.atan2 v w
  | .gcd => Value.gcd v w
  | .lcm => Value.lcm v w
  | .min => Value.min v w
  | .max => Value.max v w
  | .log => logBase v w

def Constant.eval : Constant → Value α
  | .pi => .real .written Analytic.pi
  | .euler => .real .written Analytic.euler
  | .imaginary => .complex .written ⟨Scalar.ofInt 0, Scalar.ofInt 1⟩
  | .infinity => .real .written Scalar.infinity
  | .nan => .real .written Scalar.nan

end Heightfield.Formula
