import Heightfield.Number.Elementary
/-!
# Values

While a formula is evaluated its values are of four sorts.  Integers that are written in
the formula, and sums, products and powers of them, are exact and unbounded.  Functions of
integers that give integers give *words*, signed integers of 64 bits.  Everything else is a
real or a complex number.

A real or complex value remembers whether it comes from written numbers alone.  Arithmetic
on written values is strict: a division by zero, or a power that overflows, has no value
at all.  On computed values it goes on with infinities and what is not a number.
-/

namespace Heightfield.Formula

inductive Origin where
  | written | computed
  deriving DecidableEq, Repr

namespace Origin

/-- Two written values give a written one. -/
def join : Origin → Origin → Origin
  | written, written => written
  | _, _ => computed

end Origin

inductive Value (α : Type) where
  | int (n : Int)
  | word (n : Int)
  | real (origin : Origin) (x : α)
  | complex (origin : Origin) (z : Complex α)
  deriving DecidableEq, Repr

/-- Two values of one sort. -/
inductive Pair (α : Type) where
  | ints (a b : Int)
  | words (a b : Int)
  | reals (origin : Origin) (x y : α)
  | complexes (origin : Origin) (z w : Complex α)

namespace Value

variable {α : Type} [Scalar α]

/-! ## Words -/

/-- How many words there are: `2 ^ 64`. -/
def wordCount : Nat := 0x10000000000000000

def leastWord : Int := -0x8000000000000000

def greatestWord : Int := 0x7FFFFFFFFFFFFFFF

/-- Whether an integer is a word. -/
def fits (n : Int) : Bool := leastWord ≤ n && n ≤ greatestWord

/-- Whether an integer is a word, with a sign or without. -/
def fitsUnsigned (n : Int) : Bool := leastWord ≤ n && n < wordCount

/-- The word that equals an integer modulo the number of words. -/
def wrap (n : Int) : Int := n.bmod wordCount

theorem fits_wrap (n : Int) : fits (wrap n) = true := by
  have h₁ := Int.le_bmod (x := n) (m := wordCount) (by decide)
  have h₂ := Int.bmod_lt (x := n) (m := wordCount) (by decide)
  have h₃ : leastWord ≤ wrap n := by simp only [wrap, leastWord, wordCount] at *; omega
  have h₄ : wrap n ≤ greatestWord := by simp only [wrap, greatestWord, wordCount] at *; omega
  rw [fits, Bool.and_eq_true, decide_eq_true_iff, decide_eq_true_iff]
  exact ⟨h₃, h₄⟩

/-! ## Conversions -/

/-- The scalar of an integer; none if it is too large. -/
def scalar? (n : Int) : Option α :=
  let x : α := Scalar.ofInt n
  if Scalar.isFinite x then some x else none

/-- A value on the real line, as a scalar. -/
def toReal? : Value α → Option (Origin × α)
  | int n => (scalar? n).map fun x => (.written, x)
  | word n => some (.computed, Scalar.ofInt n)
  | real o x => some (o, x)
  | complex _ _ => none

def toComplex? : Value α → Option (Origin × Complex α)
  | complex o z => some (o, z)
  | v => v.toReal?.map fun (o, x) => (o, .ofReal x)

/-- The scalar that a function of real numbers is given; none for an integer that is no
word. -/
def argument? : Value α → Option α
  | int n => if fitsUnsigned n then some (Scalar.ofInt n) else none
  | word n => some (Scalar.ofInt n)
  | real _ x => some x
  | complex _ _ => none

/-- Two values made one sort: the wider of theirs.  An exact integer must be a word to
meet one. -/
def unify (v w : Value α) : Option (Pair α) :=
  match v, w with
  | int a, int b => some (.ints a b)
  | word a, word b => some (.words a b)
  | int a, word b => if fits a then some (.words a b) else none
  | word a, int b => if fits b then some (.words a b) else none
  | complex o z, w => w.toComplex?.map fun (p, u) => .complexes (o.join p) z u
  | v, complex p u => v.toComplex?.map fun (o, z) => .complexes (o.join p) z u
  | v, w => v.toReal?.bind fun (o, x) => w.toReal?.map fun (p, y) => .reals (o.join p) x y

def computed (x : α) : Value α := real .computed x

def computedComplex (z : Complex α) : Value α := complex .computed z

end Value

end Heightfield.Formula
