import Heightfield.Formula.Function
/-!
# Expressions

What a formula means is an expression tree.  Nothing is simplified: `x - x` is a
difference and `2 ^ 3` a power.  Text can also be well formed and have no value
anywhere, such as a call of a function nobody defined; such an expression keeps its
operands, because their variables are variables of the formula.
-/

namespace Heightfield.Formula

inductive Expr where
  | int (n : Nat)
  /-- The decimal `digits * 10 ^ exponent`. -/
  | decimal (digits : Nat) (exponent : Int)
  | constant (c : Constant)
  | var (name : String)
  | neg (a : Expr)
  | apply (f : Function) (a : Expr)
  | binary (op : Operation) (a b : Expr)
  /-- A function nobody defined, or that cannot be called like this; its operands follow. -/
  | undefined (name : String)
  /-- Something without a value, and one more operand of it. -/
  | applied (f a : Expr)
  /-- A function that stands where a number should. -/
  | bare
  deriving DecidableEq, Repr

namespace Expr

instance : Inhabited Expr := ⟨int 0⟩

/-- A signed integer. -/
def ofInt (n : Int) : Expr := if n < 0 then neg (int n.natAbs) else int n.natAbs

/-- The integer that is written out, possibly behind minus signs. -/
def literal? : Expr → Option Int
  | int n => some n
  | neg a => a.literal?.map (- ·)
  | _ => none

/-- A number that is written out, or infinity, or not a number. -/
def isNumber : Expr → Bool
  | int _ | decimal _ _ => true
  | constant .infinity | constant .nan => true
  | neg a => a.isNumber
  | _ => false

/-- A written number that is zero. -/
def isZero : Expr → Bool
  | int n => n == 0
  | decimal d _ => d == 0
  | neg a => a.isZero
  | _ => false

/-- An expression behind a minus sign.  A written zero has no sign. -/
def opposite : Expr → Expr
  | decimal 0 e => decimal 0 e
  | e => neg e

/-! ## Variables -/

/-- The names of the variables, from left to right, with repetitions. -/
def names : Expr → List String
  | var name => [name]
  | neg a | apply _ a => a.names
  | binary _ a b | applied a b => a.names ++ b.names
  | _ => []

/-- Whether a function stands where a number should. -/
def hasBare : Expr → Bool
  | bare => true
  | neg a | apply _ a => a.hasBare
  | binary _ a b | applied a b => a.hasBare || b.hasBare
  | _ => false

/-- A text put into a sorted list; one that is there already is not repeated. -/
def insertName (s : String) : List String → List String
  | [] => [s]
  | t :: ts => if s < t then s :: t :: ts else if s = t then t :: ts else t :: insertName s ts

/-- The variables in increasing order, each once. -/
def freeVariables (e : Expr) : List String := e.names.foldr insertName []

/-! ## Products that cannot be formed -/

/-- The factors of a product, from left to right. -/
def factors : Expr → List Expr
  | binary .mul a b => a.factors ++ b.factors
  | binary .div a _ => a.factors
  | e => [e]

def isProduct : Expr → Bool
  | binary .mul _ _ | binary .div _ _ => true
  | _ => false

/-- Not a number, or its negative. -/
def isNaN : Expr → Bool
  | constant .nan => true
  | neg a => a.isNaN
  | _ => false

/-- Whether the first factor of a product is not a number. -/
def leadsWithNaN (e : Expr) : Bool := e.isProduct && (e.factors.head?.any isNaN)

/-- Whether some product begins with what is not a number; `inside` says that the
expression is a factor of a product already looked at, or stands behind a minus sign. -/
def hasLeadingNaN (inside : Bool) : Expr → Bool
  | neg a => a.hasLeadingNaN true
  | apply _ a => a.hasLeadingNaN false
  | binary .mul a b =>
    (!inside && leadsWithNaN (binary .mul a b)) || a.hasLeadingNaN true || b.hasLeadingNaN true
  | binary .div a b =>
    (!inside && leadsWithNaN (binary .div a b)) || a.hasLeadingNaN true || b.hasLeadingNaN false
  | binary .sub a b => a.hasLeadingNaN false || b.hasLeadingNaN true
  | binary _ a b | applied a b => a.hasLeadingNaN false || b.hasLeadingNaN false
  | _ => false

end Expr

end Heightfield.Formula
