import Heightfield.Formula.Function
import Heightfield.Vocabulary
/-!
# What names stand for

A name of the vocabulary before an opening parenthesis calls something.  Most callees
take a fixed number of operands and refuse any other.  Those marked lenient are read with
any number; with a wrong one the call has no value.  Besides the functions of the
vocabulary a few constructors of numbers and products are known by name.
-/

namespace Heightfield.Formula

/-- What a call calls. -/
inductive Callee where
  | function (f : Function)
  | lenient (f : Function)
  | lenientPair (op : Operation)
  | logarithm
  | root
  | power
  /-- The greatest or the least of any number of operands. -/
  | extremum (op : Operation)
  /-- A sum or product of any number of operands, with its value for none. -/
  | chain (op : Operation) (unit : Nat)
  | integer
  | ratio
  | decimal
  | symbol
  /-- Makes a function nobody defined. -/
  | maker
  | undefined (name : String)
  deriving DecidableEq, Repr

def callees : List (String × Callee) :=
  [("sin", .function (.elementary .sin)), ("cos", .function (.elementary .cos)),
   ("tan", .function (.elementary .tan)), ("asin", .function (.elementary .asin)),
   ("acos", .function (.elementary .acos)), ("atan", .function (.elementary .atan)),
   ("sinh", .function (.elementary .sinh)), ("cosh", .function (.elementary .cosh)),
   ("tanh", .function (.elementary .tanh)), ("asinh", .function (.elementary .asinh)),
   ("acosh", .function (.elementary .acosh)), ("atanh", .function (.elementary .atanh)),
   ("sec", .function .sec), ("csc", .function .csc), ("cot", .function .cot),
   ("asec", .function .asec), ("acsc", .function .acsc), ("acot", .function .acot),
   ("exp", .function (.elementary .exp)), ("log", .logarithm), ("ln", .logarithm),
   ("log10", .lenient (.elementary .log10)), ("log2", .lenient (.elementary .log2)),
   ("sqrt", .root), ("cbrt", .lenient .cbrt), ("abs", .function .abs),
   ("ceil", .lenient .ceil), ("floor", .lenient .floor), ("round", .lenient .round),
   ("sign", .function .sign), ("pow", .power),
   ("min", .extremum .min), ("max", .extremum .max),
   ("mod", .lenientPair .mod), ("atan2", .lenientPair .atan2), ("gcd", .lenientPair .gcd),
   ("lcm", .lenientPair .lcm), ("factorial", .lenient .factorial),
   ("conj", .function .conj), ("arg", .function .arg), ("real", .function .re),
   ("imag", .function .im), ("re", .function .re), ("im", .function .im),
   ("Add", .chain .add 0), ("Mul", .chain .mul 1), ("Pow", .power), ("Integer", .integer),
   ("Rational", .ratio), ("Float", .decimal), ("Symbol", .symbol), ("Function", .maker),
   ("factorial2", .function .doubleFactorial)]

def callee? (name : String) : Option Callee := (callees.find? (·.1 = name)).map (·.2)

/-- Every function of the vocabulary can be called. -/
theorem callee?_isSome_of_mem_functionNames :
    ∀ f ∈ functionNames, (callee? f).isSome := by decide +kernel

/-- The value of a name that is a constant: a constant proper, or a truth value that
takes part in arithmetic as zero or one. -/
def constants : List (String × Sum Constant Nat) :=
  [("pi", .inl .pi), ("PI", .inl .pi), ("e", .inl .euler), ("E", .inl .euler),
   ("i", .inl .imaginary), ("Infinity", .inl .infinity), ("NaN", .inl .nan),
   ("true", .inr 1), ("false", .inr 0)]

def constant? (name : String) : Option (Sum Constant Nat) :=
  (constants.find? (·.1 = name)).map (·.2)

/-- Words of the grammar that are never names. -/
def keywords : List String :=
  ["False", "None", "True", "and", "as", "assert", "async", "await", "break", "class",
   "continue", "def", "del", "elif", "else", "except", "finally", "for", "from", "global",
   "if", "import", "in", "is", "lambda", "nonlocal", "not", "or", "pass", "raise", "return",
   "try", "while", "with", "yield"]

def isKeyword (name : String) : Bool := keywords.contains name

/-- A name whose meaning is fixed. -/
def isReserved (name : String) : Bool :=
  isKeyword name || (callee? name).isSome || (constant? name).isSome

/-- What a message calls a callee that stands alone. -/
def kindOfCallee : Callee → String
  | .function (.elementary .exp) => "ExpMeta"
  | .root => "function"
  | .power | .chain _ _ | .integer | .ratio | .decimal | .symbol => "type"
  | .lenient _ | .lenientPair _ | .undefined _ => "UndefinedFunction"
  | _ => "FunctionClass"

end Heightfield.Formula
