import Heightfield.Text.Blank
/-!
# The vocabulary of formulas

A formula names functions and constants from two fixed tables; every other run of
letters is a product of one-letter variables.  A function is recognised only together
with the parenthesis that opens its arguments, and a constant only where no letter or
digit follows it, so at one place of a text at most one name of each table is read and
the order of the tables does not matter.
-/

namespace Heightfield

def functionNames : List String :=
  ["sin", "cos", "tan", "asin", "acos", "atan", "atan2",
   "sinh", "cosh", "tanh", "asinh", "acosh", "atanh",
   "sec", "csc", "cot", "asec", "acsc", "acot",
   "exp", "log", "log10", "log2", "ln", "sqrt", "cbrt",
   "abs", "ceil", "floor", "round", "sign", "pow",
   "min", "max", "mod", "gcd", "lcm", "factorial",
   "conj", "arg", "real", "imag", "re", "im"]

/-- A name of the function table. -/
abbrev FunctionName := { f : String // f ∈ functionNames }

def constantNames : List String :=
  ["pi", "e", "i", "PI", "E", "Infinity", "NaN", "true", "false"]

/-- What follows `p` in `s`, when `s` begins with `p`. -/
def after? : List Char → List Char → Option (List Char)
  | [], s => some s
  | _ :: _, [] => none
  | a :: p, b :: s => if a = b then after? p s else none

theorem eq_append_of_after? : ∀ {p s r : List Char}, after? p s = some r → s = p ++ r
  | [], s, r, h => by simpa [after?] using h
  | a :: p, [], r, h => by simp [after?] at h
  | a :: p, b :: s, r, h => by
    unfold after? at h
    split at h
    · next hab => subst hab; simp [eq_append_of_after? h]
    · exact absurd h (by simp)

theorem after?_append (p r : List Char) : after? p (p ++ r) = some r := by
  induction p with
  | nil => rfl
  | cons a p ih => simp [after?, ih]

/-- The function that is called at the beginning of `s`. -/
def calledFunction? (s : List Char) : Option String :=
  functionNames.find? (fun f => (after? (f.toList ++ ['(']) s).isSome)

/-- Whether a name may end before `s`: no letter or digit of the dialect follows. -/
def endsName : List Char → Bool
  | [] => true
  | c :: _ => !isAlphanumeric c

/-- The constant that stands at the beginning of `s`. -/
def leadingConstant? (s : List Char) : Option String :=
  constantNames.find? (fun k => ((after? k.toList s).map endsName).getD false)

end Heightfield
