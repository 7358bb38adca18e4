import Heightfield.Latex.Substitution
import Heightfield.Vocabulary
/-!
# Groups

Fractions, roots, absolute values and exponents enclose other formulas.  Each rule here
takes apart one *innermost* construct — one whose contents hold no brace or bar — and
the rules are repeated until none applies, so that nested constructs unwind from the
inside out.  Every application removes at least one opening brace or one bar, which is
why the repetition ends.
-/

namespace Heightfield.Latex

/-! ## Contents -/

def isBrace (c : Char) : Bool := c = '{' || c = '}'

/-- The contents of a brace group without further braces, and the text behind it; the
opening brace has been read. -/
def braced? (s : List Char) : Option (List Char × List Char) :=
  match s.span (fun c => !isBrace c) with
  | (contents, '}' :: rest) => some (contents, rest)
  | _ => none

/-- The contents up to a bar and the text behind it; the opening bar has been read.
Empty contents do not count. -/
def barred? (s : List Char) : Option (List Char × List Char) :=
  match s.span (· != '|') with
  | ([], _) => none
  | (contents, '|' :: rest) => some (contents, rest)
  | _ => none

/-- `s` without the ending `e`. -/
def before? (e s : List Char) : Option (List Char) :=
  (after? e.reverse s.reverse).map List.reverse

/-! ## Rules -/

/-- `\sqrt[n]{a}` is the power of `a` with exponent `1/n`. -/
def nthRoot : Rule := fun s => do
  let r ← after? ("\\sqrt[".toList) s
  match r.span (fun c => !(isBrace c || c = '[' || c = ']')) with
  | ([], _) => none
  | (index, ']' :: '{' :: rest) =>
    let (radicand, rest) ← braced? rest
    some ("((".toList ++ radicand ++ ")^(1/(".toList ++ index ++ ")))".toList, rest)
  | _ => none

def squareRoot : Rule := fun s => do
  let r ← after? ("\\sqrt\x7b".toList) s
  let (radicand, rest) ← braced? r
  some ("sqrt(".toList ++ radicand ++ [')'], rest)

def absolute (contents : List Char) : List Char := "abs(".toList ++ contents ++ [')']

/-- `\left|a\right|`. -/
def sizedBars : Rule := fun s => do
  let r ← after? ("\\left|".toList) s
  let (contents, rest) ← barred? r
  match before? ("\\right".toList) contents with
  | none | some [] => none
  | some contents => some (absolute contents, rest)

/-- `|a|`. -/
def bars : Rule
  | '|' :: s => (barred? s).map fun r => (absolute r.1, r.2)
  | _ => none

def fraction : Rule := fun s => do
  let r ← after? ("\\frac\x7b".toList) s
  match ← braced? r with
  | (numerator, '{' :: rest) =>
    let (denominator, rest) ← braced? rest
    some ("((".toList ++ numerator ++ ")/(".toList ++ denominator ++ "))".toList, rest)
  | _ => none

def exponent (contents : List Char) : List Char := "^(".toList ++ contents ++ [')']

/-- `^\left{a\right}`, where a backslash may stand before each brace. -/
def sizedExponent : Rule := fun s => do
  let r ← after? ("^\\left".toList) s
  let r ← match r with
    | '\\' :: '{' :: r => some r
    | '{' :: r => some r
    | _ => none
  let (contents, rest) ← braced? r
  let contents ← (before? ("\\right".toList) contents).orElse
    fun _ => before? ("\\right\\".toList) contents
  some (exponent contents, rest)

/-- `^\{a\}`. -/
def escapedExponent : Rule := fun s => do
  let r ← after? ("^\\\x7b".toList) s
  let (contents, rest) ← braced? r
  let contents ← before? ['\\'] contents
  some (exponent contents, rest)

/-- `^{a}`. -/
def bracedExponent : Rule := fun s => do
  let r ← after? ("^\x7b".toList) s
  let (contents, rest) ← braced? r
  some (exponent contents, rest)

def groupRules : List Rule :=
  [nthRoot, squareRoot, sizedBars, bars, fraction, sizedExponent, escapedExponent, bracedExponent]

/-! ## Repetition -/

/-- How many constructs a text can still hold: its opening braces and bars. -/
def weight (s : List Char) : Nat := s.count '{' + s.count '|'

/-- The group rules, repeated as long as they take something apart. -/
def ungroup (s : List Char) : List Char :=
  let t := substituteAll groupRules s
  if weight t < weight s then ungroup t else t
termination_by weight s

end Heightfield.Latex
