import Heightfield.Latex.Delimiters
import Heightfield.Latex.Commands
import Heightfield.Latex.Groups
/-!
# From LaTeX to the plain dialect

The converter reads what a math editor writes and gives the infix text that a user
would have typed.  It is a sequence of substitutions, not a parser: a text that is not
well formed is converted as far as the rules reach, and its remaining backslashes go
and its remaining braces become parentheses.
-/

namespace Heightfield.Latex

/-- Braces left over become parentheses. -/
def parenthesis (c : Char) : Char :=
  if c = '{' then '(' else if c = '}' then ')' else c

def plainText (s : List Char) : List Char :=
  if (trim s).isEmpty then []
  else
    let opened := substituteAll openingRules (undelimited s)
    let closed := substituteAll closingRules (ungroup opened)
    trim (closed.map parenthesis)

end Latex

/-- The plain formula that a LaTeX formula stands for. -/
def latexToPlain (s : String) : String := String.ofList (Latex.plainText s.toList)

/-- The LaTeX formula without its math-mode delimiters. -/
def stripDelimiters (s : String) : String := String.ofList (Latex.undelimited s.toList)

/-- Whether the converter makes anything of a text. -/
def isConvertible (s : String) : Bool := !(Latex.plainText s.toList).isEmpty

/-! ## Examples shown to users -/

/-- A LaTeX formula shown as an example, with its plain form. -/
structure LatexExample where
  topic : String
  latex : String
  plain : String
  deriving DecidableEq, Repr

def latexExamples : List LatexExample :=
  [⟨"basic", "x^2 + y^2", "x^2 + y^2"⟩,
   ⟨"fraction", "\\frac\x7bx\x7d\x7by\x7d", "((x)/(y))"⟩,
   ⟨"sqrt", "\\sqrt\x7bx^2 + y^2\x7d", "sqrt(x^2 + y^2)"⟩,
   ⟨"trig", "\\sin(x) \\cdot \\cos(y)", "sin(x) * cos(y)"⟩,
   ⟨"complex", "\\frac\x7b\\sin(\\sqrt\x7bx^2 + y^2\x7d)\x7d\x7b\\sqrt\x7bx^2 + y^2\x7d\x7d",
    "((sin(sqrt(x^2 + y^2)))/(sqrt(x^2 + y^2)))"⟩]

end Heightfield
