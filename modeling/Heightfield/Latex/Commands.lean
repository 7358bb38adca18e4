import Heightfield.Latex.Substitution
import Heightfield.Text.Digits
import Heightfield.Vocabulary
/-!
# Commands

The rules for control words and control symbols: function names, Greek letters,
operators, resizable parentheses and spacing.  A control word ends where no letter
follows; the blanks behind a function command are part of it, those behind a Greek
letter are not.
-/

namespace Heightfield.Latex

/-! ## Parts of rules -/

/-- The text behind `\word`, when the text begins with that control word and no letter
follows it. -/
def afterWord? (word : String) : List Char → Option (List Char)
  | '\\' :: s => (after? word.toList s).bind fun r =>
    match r with
    | c :: _ => if isLetter c then none else some r
    | [] => some r
  | _ => none

/-- A fixed text and what is written instead. -/
def literal (read written : String) : Rule := fun s =>
  (after? read.toList s).map (written.toList, ·)

/-- `\word{name}` stands for the name, when it is one or more letters. -/
def namedGroup (word : String) : Rule := fun s =>
  (after? ('\\' :: word.toList ++ ['{']) s).bind fun r =>
    match r.span isLetter with
    | ([], _) => none
    | (name, '}' :: rest) => some (name, rest)
    | _ => none

/-- `\word` and the blanks behind it stand for the function `name`. -/
def functionCommand (word name : String) : Rule := fun s =>
  (afterWord? word s).map fun r => (name.toList, trimLeft r)

/-- `\word` stands for `name`. -/
def letterCommand (word name : String) : Rule := fun s =>
  (afterWord? word s).map fun r => (name.toList, r)

/-- `\word` with the blanks on both sides stands for `written`. -/
def operatorCommand (word written : String) : Rule := fun s =>
  (after? ('\\' :: word.toList) (trimLeft s)).map fun r => (written.toList, trimLeft r)

/-! ## Tables -/

/-- Function commands and the names they stand for.  `\ln` is the natural logarithm and
`\log` the decimal one. -/
def functionCommands : List (String × String) :=
  [("sin", "sin"), ("cos", "cos"), ("tan", "tan"),
   ("cot", "cot"), ("sec", "sec"), ("csc", "csc"),
   ("arcsin", "asin"), ("arccos", "acos"), ("arctan", "atan"),
   ("arccot", "acot"), ("arcsec", "asec"), ("arccsc", "acsc"),
   ("sinh", "sinh"), ("cosh", "cosh"), ("tanh", "tanh"),
   ("ln", "log"), ("log", "log10"), ("exp", "exp"), ("min", "min"), ("max", "max")]

def greekLetters : List String :=
  ["alpha", "beta", "gamma", "delta", "epsilon", "zeta", "eta", "theta",
   "iota", "kappa", "lambda", "mu", "nu", "xi", "pi", "rho", "sigma",
   "tau", "upsilon", "phi", "chi", "psi", "omega"]

/-! ## Products -/

/-- A digit before a letter is a coefficient. -/
def digitLetter : Rule
  | d :: c :: s => if isDecimalDigit d && isLetter c then some ([d, '*', c], s) else none
  | _ => none

def closingLetter : Rule
  | ')' :: c :: s => if isLetter c then some ([')', '*', c], s) else none
  | _ => none

def closingDigit : Rule
  | ')' :: d :: s => if isDecimalDigit d then some ([')', '*', d], s) else none
  | _ => none

def isRunCharacter (c : Char) : Bool := isAlphanumeric c || c = '.'

/-- Whether a text ends in the name of a function. -/
def endsInFunction (run : List Char) : Bool :=
  functionNames.any (fun f => f.toList.isSuffixOf run)

/-- A run of letters, digits and points before a parenthesis multiplies it, unless the
run ends in the name of a function. -/
def runOpening : Rule := fun s =>
  match s.span isRunCharacter with
  | ([], _) => none
  | (run, '(' :: rest) => some (run ++ (if endsInFunction run then ['('] else ['*', '(']), rest)
  | _ => none

/-- `\quad` and `\qquad` are one blank. -/
def quadSpace : Rule := fun s =>
  ((afterWord? "quad" s).orElse fun _ => afterWord? "qquad" s).map (([' '], ·))

/-! ## The two sequences of rules -/

/-- The rules that come before groups are taken apart. -/
def openingRules : List Rule :=
  [namedGroup "operatorname", namedGroup "mathrm", namedGroup "text"]
    ++ functionCommands.map (fun f => functionCommand f.1 f.2)

/-- The rules that come after. -/
def closingRules : List Rule :=
  greekLetters.map (fun g => letterCommand g g)
    ++ [letterCommand "e" "e",
        operatorCommand "cdot" " * ", operatorCommand "times" " * ", operatorCommand "div" " / ",
        literal "\\left(" "(", literal "\\right)" ")",
        literal "\\left[" "(", literal "\\right]" ")",
        literal "\\left\\\x7b" "(", literal "\\right\\\x7d" ")",
        literal "\\," "", literal "\\;" "", literal "\\:" "", literal "\\!" "", literal "\\ " "",
        quadSpace,
        digitLetter, closingLetter, literal ")(" ")*(", runOpening, closingDigit,
        literal "\\" ""]

end Heightfield.Latex
