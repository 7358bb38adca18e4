import Heightfield.Formula.Meaning
import Heightfield.Equation
import Heightfield.Juxtaposition
import Heightfield.Latex.Plain
import Heightfield.Text.Quoted
/-!
# Compiling formulas

A formula is compiled for a mode: over the real plane its variables are `x` and `y`, over
the complex plane also `z = x + iy`.  Compiling checks, in this order, that there is a
text, that its characters belong to the dialect, that no name follows a point, that it
reads as one expression, and that its variables are those of the mode.  What is wrong
first is what is reported.
-/

namespace Heightfield

inductive Mode where
  | real | complex
  deriving DecidableEq, Repr

namespace Mode

def name : Mode → String
  | real => "real"
  | complex => "complex"

def all : List Mode := [real, complex]

/-- The variables that a formula may use, in increasing order. -/
def permitted : Mode → List String
  | real => ["x", "y"]
  | complex => ["x", "y", "z"]

/-- The variables in the order in which a point gives them values. -/
def arguments : Mode → List String
  | real => ["x", "y"]
  | complex => ["z", "x", "y"]

/-- The mode of a name; for any other text, the text as messages show it. -/
def named (s : String) : Except String Mode :=
  if s = "real" then .ok real
  else if s = "complex" then .ok complex
  else .error (String.ofList (quoted s.toList))

end Mode

/-- Why a text is not compiled. -/
inductive FormulaError where
  | unknownMode (shown : String)
  | emptyExpression
  | emptyRightHandSide
  /-- Characters outside the dialect, in increasing order. -/
  | unexpectedCharacters (characters : List Char)
  | unexpectedToken (position : Nat) (text : List Char)
  | malformed
  /-- The text means a truth value, a tuple or a function. -/
  | notAnExpression (kind : String)
  | invalidVariables (names : List String) (mode : Mode)
  /-- A function is given to a function. -/
  | functionOperand
  deriving DecidableEq, Repr

/-- A formula that can be evaluated. -/
structure Formula where
  text : String
  mode : Mode
  expr : Formula.Expr
  deriving DecidableEq, Repr

namespace Formula

/-- The variables that the formula uses, in increasing order. -/
def freeVariables (f : Formula) : List String := f.expr.freeVariables

/-! ## The dialect -/

def isDialect (c : Char) : Bool :=
  isAlphanumeric c || isBlank c || "_+-*/^().,!%".toList.contains c

/-- A character put into a list in increasing order, where it stands once. -/
def insertChar (c : Char) : List Char → List Char
  | [] => [c]
  | d :: ds => if c < d then c :: d :: ds else if c = d then d :: ds else d :: insertChar c ds

/-- The characters outside the dialect, in increasing order. -/
def foreign (s : List Char) : List Char := (s.filter (!isDialect ·)).foldr insertChar []

/-- A double underscore at the beginning, or a point before a name. -/
def forbidden? : List Char → Option (List Char)
  | '_' :: '_' :: _ => some ['_', '_']
  | '.' :: s => match s.dropWhile isBlank with
    | c :: _ => if Token.isNameStart c then some ('.' :: s.takeWhile isBlank ++ [c]) else none
    | [] => none
  | _ => none

/-- The first place where something forbidden begins, counted from `position`. -/
def findForbidden (position : Nat) : List Char → Option (Nat × List Char)
  | [] => none
  | c :: s => match forbidden? (c :: s) with
    | some t => some (position, t)
    | none => findForbidden (position + 1) s

/-! ## Compiling -/

/-- The expression of a text in the dialect, once it is known to read as one. -/
def exprOf (s : List Char) : Except FormulaError Expr :=
  match ((Token.tokens s).bind Phrase.ofTokens).bind Meaning.ofPhrase with
  | none => .error .malformed
  | some (.expr e) => .ok e
  | some m => .error (.notAnExpression m.kind)

/-- The expression, if a formula in the given mode may have it. -/
def checked (mode : Mode) (e : Expr) : Except FormulaError Expr :=
  let invalid := e.freeVariables.filter (!mode.permitted.contains ·)
  if e.hasBare then .error .functionOperand
  else if !invalid.isEmpty then .error (.invalidVariables invalid mode)
  else if e.hasLeadingNaN false then .error .malformed
  else .ok e

/-- The formula of a text whose products are written out. -/
def compile (mode : Except String Mode) (s : String) : Except FormulaError Formula :=
  match mode with
  | .error shown => .error (.unknownMode shown)
  | .ok mode =>
    let t := trim s.toList
    if t.isEmpty then .error .emptyExpression
    else if !(foreign t).isEmpty then .error (.unexpectedCharacters (foreign t))
    else match findForbidden 0 t with
      | some (position, text) => .error (.unexpectedToken position text)
      | none => do
        let e ← exprOf t
        let e ← checked mode e
        return ⟨String.ofList t, mode, e⟩

/-- The right-hand side of a text, its products written out. -/
def prepared (s : String) : Except EquationError String := (rightHandSide s).map explicitProducts

/-- The formula that a user typed, as LaTeX or plain: an equation's right-hand side, its
products written out, compiled. -/
def parse (mode : Except String Mode) (latex : Bool) (raw : String) :
    Except FormulaError Formula :=
  let plain := if latex then latexToPlain raw else raw
  if (trim plain.toList).isEmpty then .error .emptyExpression
  else match rightHandSide plain with
    | .error .emptyRightHandSide => .error .emptyRightHandSide
    | .ok s => compile mode (explicitProducts s)

/-- Whether a user typed a formula.  A function that is given to a function is no answer, but a
fault. -/
def valid (mode : Except String Mode) (latex : Bool) (raw : String) : Except FormulaError Bool :=
  match parse mode latex raw with
  | .ok _ => .ok true
  | .error .functionOperand => .error .functionOperand
  | .error _ => .ok false

end Formula

/-! ## Messages -/

namespace FormulaError

/-- The variables of a mode, each in quotes. -/
def allowedText (mode : Mode) : String :=
  ", ".intercalate (mode.permitted.map fun v => "'" ++ v ++ "'")

/-- What is wrong with the text of a formula. -/
def detail : FormulaError → String
  | unknownMode _ | functionOperand => ""
  | emptyExpression => "Expression cannot be empty"
  | emptyRightHandSide => "Empty expression after \"=\""
  | unexpectedCharacters cs =>
    "Unexpected character(s): " ++ " ".intercalate (cs.map fun c => c.toString)
  | unexpectedToken position text =>
    "Unexpected token at position " ++ toString position ++ ": " ++ String.ofList (quoted text)
  | malformed => "Malformed: the text does not read as a formula"
  | notAnExpression kind => "Expected a single expression, got " ++ kind
  | invalidVariables names mode =>
    "Invalid variables: " ++ ", ".intercalate names ++ ". Only " ++ allowedText mode
      ++ " are allowed."

/-- The kind of a fault of the text; none for a fault of something else. -/
def kind? : FormulaError → Option String
  | unknownMode _ | functionOperand => none
  | emptyExpression => some "EmptyExpression"
  | emptyRightHandSide => some "EmptyRightHandSide"
  | unexpectedCharacters _ | unexpectedToken _ _ | malformed | notAnExpression _ =>
    some "SyntaxError"
  | invalidVariables _ _ => some "InvalidVariables"

def message : FormulaError → String
  | unknownMode shown =>
    "Unknown mode: " ++ shown ++ " (expected one of " ++ ", ".intercalate (Mode.all.map Mode.name)
      ++ ")"
  | functionOperand => "A function stands where a number should"
  | e => "Failed to parse expression: " ++ e.detail

end FormulaError

end Heightfield
