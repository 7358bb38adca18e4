import Heightfield.Console.Arguments
import Heightfield.Console.Screen
import Heightfield.Service.Lines
import Heightfield.Session
/-!
# Runs of the command line

A run samples the surface of one formula and shows a summary of it, or writes all of it as
JSON.  The formula is an argument, or else what is answered to a question.  A run in which
the service was asked for answers the requests on its input instead and does nothing else.

The code with which a run ends is zero if it did what was asked for, one if there is no
formula, and two if the formula or another argument is no good.
-/

namespace Heightfield

namespace Console

/-- What a run gives. -/
structure Outcome where
  code : Nat
  /-- What is seen on the screen, line by line. -/
  screen : List String
  /-- What is written for other programs, a value on a line. -/
  values : List Json

/-- Why a run breaks off without a word on what to do better. -/
inductive Breakdown where
  | formula (e : FormulaError)
  | limits (e : LimitsError)
  deriving DecidableEq, Repr

def Breakdown.message : Breakdown → String
  | formula e => e.message
  | limits .notANumber => "The percentile is not a number"
  | limits .tooLarge => "The percentile is too large"

namespace Outcome

def refused (code : Nat) (text : String) : Outcome := ⟨code, Screen.lines text, []⟩

def withoutExpression : Outcome := refused 1 "No expression given."

/-- The formula has a fault of the given kind. -/
def badFormula (kind : String) (e : FormulaError) : Outcome := refused 2 (kind ++ ": " ++ e.message)

def badArguments (message : String) : Outcome := refused 2 ("Invalid arguments: " ++ message)

end Outcome

/-! ## What is shown -/

/-- The formula with its mode and its variables. -/
def describe (f : Formula) : String :=
  let names := if f.freeVariables.isEmpty then "(none)" else ", ".intercalate f.freeVariables
  f.text ++ "\nmode: " ++ f.mode.name ++ "   variables: " ++ names

/-- A table of quantities and their values. -/
def tableLines (rows : List (String × String)) : List String :=
  "Surface summary" :: (("Quantity", "Value") :: rows).map fun (q, v) => q ++ "  " ++ v

/-- The value of the formula at a point. -/
def pointLine (f : Formula) (x y : Float) : String :=
  let short := Report.short
  match f.outcome x y with
  | .height v => "f(" ++ short x ++ ", " ++ short y ++ ") = " ++ short v
  | .number z => "f(" ++ short x ++ " + " ++ short y ++ "i) = " ++ short z.re ++ " + " ++ short z.im ++ "i"

def summary (f : Formula) (s : Surface Float) (point : Option (Float × Float)) : List String :=
  Screen.lines (describe f) ++ tableLines (Report.table s.grid s.limits s.statistics)
    ++ match point with
      | some (x, y) => [pointLine f x y]
      | none => []

/-- All of a surface. -/
def surfaceJson (s : Surface Float) : Json :=
  .object [("grid", Report.grid s.grid), ("limits", Report.limitsPair s.limits),
    ("stats", Report.statistics s.statistics)]

/-! ## Running -/

/-- The parameters of the surface that is asked for; a message if they are no good. -/
def parameters (settings : Settings) (args : Arguments) (f : Formula) : Except String (Parameters Float) :=
  let (xMin, xMax, yMin, yMax) := args.domain
  match Domain.ofBounds xMin xMax yMin yMax with
  | .error e => .error e.message
  | .ok domain =>
    let made (clip : Option (Clip Float)) : Parameters Float :=
      ⟨f, domain, .int args.resolution, clip, args.percentile, settings.wholeSweeps⟩
    match args.clip with
    | none => .ok (made none)
    | some (lower, upper) => match Clip.ofBounds lower upper with
      | .error e => .error e.message
      | .ok clip => .ok (made (some clip))

/-- The run for a formula that is typed. -/
def plot (settings : Settings) (args : Arguments) (raw : String) : Except Breakdown Outcome :=
  match Formula.parse (.ok args.mode) args.latex raw with
  | .error e => match e.kind? with
    | some kind => .ok (.badFormula kind e)
    | none => .error (.formula e)
  | .ok f => match parameters settings args f with
    | .error message => .ok (.badArguments message)
    | .ok p => match p.sweep with
      | .error (.resolution e) => .ok (.badArguments e.message)
      | .error (.limits e) => .error (.limits e)
      | .ok s =>
        if args.json then .ok ⟨0, [], [surfaceJson s]⟩
        else .ok ⟨0, summary f s args.point, []⟩

/-- The formula among the arguments, unless it is empty. -/
def Arguments.given? (args : Arguments) : Option String :=
  args.expression.filter (!·.isEmpty)

/-- A run.  `answer` is what the question for a formula would be answered with, `input` what
the service would read. -/
def run (settings : Settings) (args : Arguments) (answer : Option String) (input : List Char) :
    Except Breakdown Outcome :=
  if args.serve then .ok ⟨0, [], Service.answers settings input⟩
  else match args.given? <|> answer.filter (!·.isEmpty) with
    | none => .ok .withoutExpression
    | some raw => plot settings args raw

/-! ## The question -/

/-- The question for a formula. -/
def question (mode : Mode) : String := "Expression (" ++ mode.name ++ " mode): "

/-- The formula that is meant when the answer is empty. -/
def hint : Mode → String
  | .real => "z = x^2 + y^2"
  | .complex => "z^2 + 1"

/-- What is said about the use of the command. -/
def usage : String :=
  "usage: heightfield [expression] [options]\n\n"
    ++ "Samples z = f(x, y), or the parts of f(z), over a rectangle and sums up the surface.\n"
    ++ "An expression that is not given is asked for.\n\n"
    ++ "  -h, --help                  show this text\n"
    ++ "  --mode real|complex         what the expression is a function of\n"
    ++ "  --latex                     read the expression as LaTeX\n"
    ++ "  --domain XMIN XMAX YMIN YMAX\n"
    ++ "  --resolution N              samples for each axis\n"
    ++ "  --clip MIN MAX              move heights into a range\n"
    ++ "  --percentile P              how much of the heights the limits keep\n"
    ++ "  --point X Y                 also show the value at a point\n"
    ++ "  --json                      write the surface as JSON\n"
    ++ "  --serve                     answer JSON requests, one on a line\n"

end Console

end Heightfield
