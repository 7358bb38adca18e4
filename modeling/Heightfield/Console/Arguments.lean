import Heightfield.Formula.Compile
import Heightfield.Number.Reading
import Heightfield.Settings
import Heightfield.Text.Digits
/-!
# Command line arguments

The command line has one expression and options.  An option may be shortened as long as only
one option begins so, its one value may follow an equals sign, and negative numbers and words
with a space in them are values, not options.  What follows two hyphens is no option.

The arguments are looked at twice.  First each word is told to be an option or not, and a
short form that fits several options ends the run.  Then the words are taken from left to
right; help is given when it is asked for, the first value that cannot be read ends the run,
and words too many end it when all is read.
-/

namespace Heightfield

namespace Console

/-- The options with a long name. -/
inductive Flag where
  | help | mode | latex | domain | resolution | clip | percentile | point | json | serve
  deriving DecidableEq, Repr

namespace Flag

def all : List Flag :=
  [help, mode, latex, domain, resolution, clip, percentile, point, json, serve]

def name : Flag → String
  | help => "--help"
  | mode => "--mode"
  | latex => "--latex"
  | domain => "--domain"
  | resolution => "--resolution"
  | clip => "--clip"
  | percentile => "--percentile"
  | point => "--point"
  | json => "--json"
  | serve => "--serve"

/-- How many values follow. -/
def arity : Flag → Nat
  | help | latex | json | serve => 0
  | mode | resolution | percentile => 1
  | clip | point => 2
  | domain => 4

end Flag

/-- Why no run begins. -/
inductive Stop where
  /-- Help was asked for. -/
  | help
  /-- The arguments cannot be used. -/
  | misuse
  deriving DecidableEq, Repr

/-- The code with which such a run ends. -/
def Stop.code : Stop → Nat
  | help => 0
  | misuse => 2

/-! ## Words -/

/-- What a word of the command line is. -/
inductive Word where
  /-- An expression or a value. -/
  | plain (s : String)
  /-- An option, and the value after its equals sign. -/
  | option (f : Flag) (value : Option String)
  /-- An option that does not exist, or whose use is known to be wrong. -/
  | unknown
  | misused
  /-- Two hyphens. -/
  | separator
  deriving DecidableEq, Repr

/-- Digits, and at most the end of a line. -/
def isDigitRun (s : List Char) : Bool :=
  let r := s.dropWhile fun c => (digitValue? c).isSome
  r.length < s.length && (r = [] || r = ['\n'])

/-- A minus sign with an integer, or with a decimal whose point has digits behind it. -/
def isNegativeNumber : List Char → Bool
  | '-' :: s =>
    isDigitRun s || match s.dropWhile fun c => (digitValue? c).isSome with
      | '.' :: r => isDigitRun r
      | _ => false
  | _ => false

/-- The part before an equals sign, and the part after it. -/
def splitEquals (s : List Char) : List Char × Option String :=
  match s.dropWhile (· ≠ '=') with
  | [] => (s, none)
  | _ :: r => (s.takeWhile (· ≠ '='), some (String.ofList r))

/-- The short option for help, which can be repeated in one word; nothing else can follow. -/
def helpWord (s : List Char) : Word := if s.all (· = 'h') then .option .help none else .misused

/-- A word that begins with a hyphen and is not the beginning of an option. -/
def otherWord (s : List Char) : Word :=
  if isNegativeNumber s || s.contains ' ' then .plain (String.ofList s) else .unknown

/-- A word with two hyphens: the option of this name, or the only one that begins so. -/
def longWord (s : List Char) : Except Stop Word :=
  let (name, value) := splitEquals s
  match Flag.all.find? (·.name.toList = name) with
  | some f => .ok (.option f value)
  | none => match Flag.all.filter (fun f => name.isPrefixOf f.name.toList) with
    | [] => .ok (otherWord s)
    | [f] => .ok (.option f value)
    | _ => .error .misuse

def Word.ofChars : List Char → Except Stop Word
  | ['-', '-'] => .ok .separator
  | '-' :: '-' :: s => longWord ('-' :: '-' :: s)
  | '-' :: 'h' :: s => .ok (helpWord ('h' :: s))
  | ['-'] => .ok (.plain "-")
  | '-' :: s => .ok (otherWord ('-' :: s))
  | s => .ok (.plain (String.ofList s))

/-- The words of a command line.  After two hyphens all words are plain. -/
def words : List String → Except Stop (List Word)
  | [] => .ok []
  | arg :: args => do
    match ← Word.ofChars arg.toList with
    | .separator => return .separator :: args.map .plain
    | w => return w :: (← words args)

/-! ## Arguments -/

/-- What the command line asks for. -/
structure Arguments where
  expression : Option String
  mode : Mode
  latex : Bool
  /-- The bounds of both axes. -/
  domain : Float × Float × Float × Float
  resolution : Int
  clip : Option (Float × Float)
  percentile : Float
  point : Option (Float × Float)
  json : Bool
  serve : Bool

namespace Arguments

/-- What is meant when nothing is said. -/
def standard (settings : Settings) : Arguments where
  expression := none
  mode := .real
  latex := false
  domain := (settings.xMin, settings.xMax, settings.yMin, settings.yMax)
  resolution := settings.resolution
  clip := none
  percentile := settings.percentile
  point := none
  json := false
  serve := false

/-- An option with its values. -/
def set (a : Arguments) (f : Flag) (values : List String) : Except Stop Arguments :=
  match f, values, values.mapM Reading.double? with
  | .help, _, _ => .error .help
  | .latex, _, _ => .ok { a with latex := true }
  | .json, _, _ => .ok { a with json := true }
  | .serve, _, _ => .ok { a with serve := true }
  | .mode, [s], _ => match Mode.named s with
    | .ok m => .ok { a with mode := m }
    | .error _ => .error .misuse
  | .resolution, [s], _ => match Reading.integer? s with
    | some n => .ok { a with resolution := n }
    | none => .error .misuse
  | .percentile, _, some [p] => .ok { a with percentile := p }
  | .clip, _, some [lower, upper] => .ok { a with clip := some (lower, upper) }
  | .point, _, some [x, y] => .ok { a with point := some (x, y) }
  | .domain, _, some [xMin, xMax, yMin, yMax] => .ok { a with domain := (xMin, xMax, yMin, yMax) }
  | _, _, _ => .error .misuse

end Arguments

/-- Where the reading of the words is. -/
structure Progress where
  arguments : Arguments
  /-- Whether the place of the expression is taken. -/
  placed : Bool
  /-- Whether there was a word too many. -/
  surplus : Bool

/-- The plain words among the next `n`, if they all are. -/
def valuesOf : Nat → List Word → Option (List String)
  | 0, _ => some []
  | n + 1, .plain s :: ws => (valuesOf n ws).map (s :: ·)
  | _, _ => none

/-- Reads the words from left to right.  `skip` words in front are values of the option
before them. -/
def readWords : Nat → List Word → Progress → Except Stop Progress
  | _, [], p => .ok p
  | skip + 1, _ :: ws, p => readWords skip ws p
  | 0, w :: ws, p =>
    match w with
    | .option f none => match valuesOf f.arity ws with
      | none => .error .misuse
      | some values => do
        let a ← p.arguments.set f values
        readWords f.arity ws { p with arguments := a }
    | .option f (some value) =>
      if f.arity = 1 then do
        let a ← p.arguments.set f [value]
        readWords 0 ws { p with arguments := a }
      else .error .misuse
    | .misused => .error .misuse
    | .unknown => readWords 0 ws { p with surplus := true }
    | .plain s =>
      if p.placed then readWords 0 ws { p with surplus := true }
      else
        let p := { p with arguments := { p.arguments with expression := some s }, placed := true }
        readWords (if ws.head? = some .separator then 1 else 0) ws p
    | .separator =>
      if p.placed then readWords 0 ws { p with surplus := true }
      else match ws with
        | .plain s :: _ =>
          readWords 1 ws { p with arguments := { p.arguments with expression := some s }, placed := true }
        | _ => readWords 0 ws { p with placed := true }

/-- The arguments of a command line. -/
def Arguments.ofStrings (settings : Settings) (args : List String) : Except Stop Arguments := do
  let ws ← words args
  let p ← readWords 0 ws ⟨.standard settings, false, false⟩
  if p.surplus then throw .misuse else return p.arguments

end Console

end Heightfield
