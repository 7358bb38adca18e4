import Heightfield.Colour.Shading
import Heightfield.Json.Display
import Heightfield.Json.Reader
import Heightfield.Service.Catalog
import Heightfield.Service.Fields
import Heightfield.Surface.Report
/-!
# Requests

A request is a JSON object whose field `action` says what is wanted: a surface (`plot`, which
is also meant when nothing is said), one value (`evaluate`), whether a formula can be compiled
(`validate`), LaTeX as plain text (`convert`), or the catalog.  The answer is an object too,
and its `status` says whether the request could be met.

The steps of a request are taken in a fixed order, and the first that fails decides the
answer.
-/

namespace Heightfield

namespace Service

/-- Why a request is not met. -/
inductive RequestError where
  | malformed
  /-- Values are nested too deeply to be read. -/
  | tooDeep
  | notAnObject
  /-- The action as messages show it. -/
  | unknownAction (shown : String)
  /-- The action is a list or an object. -/
  | actionWithoutName
  | formula (e : FormulaError)
  | field (e : FieldError)
  | resolutionRange (maximum asked : Int)
  | limits (e : LimitsError)
  /-- The formula is no text. -/
  | formulaWithoutText
  /-- The configuration has no fields. -/
  | configWithoutFields
  /-- The colour map is a number or a truth value. -/
  | colourWithoutText
  /-- The colour map is a list or an object. -/
  | colourWithoutName

namespace RequestError

def message : RequestError → String
  | malformed => "Malformed request: the line is not JSON"
  | tooDeep => "Malformed request: values are nested too deeply"
  | notAnObject => "Request must be a JSON object"
  | unknownAction shown => "Unknown action: " ++ shown
  | actionWithoutName => "An action is named by a text"
  | formula e => e.message
  | field e => e.message
  | resolutionRange maximum asked =>
    "resolution must be between 1 and " ++ toString maximum ++ ", got " ++ toString asked
  | limits .notANumber => "The percentile is not a number"
  | limits .tooLarge => "The percentile is too large"
  | formulaWithoutText => "A formula is a text"
  | configWithoutFields => "The configuration is an object"
  | colourWithoutText | colourWithoutName => "A colour map is named by a text"

/-- The kind of error that an answer names. -/
def kind : RequestError → String
  | formula e => e.kind?.getD "InvalidRequest"
  | tooDeep | formulaWithoutText | configWithoutFields | colourWithoutText => "InternalError"
  | field (.number .tooLarge) | limits .tooLarge => "InternalError"
  | _ => "InvalidRequest"

end RequestError

abbrev Attempt (β : Type) := Except RequestError β

def Attempt.ofField {β : Type} : Except FieldError β → Attempt β
  | .ok b => .ok b
  | .error e => .error (.field e)

def Attempt.ofNumber {β : Type} : Except Json.NumberError β → Attempt β
  | .ok b => .ok b
  | .error e => .error (.field (.number e))

/-! ## The formula of a request -/

abbrev Fields := List (String × Json)

/-- The mode that is asked for; the real one when there is no such field. -/
def mode (request : Fields) : Except String Mode :=
  ((Json.get? request "mode").map Mode.ofJson).getD (.ok .real)

/-- The text of the formula; values that count as not given are empty. -/
def formulaText (request : Fields) : Attempt String :=
  match Json.get? request "expression" with
  | none => .ok ""
  | some (.string s) => .ok s
  | some j => if j.isTruthy then .error .formulaWithoutText else .ok ""

def isLatex (request : Fields) : Bool := ((Json.get? request "latex").map Json.isTruthy).getD false

/-- The formula of a request. -/
def formula (request : Fields) : Attempt Formula := do
  let raw ← formulaText request
  match Formula.parse (mode request) (isLatex request) raw with
  | .ok f => return f
  | .error e => throw (.formula e)

def variablesJson (f : Formula) : Json := .array (f.freeVariables.map .string)

/-! ## Parameters of a surface -/

/-- A field of the configuration. -/
def configured (config : Json) (name : String) : Attempt (Option Json) :=
  match config with
  | .object fields => .ok (Json.get? fields name)
  | _ => .error .configWithoutFields

/-- A field of the request, else of the configuration, which must have fields even if it
is not needed. -/
def parameter (request : Fields) (config : Json) (name : String) : Attempt (Option Json) := do
  let other ← configured config name
  return (Json.get? request name).orElse fun _ => other

def domain (settings : Settings) (request : Fields) (config : Json) : Attempt (Domain Float) :=
  match Json.get? request "domain" with
  | some j =>
    if j.isTruthy then .ofField (Domain.ofJson settings j) else fallback
  | none => fallback
where
  fallback : Attempt (Domain Float) := do
    let j ← configured config "domain"
    Attempt.ofField (Domain.ofJson settings (j.getD .null))

/-- The resolution, which must not exceed the greatest that is configured. -/
def resolution (settings : Settings) (request : Fields) (config : Json) : Attempt Resolution := do
  let asked ← parameter request config "resolution"
  let n ← Attempt.ofNumber (asked.getD (.int settings.resolution)).toInt
  let greatest ← configured config "maxResolution"
  let maximum ← Attempt.ofNumber (greatest.getD (.int settings.maxResolution)).toInt
  if h : 1 ≤ n ∧ n ≤ maximum then return ⟨n.toNat, by omega⟩
  else throw (.resolutionRange maximum n)

def percentile (settings : Settings) (request : Fields) (config : Json) : Attempt Float := do
  let asked ← parameter request config "percentile"
  Attempt.ofNumber (asked.getD (.real settings.percentile)).toDouble

/-- Whether lattices are swept as a whole. -/
def wholeSweeps (settings : Settings) (config : Json) : Attempt Bool := do
  match ← configured config "vectorize" with
  | none | some .null => return settings.wholeSweeps
  | some j => return j.isTruthy

/-! ## Actions -/

/-- The colours of a surface, if a map is asked for. -/
def colours (request : Fields) (config : Json) (g : Grid Float) (l : Limits Float) : Attempt Fields := do
  match ← parameter request config "colormap" with
  | none => return []
  | some j =>
    if !j.isTruthy then return []
    else match j with
      | .string name =>
        let rows := Colour.shadeAll (some name) l.lower l.upper g.height
        let cell (c : Colour.Rgb Float) : Json := .array (c.channels.map .real)
        return [("colormap", j), ("colors", .array (rows.map fun r => .array (r.map cell)))]
      | .array _ | .object _ => throw .colourWithoutName
      | _ => throw .colourWithoutText

def plot (settings : Settings) (request : Fields) (config : Json) : Attempt Fields := do
  let f ← formula request
  let d ← domain settings request config
  let n ← resolution settings request config
  let clip ← Attempt.ofField (Clip.ofJson ((Json.get? request "clip").getD .null))
  let p ← percentile settings request config
  let whole ← wholeSweeps settings config
  let g := Grid.sample f d n clip whole
  match g.limits p with
  | .error e => throw (.limits e)
  | .ok l =>
    let painted ← colours request config g l
    return [("expression", .string f.text), ("mode", .string f.mode.name), ("vars", variablesJson f),
      ("domain", Report.domain d), ("resolution", .int n.val), ("grid", Report.grid g),
      ("limits", .object [("min", .real l.lower), ("max", .real l.upper)]),
      ("stats", Report.statistics g.statistics)] ++ painted

/-- A coordinate of the point; zero when there is no such field. -/
def coordinate (request : Fields) (name : String) : Attempt Float :=
  match Json.get? request name with
  | none => .ok 0.0
  | some j => Attempt.ofNumber j.toDouble

/-- A value at a point. -/
def outcomeJson : Formula.Outcome Float → Json
  | .height x => Report.finite x
  | .number z => .object [("real", Report.finite z.re), ("imaginary", Report.finite z.im)]

def evaluate (request : Fields) : Attempt Fields := do
  let f ← formula request
  let x ← coordinate request "x"
  let y ← coordinate request "y"
  return [("expression", .string f.text), ("vars", variablesJson f), ("value", outcomeJson (f.outcome x y))]

def validate (request : Fields) : Attempt Fields := do
  let f ← formula request
  return [("valid", .bool true), ("expression", .string f.text), ("vars", variablesJson f)]

def convert (request : Fields) : Attempt Fields := do
  let raw ← formulaText request
  return [("plain", .string (latexToPlain raw))]

/-- What the request asks for. -/
def perform (settings : Settings) (request : Fields) : Attempt Fields :=
  let config := match Json.get? request "config" with
    | some j => if j.isTruthy then j else .object []
    | none => .object []
  match (Json.get? request "action").getD (.string "plot") with
  | .string "plot" => plot settings request config
  | .string "evaluate" => evaluate request
  | .string "validate" => validate request
  | .string "convert" => convert request
  | .string "catalog" => .ok catalog
  | .array _ | .object _ => .error .actionWithoutName
  | j => .error (.unknownAction j.displayPlain)

/-! ## Answers -/

/-- The names that a formula must not use, when that is what is wrong. -/
def RequestError.details : RequestError → Fields
  | .formula (.invalidVariables names _) => [("invalidVariables", .array (names.map .string))]
  | _ => []

def failure (e : RequestError) : Json :=
  .object ([("status", .string "error"), ("message", .string e.message), ("errorType", .string e.kind)] ++ e.details)

def success (fields : Fields) : Json := .object (("status", .string "success") :: fields)

/-- The answer to a value that was read. -/
def answerValue (settings : Settings) : Json → Json
  | .object request => match perform settings request with
    | .ok fields => success fields
    | .error e => failure e
  | _ => failure .notAnObject

/-- The answer to a text.  Every text has one. -/
def answer (settings : Settings) (text : List Char) : Json :=
  match Json.read text with
  | .ok j => answerValue settings j
  | .error .malformed => failure .malformed
  | .error .tooDeep => failure .tooDeep

end Service

end Heightfield
