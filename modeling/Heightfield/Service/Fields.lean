import Heightfield.Formula.Compile
import Heightfield.Json.Number
import Heightfield.Settings
import Heightfield.Surface.Interval
/-!
# Modes, domains and clip ranges in requests

A mode is named by a text, and a message about any other value shows it.  A domain is an
object with the fields `xMin`, `xMax`, `yMin` and `yMax`, or the same names in lower case
with an underscore; what is absent or null comes from the settings.  A clip range has the
fields `min` and `max`, and both must be there.
-/

namespace Heightfield

/-- Why a field does not hold what it should. -/
inductive FieldError where
  | number (e : Json.NumberError)
  | missing (name : String)
  /-- Fields are looked for in a value that has none. -/
  | wrongSort
  | domain (e : DomainError Float)
  | clip (e : ClipError Float)

namespace FieldError

def message : FieldError → String
  | number .unreadable => "A value could not be read as a number"
  | number .tooLarge => "A number is too large"
  | number .wrongSort => "A number is needed, not null, a list or an object"
  | missing name => "'" ++ name ++ "'"
  | wrongSort => "An object with fields is needed"
  | domain e => e.message
  | clip e => e.message

end FieldError

def Json.toDoubleField (j : Json) : Except FieldError Float :=
  match j.toDouble with
  | .ok x => .ok x
  | .error e => .error (.number e)

/-- Whether one list of characters stands in another. -/
def occursIn (part : List Char) : List Char → Bool
  | [] => part.isEmpty
  | c :: s => part.isPrefixOf (c :: s) || occursIn part s

/-- Whether a list item is the given text. -/
def Json.isText (s : String) : Json → Bool
  | .string t => t = s
  | _ => false

/-- The mode that a value names; for any other value, the value as messages show it. -/
def Mode.ofJson : Json → Except String Mode
  | .string s => Mode.named s
  | j => .error j.display

namespace Domain

/-- A bound under a name, unless it is absent or null.  Texts and lists have no bounds, but
they must not mention the name. -/
def bound? (data : Json) (name : String) : Except FieldError (Option Json) :=
  match data with
  | .object fields => .ok (match Json.get? fields name with
    | some .null | none => none
    | some j => some j)
  | .array items => if items.any (·.isText name) then .error .wrongSort else .ok none
  | .string s => if occursIn name.toList s.toList then .error .wrongSort else .ok none
  | _ => .error .wrongSort

/-- A bound under either of two names, or the one of the settings. -/
def bound (data : Json) (name other : String) (setting : Float) : Except FieldError Float := do
  match ← bound? data name with
  | some j => j.toDoubleField
  | none => match ← bound? data other with
    | some j => j.toDoubleField
    | none => return setting

/-- The domain that a value stands for; the one of the settings when none is given. -/
def ofJson (settings : Settings) (data : Json) : Except FieldError (Domain Float) := do
  let data := if data.isTruthy then data else .object []
  let xMin ← bound data "xMin" "x_min" settings.xMin
  let xMax ← bound data "xMax" "x_max" settings.xMax
  let yMin ← bound data "yMin" "y_min" settings.yMin
  let yMax ← bound data "yMax" "y_max" settings.yMax
  match ofBounds xMin xMax yMin yMax with
  | .ok d => return d
  | .error e => throw (.domain e)

end Domain

namespace Clip

def bound (data : Json) (name : String) : Except FieldError Float :=
  match data with
  | .object fields => match Json.get? fields name with
    | some j => j.toDoubleField
    | none => .error (.missing name)
  | _ => .error .wrongSort

/-- The clip range that a value stands for; none when none is given. -/
def ofJson (data : Json) : Except FieldError (Option (Clip Float)) :=
  if !data.isTruthy then .ok none
  else do
    let lower ← bound data "min"
    let upper ← bound data "max"
    match ofBounds lower upper with
    | .ok c => return some c
    | .error e => throw (.clip e)

end Clip

end Heightfield
