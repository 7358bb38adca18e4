import Heightfield.Json.Display
import Heightfield.Number.Reading
import Heightfield.Number.Scalar
/-!
# Numbers in JSON values

A field that should hold a number is read generously: texts are read as numbers, and truth
values count as one and zero.  What cannot be read fails for one of three reasons.
-/

namespace Heightfield

namespace Json

/-- Why a value does not give a number. -/
inductive NumberError where
  /-- A text that is no number, or not a number where an integer is needed. -/
  | unreadable
  /-- Infinite, or an integer too large for a double. -/
  | tooLarge
  /-- Null, a list or an object. -/
  | wrongSort
  deriving DecidableEq, Repr

/-- A real number with its fraction dropped. -/
def truncate (x : Float) : Except NumberError Int :=
  match Scalar.floor? x.abs with
  | some n => .ok (if x < 0.0 then -n else n)
  | none => .error (if Scalar.isNaN x then .unreadable else .tooLarge)

/-- The value as an integer. -/
def toInt : Json → Except NumberError Int
  | bool b => .ok b.toInt
  | int n => .ok n
  | real x => truncate x
  | string s => match Reading.integer? s with
    | some n => .ok n
    | none => .error .unreadable
  | null | array _ | object _ => .error .wrongSort

/-- The double nearest to an integer. -/
def doubleOfInt (n : Int) : Except NumberError Float :=
  let x : Float := Scalar.ofInt n
  if Scalar.isFinite x then .ok x else .error .tooLarge

/-- The value as a double. -/
def toDouble : Json → Except NumberError Float
  | bool b => .ok (if b then 1.0 else 0.0)
  | int n => doubleOfInt n
  | real x => .ok x
  | string s => match Reading.double? s with
    | some x => .ok x
    | none => .error .unreadable
  | null | array _ | object _ => .error .wrongSort

end Json

end Heightfield
