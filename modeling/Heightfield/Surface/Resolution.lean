import Heightfield.Json.Number
/-!
# Resolutions

How many samples an axis has is asked for by a JSON value, and must be a whole number that
is at least one.  A truth value is refused, though it could be read as a number.
-/

namespace Heightfield

inductive ResolutionError where
  /-- The value is no whole number, or less than one; with the value as messages show it. -/
  | notPositive (shown : String)
  | noNumber (e : Json.NumberError)
  deriving DecidableEq, Repr

namespace ResolutionError

def message : ResolutionError → String
  | notPositive shown => "resolution must be an integer >= 1, got " ++ shown
  | noNumber _ => ""

end ResolutionError

/-- A number of samples for each axis. -/
abbrev Resolution := { n : Nat // 1 ≤ n }

namespace Resolution

/-- Whether a value equals an integer as a number. -/
def equals (n : Int) : Json → Bool
  | .int m => m == n
  | .real x => Scalar.toInt? x == some n
  | _ => false

/-- The resolution that a value asks for. -/
def ofJson (j : Json) : Except ResolutionError Resolution :=
  match j with
  | .bool _ => .error (.notPositive j.display)
  | j => match j.toInt with
    | .error e => .error (.noNumber e)
    | .ok n =>
      if h : equals n j ∧ 1 ≤ n then .ok ⟨n.toNat, by omega⟩
      else .error (.notPositive j.display)

end Resolution

end Heightfield
