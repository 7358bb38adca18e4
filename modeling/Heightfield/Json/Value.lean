/-!
# JSON values

Requests and answers are JSON.  An integer and a real number are different values here:
`2` may be a resolution and `2.5` may not, whatever doubles they are.  The fields of an
object keep their order, and no name occurs twice.
-/

namespace Heightfield

inductive Json where
  | null
  | bool (b : Bool)
  | int (n : Int)
  | real (x : Float)
  | string (s : String)
  | array (items : List Json)
  | object (fields : List (String × Json))

namespace Json

instance : Inhabited Json := ⟨null⟩

/-- The fields with `name` standing for `value`; a new name goes to the end. -/
def put (name : String) (value : Json) : List (String × Json) → List (String × Json)
  | [] => [(name, value)]
  | (k, v) :: fields =>
    if k = name then (name, value) :: fields else (k, v) :: put name value fields

/-- The value of a field in a list of fields. -/
def get? (fields : List (String × Json)) (name : String) : Option Json :=
  (fields.find? (·.1 = name)).map (·.2)

/-- The value of a field, when `j` is an object that has it. -/
def field? (j : Json) (name : String) : Option Json :=
  match j with
  | object fields => get? fields name
  | _ => none

theorem get?_put (name : String) (value : Json) :
    ∀ fields, get? (put name value fields) name = some value
  | [] => by simp [put, get?]
  | (k, v) :: fields => by
    have ih := get?_put name value fields
    by_cases h : k = name
    · simp [put, get?, h]
    · simpa [put, get?, h] using ih

/-- Whether a value counts as given: not null, false, zero or empty. -/
def isTruthy : Json → Bool
  | null => false
  | bool b => b
  | int n => n != 0
  | real x => !(x == 0.0)
  | string s => !s.isEmpty
  | array items => !items.isEmpty
  | object fields => !fields.isEmpty

end Json

end Heightfield
