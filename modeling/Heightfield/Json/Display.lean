import Heightfield.Json.Writer
/-!
# JSON values in messages

A message that names an offending value shows it in a notation of its own: texts in
quotes, `None` for null, `True` and `False`, and lists and objects item by item.
-/

namespace Heightfield

namespace Json

mutual

def displayChars : Json → List Char
  | null => "None".toList
  | bool b => if b then "True".toList else "False".toList
  | int n => (toString n).toList
  | real x => (Decimal.roundTrip.write x).toList
  | string s => quoted s.toList
  | array items => '[' :: commaSeparated (displayItems items) ++ [']']
  | object fields => '\x7b' :: commaSeparated (displayFields fields) ++ ['\x7d']

def displayItems : List Json → List (List Char)
  | [] => []
  | j :: items => displayChars j :: displayItems items

def displayFields : List (String × Json) → List (List Char)
  | [] => []
  | (name, j) :: fields => (quoted name.toList ++ ':' :: ' ' :: displayChars j) :: displayFields fields

end

/-- The value as a message shows it. -/
def display (j : Json) : String := String.ofList (displayChars j)

/-- The same, with a text that stands alone left without quotes. -/
def displayPlain : Json → String
  | string s => s
  | j => display j

end Json

end Heightfield
