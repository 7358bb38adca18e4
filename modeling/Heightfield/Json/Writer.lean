import Heightfield.Json.Value
import Heightfield.Number.Decimal
import Heightfield.Text.Quoted
/-!
# Writing JSON

`Json.line` writes a value on one line, in ASCII: every other character, and every
control, is escaped.  Reals have the fewest digits that read back.
-/

namespace Heightfield

namespace Json

/-- `\uXXXX` of a code unit. -/
def unitEscape (u : Nat) : List Char := '\\' :: 'u' :: Quoted.hexadecimal 4 u

def writeChar (c : Char) : List Char :=
  if c = '"' ∨ c = '\\' then ['\\', c]
  else if c = '\n' then ['\\', 'n']
  else if c = '\r' then ['\\', 'r']
  else if c = '\t' then ['\\', 't']
  else if c = '\x08' then ['\\', 'b']
  else if c = '\x0C' then ['\\', 'f']
  else if 0x20 ≤ c.toNat ∧ c.toNat < 0x7F then [c]
  else if c.toNat < 0x10000 then unitEscape c.toNat
  else
    let u := c.toNat - 0x10000
    unitEscape (0xD800 + u / 0x400) ++ unitEscape (0xDC00 + u % 0x400)

def writeString (s : String) : List Char := '"' :: s.toList.flatMap writeChar ++ ['"']

/-- Reals as JSON readers that know infinities write them. -/
def realStyle : Decimal.Style :=
  { Decimal.roundTrip with infinity := "Infinity", nan := "NaN" }

/-- The texts one after the other, with a comma between two. -/
def commaSeparated (texts : List (List Char)) : List Char := [',', ' '].intercalate texts

mutual

def write : Json → List Char
  | null => "null".toList
  | bool b => if b then "true".toList else "false".toList
  | int n => (toString n).toList
  | real x => (realStyle.write x).toList
  | string s => writeString s
  | array items => '[' :: commaSeparated (writeItems items) ++ [']']
  | object fields => '\x7b' :: commaSeparated (writeFields fields) ++ ['\x7d']

def writeItems : List Json → List (List Char)
  | [] => []
  | j :: items => write j :: writeItems items

def writeFields : List (String × Json) → List (List Char)
  | [] => []
  | (name, j) :: fields => (writeString name ++ ':' :: ' ' :: write j) :: writeFields fields

end

/-- The value on one line. -/
def line (j : Json) : String := String.ofList (write j)

end Json

end Heightfield
