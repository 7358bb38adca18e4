import Heightfield.Number.Binary64
import Heightfield.Text.Blank
import Heightfield.Text.Digits
/-!
# Reading numbers from text

Numbers in settings, requests and on the command line are read leniently: blanks around
them are ignored, digits of any script count, and single underscores may group digits.
-/

namespace Heightfield

namespace Reading

/-- A decimal digit of any script as an ASCII digit. -/
def asciiDigit (c : Char) : Char :=
  match digitValue? c with
  | some d => Char.ofNat (48 + d)
  | none => c

/-- The text trimmed, with ASCII digits. -/
def normalized (s : String) : List Char := (trim s.toList).map asciiDigit

/-- Digits, single underscores between them, and the rest. -/
def digitRun : List Char → List Char × List Char
  | '_' :: c :: s =>
    if isDigit c then let (ds, r) := digitRun s; (c :: ds, r) else ([], '_' :: c :: s)
  | c :: s => if isDigit c then let (ds, r) := digitRun s; (c :: ds, r) else ([], c :: s)
  | [] => ([], [])

/-- A run that begins with a digit; an empty one is allowed. -/
def digits? : List Char → List Char × List Char
  | '_' :: s => ([], '_' :: s)
  | s => digitRun s

def digitsValue (ds : List Char) : Nat := ds.foldl (fun n c => 10 * n + (c.toNat - 48)) 0

/-- A leading sign, and the rest. -/
def sign : List Char → Bool × List Char
  | '-' :: s => (true, s)
  | '+' :: s => (false, s)
  | s => (false, s)

/-- The integer that a text stands for. -/
def integer? (s : String) : Option Int :=
  let (negative, r) := sign (normalized s)
  match digits? r with
  | ([], _) => none
  | (ds, []) => some (if negative then -(digitsValue ds : Int) else digitsValue ds)
  | _ => none

/-- The exponent at the end of a number: `e` with a signed integer, or nothing. -/
def exponent? : List Char → Option Int
  | [] => some 0
  | c :: s =>
    if c = 'e' || c = 'E' then
      let (negative, r) := sign s
      match digits? r with
      | ([], _) => none
      | (ds, []) => some (if negative then -(digitsValue ds : Int) else digitsValue ds)
      | _ => none
    else none

/-- The double that an unsigned decimal with a point or an exponent stands for. -/
def unsigned? (negative : Bool) (s : List Char) : Option Float :=
  let (whole, r) := digits? s
  let (fraction, r) := match r with
    | '.' :: r => digits? r
    | r => ([], r)
  if whole.isEmpty && fraction.isEmpty then none
  else (exponent? r).map fun e =>
    Binary64.ofDecimal negative (digitsValue (whole ++ fraction)) (e - fraction.length)

/-- The double that a text stands for: a decimal, an infinity or `nan`, in any case. -/
def double? (s : String) : Option Float :=
  let (negative, r) := sign (normalized s)
  let word := String.ofList (r.map Char.toLower)
  if word = "inf" ∨ word = "infinity" then
    some (if negative then -(1.0 / 0.0) else 1.0 / 0.0)
  else if word = "nan" then some (0.0 / 0.0)
  else unsigned? negative r

end Reading

end Heightfield
