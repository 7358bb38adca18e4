import Heightfield.Json.Value
import Heightfield.Number.Binary64
import Heightfield.Text.Blank
/-!
# Reading JSON

The reader accepts standard JSON and, besides, the numbers `NaN`, `Infinity` and
`-Infinity`.  A number with a point or an exponent is real, any other is an integer.  Of
two fields with one name the last counts.  Values may be nested to a fixed depth; the
recursion of the reader is on what is left of it.
-/

namespace Heightfield

namespace Json

inductive ReadError where
  | malformed
  | tooDeep
  deriving DecidableEq, Repr

def isSpace (c : Char) : Bool := c = ' ' || c = '\t' || c = '\n' || c = '\r'

def skip (s : List Char) : List Char := s.dropWhile isSpace

/-! ## Strings -/

def hexDigit? (c : Char) : Option Nat :=
  if isDigit c then some (c.toNat - 48)
  else if 'a' ≤ c ∧ c ≤ 'f' then some (c.toNat - 87)
  else if 'A' ≤ c ∧ c ≤ 'F' then some (c.toNat - 55)
  else none

/-- The code unit written with four hexadecimal digits. -/
def unit? (a b c d : Char) : Option Nat := do
  let a ← hexDigit? a
  let b ← hexDigit? b
  let c ← hexDigit? c
  let d ← hexDigit? d
  return ((a * 16 + b) * 16 + c) * 16 + d

/-- A code unit on its own; half of a pair becomes the replacement character. -/
def ofUnit (u : Nat) : Char :=
  if 0xD800 ≤ u ∧ u < 0xE000 then '\uFFFD' else Char.ofNat u

/-- The character of a pair of code units, when it is one. -/
def ofPair? (high low : Nat) : Option Char :=
  if 0xD800 ≤ high ∧ high < 0xDC00 ∧ 0xDC00 ≤ low ∧ low < 0xE000 then
    some (Char.ofNat (0x10000 + (high - 0xD800) * 0x400 + (low - 0xDC00)))
  else none

/-- The character of a one-letter escape. -/
def escape? (c : Char) : Option Char :=
  match c with
  | '"' => some '"'
  | '\\' => some '\\'
  | '/' => some '/'
  | 'b' => some '\x08'
  | 'f' => some '\x0C'
  | 'n' => some '\n'
  | 'r' => some '\r'
  | 't' => some '\t'
  | _ => none

/-- The characters up to the closing quote. -/
def characters : List Char → Option (List Char × List Char)
  | [] => none
  | '"' :: s => some ([], s)
  | '\\' :: 'u' :: a :: b :: c :: d :: '\\' :: 'u' :: e :: f :: g :: h :: s =>
    match (unit? a b c d).bind fun u => (unit? e f g h).bind (ofPair? u) with
    | some x => (characters s).map fun (cs, r) => (x :: cs, r)
    | none => (unit? a b c d).bind fun u =>
      (characters ('\\' :: 'u' :: e :: f :: g :: h :: s)).map fun (cs, r) => (ofUnit u :: cs, r)
  | '\\' :: 'u' :: a :: b :: c :: d :: s =>
    (unit? a b c d).bind fun u => (characters s).map fun (cs, r) => (ofUnit u :: cs, r)
  | '\\' :: c :: s =>
    (escape? c).bind fun x => (characters s).map fun (cs, r) => (x :: cs, r)
  | c :: s =>
    if c.toNat < 0x20 then none else (characters s).map fun (cs, r) => (c :: cs, r)

def text (s : List Char) : Except ReadError (String × List Char) :=
  match characters s with
  | some (cs, r) => .ok (String.ofList cs, r)
  | none => .error .malformed

/-! ## Numbers -/

def natural (ds : List Char) : Nat := ds.foldl (fun n c => 10 * n + (c.toNat - 48)) 0

/-- The digits after a point, when a digit follows it. -/
def fraction : List Char → Option (List Char) × List Char
  | '.' :: s =>
    match s.takeWhile isDigit with
    | [] => (none, '.' :: s)
    | ds => (some ds, s.dropWhile isDigit)
  | s => (none, s)

/-- The sign of an exponent, and the rest. -/
def exponentSign : List Char → Bool × List Char
  | '-' :: s => (true, s)
  | '+' :: s => (false, s)
  | s => (false, s)

/-- An exponent, when a digit stands in it. -/
def exponent : List Char → Option Int × List Char
  | [] => (none, [])
  | c :: s =>
    if c = 'e' ∨ c = 'E' then
      let (negative, r) := exponentSign s
      match r.takeWhile isDigit with
      | [] => (none, c :: s)
      | ds => (some (if negative then -(natural ds : Int) else natural ds), r.dropWhile isDigit)
    else (none, c :: s)

/-- The longest integer that a text may hold. -/
def maxIntegerDigits : Nat := 4300

def unsigned (negative : Bool) (s : List Char) : Except ReadError (Json × List Char) :=
  let whole := match s with
    | '0' :: _ => ['0']
    | s => s.takeWhile isDigit
  if whole.isEmpty then .error .malformed
  else
    let (f, r) := fraction (s.drop whole.length)
    let (e, r) := exponent r
    match f, e with
    | none, none =>
      if whole.length > maxIntegerDigits then .error .malformed
      else .ok (int (if negative then -(natural whole : Int) else natural whole), r)
    | f, e =>
      let ds := f.getD []
      .ok (real (Binary64.ofDecimal negative (natural (whole ++ ds)) (e.getD 0 - ds.length)), r)

def number : List Char → Except ReadError (Json × List Char)
  | '-' :: s => unsigned true s
  | s => unsigned false s

/-! ## Values -/

/-- What a text reads as that begins with a word for a value. -/
def words : List (List Char × Json) :=
  [("null".toList, null), ("true".toList, bool true), ("false".toList, bool false),
   ("NaN".toList, real (0.0 / 0.0)), ("Infinity".toList, real (1.0 / 0.0)),
   ("-Infinity".toList, real (-1.0 / 0.0))]

/-- A word, a number or nothing that is known. -/
def scalar (s : List Char) : Except ReadError (Json × List Char) :=
  match words.find? (fun w => w.1.isPrefixOf s) with
  | some (w, v) => .ok (v, s.drop w.length)
  | none => number s

/-- Items up to the closing bracket; `n` bounds their number. -/
def items (item : List Char → Except ReadError (Json × List Char)) :
    Nat → List Char → Except ReadError (List Json × List Char)
  | 0, _ => .error .malformed
  | n + 1, s => do
    let (v, r) ← item (skip s)
    match skip r with
    | ',' :: r =>
      let (vs, r) ← items item n r
      return (v :: vs, r)
    | ']' :: r => return ([v], r)
    | _ => .error .malformed

/-- Fields up to the closing brace, after those already read. -/
def fields (item : List Char → Except ReadError (Json × List Char)) :
    Nat → List (String × Json) → List Char →
    Except ReadError (List (String × Json) × List Char)
  | 0, _, _ => .error .malformed
  | n + 1, known, s =>
    match skip s with
    | '"' :: s => do
      let (name, r) ← text s
      match skip r with
      | ':' :: r =>
        let (v, r) ← item (skip r)
        match skip r with
        | ',' :: r => fields item n (put name v known) r
        | '\x7d' :: r => return (put name v known, r)
        | _ => .error .malformed
      | _ => .error .malformed
    | _ => .error .malformed

/-- The value at the beginning of a text, with at most `depth` containers around one
another. -/
def value : Nat → List Char → Except ReadError (Json × List Char)
  | depth, s =>
    match s with
    | '"' :: s => do
      let (t, r) ← text s
      return (string t, r)
    | '[' :: s => match depth with
      | 0 => .error .tooDeep
      | depth + 1 => match skip s with
        | ']' :: r => return (array [], r)
        | s => do
          let (vs, r) ← items (value depth) (s.length + 1) s
          return (array vs, r)
    | '\x7b' :: s => match depth with
      | 0 => .error .tooDeep
      | depth + 1 => match skip s with
        | '\x7d' :: r => return (object [], r)
        | s => do
          let (fs, r) ← fields (value depth) (s.length + 1) [] s
          return (object fs, r)
    | s => scalar s

/-- How deep containers may be nested. -/
def maxDepth : Nat := 990

def read (s : List Char) : Except ReadError Json := do
  let (v, r) ← value maxDepth (skip s)
  if (skip r).isEmpty then .ok v else .error .malformed

end Json

end Heightfield
