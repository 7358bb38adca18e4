import Heightfield.Formula.Names
import Heightfield.Number.Reading
/-!
# Tokens

The text of a formula is cut into tokens from left to right.  Blanks separate tokens and
mean nothing else; a line break means nothing between parentheses and ends the formula
elsewhere.  Two marks that form a longer one do so across blanks too: `* *` is a power.

The factorial mark is resolved here: it becomes a call of `factorial`, or of
`factorial2` for two marks, around what stands before it — a number, a name, a group,
or a group with the name that stands before it.
-/

namespace Heightfield.Formula

inductive Mark where
  | plus | minus | times | over | quotient | remainder | power
  | opening | closing | comma
  /-- The factorial mark. -/
  | bang
  /-- A blank directly before a factorial mark. -/
  | gap
  | ellipsis
  deriving DecidableEq, Repr

inductive Token where
  | integer (n : Nat)
  | decimal (digits : Nat) (exponent : Int)
  | name (s : String)
  /-- A name nobody defined, directly before its operands. -/
  | undefined (s : String)
  | mark (m : Mark)
  | lineEnd
  deriving DecidableEq, Repr

namespace Token

/-! ## Numbers -/

/-- The longest integer that may be written in decimal. -/
def maxDigits : Nat := 4300

/-- The value of a digit in base 16, or in a smaller base when it is a digit there. -/
def digitIn? (base : Nat) (c : Char) : Option Nat :=
  let d := if isDigit c then c.toNat - 48
    else if 'a' ≤ c ∧ c ≤ 'f' then c.toNat - 87
    else if 'A' ≤ c ∧ c ≤ 'F' then c.toNat - 55
    else base
  if d < base then some d else none

/-- Digits in a base, each possibly after one underscore, added to `value`. -/
def digitsIn (base value : Nat) : List Char → Nat × List Char
  | '_' :: c :: s => match digitIn? base c with
    | some d => digitsIn base (value * base + d) s
    | none => (value, '_' :: c :: s)
  | c :: s => match digitIn? base c with
    | some d => digitsIn base (value * base + d) s
    | none => (value, c :: s)
  | [] => (value, [])

/-- The base that a letter after a leading zero announces. -/
def base? (c : Char) : Option Nat :=
  if c = 'x' ∨ c = 'X' then some 16
  else if c = 'o' ∨ c = 'O' then some 8
  else if c = 'b' ∨ c = 'B' then some 2
  else none

/-- An integer with a base of its own, such as `0x1F`. -/
def based? : List Char → Option (Token × List Char)
  | '0' :: c :: s => (base? c).bind fun base =>
    let (n, r) := digitsIn base 0 s
    if r.length < s.length then some (integer n, r) else none
  | _ => none

/-- The digits after a point; none without a point. -/
def fraction? : List Char → Option (List Char × List Char)
  | '.' :: s => some (Reading.digits? s)
  | _ => none

/-- An exponent and the rest, when one stands there. -/
def exponent? : List Char → Option (Int × List Char)
  | c :: s =>
    if c = 'e' ∨ c = 'E' then
      let (negative, r) := Reading.sign s
      match Reading.digits? r with
      | ([], _) => none
      | (ds, r) =>
        some (if negative then -(Reading.digitsValue ds : Int) else Reading.digitsValue ds, r)
    else none
  | [] => none

/-- A letter that would make the number imaginary. -/
def startsImaginary : List Char → Bool
  | c :: _ => c = 'j' || c = 'J'
  | [] => false

/-- A decimal number; an integer has no leading zeros unless it is zero. -/
def decimal? (s : List Char) : Option (Token × List Char) :=
  let (whole, r) := Reading.digits? s
  let (fraction, r, isDecimal) := match fraction? r with
    | some (ds, r) => (ds, r, true)
    | none => ([], r, false)
  let (e, r, isDecimal) := match exponent? r with
    | some (e, r) => (e, r, true)
    | none => (0, r, isDecimal)
  if startsImaginary r then none
  else if isDecimal then
    some (decimal (Reading.digitsValue (whole ++ fraction)) (e - fraction.length), r)
  else if whole.head? = some '0' ∧ Reading.digitsValue whole ≠ 0 then none
  else if whole.length > maxDigits then none
  else some (integer (Reading.digitsValue whole), r)

def number? (s : List Char) : Option (Token × List Char) :=
  match based? s with
  | some r => some r
  | none => decimal? s

/-! ## Names and marks -/

/-- Blanks that may stand between tokens. -/
def isSpace (c : Char) : Bool := c = ' ' || c = '\t' || c = '\x0C'

def isNameStart (c : Char) : Bool := isLetter c || c = '_'

def isNameChar (c : Char) : Bool := isAlphanumeric c || c = '_'

/-- The token of a name that is followed by `rest`. -/
def ofName (s : String) (rest : List Char) : Token :=
  if (rest.dropWhile isSpace).head? = some '(' && !isReserved s then undefined s else name s

/-- A mark, and the rest behind it. -/
def mark? : List Char → Option (Mark × List Char)
  | '+' :: s => some (.plus, s)
  | '-' :: s => some (.minus, s)
  | '%' :: s => some (.remainder, s)
  | '^' :: s => some (.power, s)
  | '(' :: s => some (.opening, s)
  | ')' :: s => some (.closing, s)
  | ',' :: s => some (.comma, s)
  | '!' :: s => some (.bang, s)
  | '*' :: s => match s.dropWhile isSpace with
    | '*' :: r => some (.power, r)
    | _ => some (.times, s)
  | '/' :: s => match s.dropWhile isSpace with
    | '/' :: r => some (.quotient, r)
    | _ => some (.over, s)
  | '.' :: s => match s.dropWhile isSpace with
    | '.' :: s => match s.dropWhile isSpace with
      | '.' :: r => some (.ellipsis, r)
      | _ => none
    | _ => none
  | _ => none

/-! ## Cutting -/

/-- How many parentheses are open behind a mark. -/
def depthAfter (depth : Nat) : Mark → Nat
  | .opening => depth + 1
  | .closing => depth - 1
  | _ => depth

/-- Whether the next line begins with a blank before something else. -/
def isIndented (s : List Char) : Bool :=
  match s.dropWhile isSpace with
  | [] => false
  | c :: _ => c != '\n' && c != '\r' && (s.head?.any isSpace)

/-- The tokens of a text; `depth` parentheses are open before it, and `fuel` bounds the
number of steps. -/
def scan : (fuel : Nat) → (depth : Nat) → List Char → Option (List Token)
  | 0, _, _ => none
  | _, _, [] => some []
  | fuel + 1, depth, c :: s =>
    if (isSpace c || c = '\n' || c = '\r') && s.head? = some '!' then
      (scan fuel depth s).map (mark .gap :: ·)
    else if isSpace c then scan fuel depth s
    else if c = '\n' then
      if depth ≠ 0 then scan fuel depth s
      else if isIndented s then none
      else (scan fuel depth s).map (lineEnd :: ·)
    else if c = '\r' then
      if depth ≠ 0 || s.head? = some '\n' then scan fuel depth s
      else (scan fuel depth s).map (lineEnd :: ·)
    else if isDigit c || (c = '.' && s.head?.any isDigit) then
      (number? (c :: s)).bind fun (t, r) => (scan fuel depth r).map (t :: ·)
    else if isNameStart c then
      let r := s.dropWhile isNameChar
      let t := ofName (String.ofList (c :: s.takeWhile isNameChar)) r
      (scan fuel depth r).map (t :: ·)
    else
      (mark? (c :: s)).bind fun (m, r) => (scan fuel (depthAfter depth m) r).map (mark m :: ·)

/-! ## Factorials

The tokens before a mark are kept in reverse, the last first. -/

/-- The rest of a group that was entered from behind, up to the parenthesis that opens
it, `depth` others being open in between; and what stands before the group. -/
def group? (depth : Nat) : List Token → Option (List Token × List Token)
  | [] => none
  | t :: before =>
    if t = mark .opening ∧ depth = 0 then some ([t], before)
    else
      let depth := if t = mark .opening then depth - 1
        else if t = mark .closing then depth + 1 else depth
      (group? depth before).map fun (g, rest) => (t :: g, rest)

/-- An operand in reverse, together with a name of fixed meaning in front of it. -/
def withName (operand : List Token) : List Token → List Token × List Token
  | name s :: rest => if isReserved s then (operand ++ [name s], rest) else (operand, name s :: rest)
  | rest => (operand, rest)

/-- The operand of a factorial mark and what stands before it, both in reverse.  Behind a
blank the operand is at most a name. -/
def factorialOperand? : List Token → Option (List Token × List Token)
  | mark .closing :: before => (group? 0 before).map fun (g, rest) => withName (mark .closing :: g) rest
  | integer n :: rest => some ([integer n], rest)
  | decimal d e :: rest => some ([decimal d e], rest)
  | name s :: rest => some (if isReserved s then withName [name s] rest else ([name s], rest))
  | mark .ellipsis :: rest => some (withName [mark .ellipsis] rest)
  | mark .gap :: rest => some (withName [] rest)
  | _ => none

/-- The tokens, in reverse, with a call of a function around the operand that ends them. -/
def wrapped (function : String) (before : List Token) : Option (List Token) :=
  (factorialOperand? before).map fun (operand, rest) =>
    mark .closing :: operand ++ mark .opening :: name function :: rest

/-- The tokens, in reverse, after `n` factorial marks in a row. -/
def afterMarks (n : Nat) (before : List Token) : Option (List Token) :=
  match n with
  | 0 => some before
  | 1 => wrapped "factorial" before
  | 2 => wrapped "factorial2" before
  | _ => none

/-- The tokens with every factorial mark made a call; `before` is what has been
read, in reverse, and `n` counts the marks since.  A blank before a mark forgets the marks
before it. -/
def resolveFactorials : (before : List Token) → (n : Nat) → List Token → Option (List Token)
  | before, n, [] => (afterMarks n before).map List.reverse
  | before, n, mark .bang :: ts => resolveFactorials before (n + 1) ts
  | before, _, mark .gap :: ts => resolveFactorials (mark .gap :: before) 0 ts
  | before, n, t :: ts =>
    (afterMarks n before).bind fun before => resolveFactorials (t :: before) 0 ts

/-- The tokens of a text. -/
def tokens (s : List Char) : Option (List Token) :=
  ((scan (s.length + 1) 0 s).bind (resolveFactorials [] 0)).map (·.filter (· ≠ mark .gap))

end Token

end Heightfield.Formula
