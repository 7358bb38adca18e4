import Heightfield.Number.Binary64
/-!
# Doubles as decimal text

Three forms of a double are written: a fixed number of significant digits in
scientific notation, the same in the general notation of tables, and the fewest digits
that read back as the same double.  All are exact: the value is a quotient of integers,
the digits come from integer division, and a tie goes to the even digit.
-/

namespace Heightfield

namespace Decimal

/-- A positive decimal: `d₁.d₂…dₙ * 10 ^ exponent`, the digits read as one number. -/
structure Digits where
  digits : Nat
  exponent : Int
  deriving DecidableEq, Repr

/-- `10 ^ k` as a quotient. -/
def power (k : Int) : Nat × Nat :=
  if 0 ≤ k then (Binary64.tenTo k.toNat, 1) else (1, Binary64.tenTo (-k).toNat)

/-- The decimal exponent of `num / den`: the `k` with `10 ^ k ≤ num / den < 10 ^ (k + 1)`. -/
def magnitude (num den : Nat) : Int :=
  let guess : Int := (Binary64.digitCount num : Int) - Binary64.digitCount den
  let (p, q) := power guess
  if den * p ≤ num * q then guess else guess - 1

/-- `num / den` in units of `10 ^ k`, as a quotient. -/
def inUnits (num den : Nat) (k : Int) : Nat × Nat :=
  let (p, q) := power k
  (num * q, den * p)

/-- `num / den` rounded to `n` significant digits. -/
def significant (n : Nat) (num den : Nat) : Digits :=
  let k := magnitude num den
  let (a, b) := inUnits num den (k - n + 1)
  let q := Binary64.roundQuotient a b
  if q = Binary64.tenTo n then ⟨Binary64.tenTo (n - 1), k + 1⟩ else ⟨q, k⟩

/-! ## The fewest digits -/

/-- Whether `digits * 10 ^ unit` is read as the double `x`. -/
def readsAs (x : Float) (digits : Nat) (unit : Int) : Bool :=
  Binary64.ofDecimal false digits unit == x

/-- The decimal of `n` digits nearest to `num / den` among its two neighbours that are
read as `x`, if one is. -/
def shortestAt (x : Float) (num den : Nat) (n : Nat) : Option Digits :=
  let k := magnitude num den
  let unit := k - n + 1
  let (a, b) := inUnits num den unit
  let below := a / b
  let nearest := Binary64.roundQuotient a b
  let farther := if nearest = below then below + 1 else below
  let normal (q : Nat) : Digits := if q = Binary64.tenTo n then ⟨Binary64.tenTo (n - 1), k + 1⟩ else ⟨q, k⟩
  if readsAs x nearest unit then some (normal nearest)
  else if readsAs x farther unit then some (normal farther)
  else none

/-- The fewest digits, at most 17, that are read as `x`; `num / den` is its value. -/
def shortest (x : Float) (num den : Nat) : Nat × Digits :=
  match (List.range 17).findSome? (fun i => (shortestAt x num den (i + 1)).map ((i + 1, ·))) with
  | some r => r
  | none => (17, significant 17 num den)

/-! ## Writing -/

/-- The digits of `q`, padded with zeros on the left to `n` of them. -/
def padded (n q : Nat) : List Char :=
  let ds := Nat.toDigits 10 q
  List.replicate (n - ds.length) '0' ++ ds

/-- An exponent with its sign and at least two digits. -/
def exponentText (e : Int) : List Char :=
  'e' :: (if e < 0 then '-' else '+') :: padded 2 e.natAbs

def withPoint (whole fraction : List Char) : List Char :=
  if fraction.isEmpty then whole else whole ++ '.' :: fraction

/-- `d.ddd…e±xx`. -/
def scientificText (ds : List Char) (e : Int) : List Char :=
  withPoint (ds.take 1) (ds.drop 1) ++ exponentText e

/-- Positional notation, the first digit standing for `10 ^ e`. -/
def positionalText (ds : List Char) (e : Int) : List Char :=
  if e < 0 then
    withPoint ['0'] (List.replicate (-e - 1).toNat '0' ++ ds)
  else
    let whole := ds.take (e.toNat + 1)
    withPoint (whole ++ List.replicate (e.toNat + 1 - whole.length) '0') (ds.drop (e.toNat + 1))

def withoutTrailingZeros (ds : List Char) : List Char :=
  (ds.reverse.dropWhile (· = '0')).reverse

/-- How the digits of a number and its decimal exponent become text. -/
structure Style where
  /-- The text of zero, without a sign. -/
  zero : String
  /-- How many digits a finite value that is not zero has, and which. -/
  digits : Float → Nat → Nat → Nat × Digits
  text : List Char → Int → List Char
  infinity : String
  nan : String

/-- The text of a double in a style; a negative zero has a sign. -/
def Style.write (style : Style) (x : Float) : String :=
  match Binary64.ofFloat x with
  | .nan => style.nan
  | .infinite negative => if negative then "-" ++ style.infinity else style.infinity
  | .finite negative significand exponent =>
    let sign := if negative then "-" else ""
    if significand = 0 then sign ++ style.zero
    else
      let (num, den) := Binary64.quotient significand exponent
      let (n, ds) := style.digits x.abs num den
      sign ++ String.ofList (style.text (padded n ds.digits) ds.exponent)

/-- `n` significant digits in scientific notation. -/
def scientific (n : Nat) : Style where
  zero := String.ofList (scientificText (List.replicate n '0') 0)
  digits _ num den := (n, significant n num den)
  text := scientificText
  infinity := "inf"
  nan := "nan"

/-- At most six significant digits, positional from `0.0001` to `999999`, without
trailing zeros. -/
def general : Style where
  zero := "0"
  digits _ num den := (6, significant 6 num den)
  text ds e :=
    let ds := withoutTrailingZeros ds
    if -4 ≤ e ∧ e < 6 then positionalText ds e else scientificText ds e
  infinity := "inf"
  nan := "nan"

/-- The fewest digits that read back, positional from `0.0001` to below `10 ^ 16`; a
positional number always has a fraction. -/
def roundTrip : Style where
  zero := "0.0"
  digits := shortest
  text ds e :=
    if -4 ≤ e ∧ e < 16 then
      let t := positionalText ds e
      if t.contains '.' then t else t ++ ['.', '0']
    else scientificText ds e
  infinity := "inf"
  nan := "nan"

end Decimal

end Heightfield
