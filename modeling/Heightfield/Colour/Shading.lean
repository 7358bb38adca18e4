import Heightfield.Colour.Table
/-!
# Colouring heights

A height is placed between the limits, from zero at the lower to one at the upper, and
moved there when it lies outside.  What is not a number stands in the middle, and infinities
at the ends.  Its place selects one of the 256 colours of the map.
-/

namespace Heightfield

namespace Colour

variable {α : Type} [Scalar α]

open Scalar (ofInt)

/-- The width of the limits; one when they coincide. -/
def span (lower upper : α) : α :=
  let width := upper - lower
  if Scalar.isZero width then ofInt 1 else width

/-- The place of a height between the limits. -/
def place (lower upper v : α) : α :=
  let t :=
    if Scalar.isNaN v then Scalar.ofRatio 1 2
    else if Scalar.isInfinite v then (if Scalar.isNegative v then ofInt 0 else ofInt 1)
    else (v - lower) / span lower upper
  Scalar.clamp (ofInt 0) (ofInt 1) t

/-- The entry that a place selects; none if the place is not a number. -/
def index? (t : α) : Option (Fin 256) :=
  (Scalar.floor? (t * ofInt 256)).map fun n => ⟨min n.toNat 255, by omega⟩

def black : Rgb α := ⟨ofInt 0, ofInt 0, ofInt 0⟩

/-- The colour of a height. -/
def shade (table : Table α) (lower upper v : α) : Rgb α :=
  match index? (place lower upper v) with
  | some i => table[i]
  | none => black

/-- The colours of a table of heights. -/
def shadeAll (name : Option String) (lower upper : α) (rows : List (List α)) : List (List (Rgb α)) :=
  let table : Table α := (resolve name).table
  rows.map (·.map (shade table lower upper))

/-! ## Rounding -/

/-- The nearest integer, of two the even one. -/
def roundHalfEven (x : α) : α :=
  let below := Scalar.floor x
  let rest := x - below
  let half := Scalar.ofRatio 1 2
  if Scalar.lt rest half then below
  else if Scalar.lt half rest then below + ofInt 1
  else if Scalar.isZero (Scalar.mod below (ofInt 2)) then below
  else below + ofInt 1

/-- A channel in four decimals. -/
def rounded (x : α) : α := roundHalfEven (x * ofInt 10000) / ofInt 10000

/-- The three channels in four decimals. -/
def Rgb.channels (c : Rgb α) : List α := [rounded c.red, rounded c.green, rounded c.blue]

end Colour

end Heightfield
