import Heightfield.Number.Elementary
/-!
# Phases

The phase of a complex number is its angle, and the hue is the phase as a place on the
colour circle.  Lists of parts are taken together place by place, and a list of one number
stretches to any length.
-/

namespace Heightfield

namespace Colour

variable {α : Type} [Analytic α]

/-- The angle of a complex number. -/
def phase (re im : α) : α := Analytic.atan2 im re

/-- The degrees from zero to 360 that belong to an angle between half a turn each way. -/
def hue (angle : α) : α :=
  (angle + Analytic.pi) / (Scalar.ofInt 2 * Analytic.pi) * Scalar.ofInt 360

/-- One number, or several. -/
inductive Parts (α : Type) where
  | one (x : α)
  | many (xs : List α)

/-- The phases of numbers given by their parts; none if two lists do not fit together. -/
def phases? (re im : Parts α) : Option (Parts α) :=
  match re, im with
  | .one x, .one y => some (.one (phase x y))
  | .one x, .many ys => some (.many (ys.map (phase x)))
  | .many xs, .one y => some (.many (xs.map (phase · y)))
  | .many [x], .many ys => some (.many (ys.map (phase x)))
  | .many xs, .many [y] => some (.many (xs.map (phase · y)))
  | .many xs, .many ys =>
    if xs.length = ys.length then some (.many (List.zipWith phase xs ys)) else none

def Parts.map (f : α → α) : Parts α → Parts α
  | .one x => .one (f x)
  | .many xs => .many (xs.map f)

end Colour

end Heightfield
