import Heightfield.Number.Decimal
import Heightfield.Number.Scalar
/-!
# Intervals

An interval has two finite ends in order.  A domain is a rectangle, one interval for each
axis; a clip range is an interval into which heights are moved.  Both are made from bounds
that somebody typed, so what can be wrong with bounds is a value of its own: first that one
is not finite, then that two are reversed.
-/

namespace Heightfield

structure Interval (α : Type) [Scalar α] where
  lower : α
  upper : α
  lower_finite : Scalar.isFinite lower = true
  upper_finite : Scalar.isFinite upper = true
  ordered : Scalar.lt upper lower = false

/-- What is wrong with bounds. -/
inductive BoundsFault where
  | notFinite | reversed
  deriving DecidableEq, Repr

variable {α : Type} [Scalar α]

/-! ## Domains -/

/-- The rectangle over which a formula is sampled.  An axis may be a single point. -/
structure Domain (α : Type) [Scalar α] where
  x : Interval α
  y : Interval α

/-- Bounds that are no domain, in the order in which they are given. -/
structure DomainError (α : Type) where
  fault : BoundsFault
  xMin : α
  xMax : α
  yMin : α
  yMax : α

namespace Domain

/-- The domain between bounds. -/
def ofBounds (xMin xMax yMin yMax : α) : Except (DomainError α) (Domain α) :=
  if h : Scalar.isFinite xMin ∧ Scalar.isFinite xMax ∧ Scalar.isFinite yMin ∧ Scalar.isFinite yMax then
    if o : Scalar.lt xMax xMin = false ∧ Scalar.lt yMax yMin = false then
      .ok ⟨⟨xMin, xMax, h.1, h.2.1, o.1⟩, ⟨yMin, yMax, h.2.2.1, h.2.2.2, o.2⟩⟩
    else .error ⟨.reversed, xMin, xMax, yMin, yMax⟩
  else .error ⟨.notFinite, xMin, xMax, yMin, yMax⟩

end Domain

/-- Texts with a comma between two. -/
def commaJoined (texts : List String) : String := ", ".intercalate texts

def DomainError.message (e : DomainError Float) : String :=
  let number := Decimal.roundTrip.write
  match e.fault with
  | .notFinite =>
    "Domain bounds must be finite numbers: ("
      ++ commaJoined ([e.xMin, e.xMax, e.yMin, e.yMax].map number) ++ ")"
  | .reversed =>
    "Domain bounds are reversed: x=[" ++ commaJoined ([e.xMin, e.xMax].map number)
      ++ "], y=[" ++ commaJoined ([e.yMin, e.yMax].map number) ++ "]"

/-! ## Clip ranges -/

/-- The range into which heights are moved. -/
abbrev Clip (α : Type) [Scalar α] := Interval α

/-- Bounds that are no clip range. -/
structure ClipError (α : Type) where
  fault : BoundsFault
  lower : α
  upper : α

namespace Clip

/-- The clip range between bounds. -/
def ofBounds (lower upper : α) : Except (ClipError α) (Clip α) :=
  if h : Scalar.isFinite lower ∧ Scalar.isFinite upper then
    if o : Scalar.lt upper lower = false then .ok ⟨lower, upper, h.1, h.2, o⟩
    else .error ⟨.reversed, lower, upper⟩
  else .error ⟨.notFinite, lower, upper⟩

/-- A finite height moved into the range; any other is not a number. -/
def apply (clip : Clip α) (v : α) : α :=
  if Scalar.isFinite v then Scalar.clamp clip.lower clip.upper v else Scalar.nan

end Clip

def ClipError.message (e : ClipError Float) : String :=
  let bounds := "[" ++ commaJoined ([e.lower, e.upper].map Decimal.roundTrip.write) ++ "]"
  match e.fault with
  | .notFinite => "Clip bounds must be finite numbers: " ++ bounds
  | .reversed => "Clip range is reversed: " ++ bounds

end Heightfield
