import Heightfield.Surface.Grid
/-!
# Display limits

The limits between which a surface is shown leave out its extreme heights.  Of the sorted
finite heights a percentage in the middle is kept, and the range of those that are kept is
widened by a tenth on both sides.

The first and the last height kept are chosen by formulas that anyone can leave the range of:
a percentage above one hundred keeps everything, one below zero turns the limits around, and
one that is no finite number chooses nothing.
-/

namespace Heightfield

variable {α : Type} [Scalar α]

open Scalar (ofInt ofNat)

/-- Why no limits can be chosen: the positions are not numbers, or too large. -/
inductive LimitsError where
  | notANumber | tooLarge
  deriving DecidableEq, Repr

structure Limits (α : Type) where
  lower : α
  upper : α
  deriving DecidableEq, Repr

namespace Limits

/-- The limits of a surface without a finite height. -/
def fallback : Limits α := ⟨ofInt (-10), ofInt 10⟩

/-- The part of the range that is added on both sides. -/
def padding : α := Scalar.ofRatio 1 10

/-- A position moved into the indexes of `n` heights. -/
def clampIndex (n : Nat) (i : Int) : Nat := (min (max i 0) (n - 1)).toNat

def position (rounded : Option Int) (x : α) : Except LimitsError Int :=
  match rounded with
  | some i => .ok i
  | none => .error (if Scalar.isNaN x then .notANumber else .tooLarge)

/-- The index of the first of `n` sorted heights that is kept. -/
def lowerIndex (n : Nat) (percentile : α) : Except LimitsError Nat :=
  let x := ofNat n * (ofInt 100 - percentile) / ofInt 200
  (position (Scalar.floor? x) x).map (clampIndex n)

/-- The index of the last one. -/
def upperIndex (n : Nat) (percentile : α) : Except LimitsError Nat :=
  let x := ofNat n * (ofInt 100 + percentile) / ofInt 200
  (position (Scalar.ceil? x) x).map fun i => clampIndex n (i - 1)

/-- The range with a tenth of its width added on both sides. -/
def padded (lower upper : α) : Limits α :=
  let margin := (upper - lower) * padding
  ⟨lower - margin, upper + margin⟩

/-- The heights that can be shown, in increasing order. -/
def sortedHeights (rows : List (List α)) : List α :=
  (rows.flatten.filter Scalar.isFinite).mergeSort Scalar.le

/-- The limits for a table of heights. -/
def ofHeights (rows : List (List α)) (percentile : α) : Except LimitsError (Limits α) :=
  let heights := (sortedHeights rows).toArray
  let n := heights.size
  if n = 0 then .ok fallback
  else do
    let i ← lowerIndex n percentile
    let j ← upperIndex n percentile
    return padded (heights[i]?.getD (ofInt 0)) (heights[j]?.getD (ofInt 0))

end Limits

/-- The limits for the heights of a grid. -/
def Grid.limits (g : Grid α) (percentile : α) : Except LimitsError (Limits α) :=
  Limits.ofHeights g.height percentile

end Heightfield
