import Heightfield.Surface.Axis
import Heightfield.Surface.Interval
import Heightfield.Surface.Raster
import Heightfield.Surface.Resolution
/-!
# Grids

A grid holds what a formula gives over a lattice: in row `i` and column `j` the outcome at
`(xs[j], ys[i])`.  Over the complex plane the real parts are the heights, and there is a
second channel of imaginary parts.

The lattice is swept as a whole when every step of the formula allows it, else cell by cell.
A clip range moves heights only; the imaginary channel stays as it is.
-/

namespace Heightfield

/-- What a sweep gives: heights, or complex numbers, row by row. -/
inductive Sweep (α : Type) where
  | heights (rows : List (List α))
  | numbers (rows : List (List (Complex α)))

structure Grid (α : Type) where
  xs : List α
  ys : List α
  /-- Heights, or real parts. -/
  height : List (List α)
  /-- Imaginary parts, over the complex plane. -/
  imaginary : Option (List (List α))

variable {α : Type} [Analytic α]

/-! ## Sweeps -/

open Formula (Raster Value)

/-- A sweep that evaluates the formula in every cell on its own. -/
def Sweep.pointwise (f : Formula) (xs ys : List α) : Sweep α :=
  match f.mode with
  | .real => .heights (tabulate xs ys fun x y => Value.realOutcome (f.value? x y))
  | .complex => .numbers (tabulate xs ys fun x y => Value.complexOutcome (f.value? x y))

/-- A sweep that evaluates every step of the formula in all cells at once, if none fails and
the values form a raster. -/
def Sweep.whole? (f : Formula) (xs ys : List α) : Option (Sweep α) :=
  (f.sheet? xs ys).bind fun sheet => (Raster.ofRows? (sheet.rows xs ys)).map fun raster =>
    match f.mode with
    | .real => .heights raster.heights
    | .complex => .numbers raster.numbers

/-- The sweep as a whole, if that is wanted and possible, else cell by cell. -/
def Sweep.run (whole : Bool) (f : Formula) (xs ys : List α) : Sweep α :=
  (if whole then Sweep.whole? f xs ys else none).getD (Sweep.pointwise f xs ys)

/-! ## Grids -/

namespace Grid

/-- Heights moved into a clip range, if there is one. -/
def clipped (clip : Option (Clip α)) (rows : List (List α)) : List (List α) :=
  match clip with
  | some c => rows.map (·.map c.apply)
  | none => rows

def ofSweep (xs ys : List α) (clip : Option (Clip α)) : Sweep α → Grid α
  | .heights rows => ⟨xs, ys, clipped clip rows, none⟩
  | .numbers rows =>
    ⟨xs, ys, clipped clip (rows.map (·.map Complex.re)), some (rows.map (·.map Complex.im))⟩

@[simp] theorem xs_ofSweep (xs ys : List α) (clip : Option (Clip α)) (s : Sweep α) :
    (ofSweep xs ys clip s).xs = xs := by cases s <;> rfl

@[simp] theorem ys_ofSweep (xs ys : List α) (clip : Option (Clip α)) (s : Sweep α) :
    (ofSweep xs ys clip s).ys = ys := by cases s <;> rfl

/-- The formula sampled over a domain. -/
def sample (f : Formula) (domain : Domain α) (n : Resolution) (clip : Option (Clip α))
    (whole : Bool) : Grid α :=
  let xs := axisSamples domain.x.lower domain.x.upper n
  let ys := axisSamples domain.y.lower domain.y.upper n
  ofSweep xs ys clip (Sweep.run whole f xs ys)

def mode (g : Grid α) : Mode := if g.imaginary.isSome then .complex else .real

end Grid

/-- The least and the greatest finite number of a channel; zeros if there is none. -/
def finiteBounds (rows : List (List α)) : α × α :=
  match rows.flatten.filter Scalar.isFinite with
  | [] => (Scalar.ofInt 0, Scalar.ofInt 0)
  | v :: vs => (vs.foldl Scalar.min v, vs.foldl Scalar.max v)

end Heightfield
