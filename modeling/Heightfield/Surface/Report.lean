import Heightfield.Json.Writer
import Heightfield.Number.Double
import Heightfield.Surface.Limits
import Heightfield.Surface.Statistics
/-!
# Reports of surfaces

A grid, its limits and its statistics as JSON values, in which a cell without a finite
number is null, and as a table of a few rows with six digits.
-/

namespace Heightfield

namespace Report

/-! ## As JSON -/

def finite (x : Float) : Json := if Scalar.isFinite x then .real x else .null

def row (xs : List Float) : Json := .array (xs.map finite)

def matrix (rows : List (List Float)) : Json := .array (rows.map row)

def domain (d : Domain Float) : Json :=
  .object [("xMin", .real d.x.lower), ("xMax", .real d.x.upper),
    ("yMin", .real d.y.lower), ("yMax", .real d.y.upper)]

def grid (g : Grid Float) : Json :=
  let (low, high) := finiteBounds g.height
  let axes := [("mode", Json.string g.mode.name), ("x", row g.xs), ("y", row g.ys)]
  match g.imaginary with
  | none => .object (axes ++ [("z", matrix g.height), ("zMin", .real low), ("zMax", .real high)])
  | some imaginary =>
    let (imaginaryLow, imaginaryHigh) := finiteBounds imaginary
    .object (axes ++ [("real", matrix g.height), ("imaginary", matrix imaginary),
      ("realMin", .real low), ("realMax", .real high),
      ("imaginaryMin", .real imaginaryLow), ("imaginaryMax", .real imaginaryHigh)])

def statistics (s : Statistics Float) : Json :=
  let optional (f : Channel Float → Float) : Json := (s.imaginary.map fun c => .real (f c)).getD .null
  .object [("mean", .real s.height.mean), ("median", .real s.height.median),
    ("imaginaryMean", optional Channel.mean), ("imaginaryMedian", optional Channel.median),
    ("totalCount", .int s.total), ("validCount", .int s.valid), ("nanCount", .int s.invalid)]

def limitsPair (l : Limits Float) : Json := .array [.real l.lower, .real l.upper]

/-! ## As a table -/

/-- A number with six digits. -/
def short (x : Float) : String := Decimal.general.write x

def range (low high : Float) : String := short low ++ " .. " ++ short high

def meanAndMedian (c : Channel Float) : String := short c.mean ++ " / " ++ short c.median

/-- The quantities of a surface and their values. -/
def table (g : Grid Float) (l : Limits Float) (s : Statistics Float) : List (String × String) :=
  let bounds (rows : List (List Float)) : String := range (finiteBounds rows).1 (finiteBounds rows).2
  let channels := match g.imaginary, s.imaginary with
    | some imaginary, some c =>
      [("Re range", bounds g.height), ("Im range", bounds imaginary),
       ("Re mean / median", meanAndMedian s.height), ("Im mean / median", meanAndMedian c)]
    | _, _ => [("z range", bounds g.height), ("mean / median", meanAndMedian s.height)]
  channels ++
    [("auto range", range l.lower l.upper),
     ("valid cells", toString s.valid ++ " / " ++ toString s.total),
     ("NaN cells", toString s.invalid)]

end Report

end Heightfield
