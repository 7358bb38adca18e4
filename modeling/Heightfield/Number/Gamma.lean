import Heightfield.Number.Binary64
/-!
# Euler's gamma function

On doubles the function is a rational approximation between two and three, carried
elsewhere by its recurrence, and an asymptotic series beyond 33; on complex numbers it
is a partial-fraction series with the reflection formula on the left half-plane.
-/

namespace Heightfield.Gamma

def pi : Float := 3.141592653589793

/-- A polynomial from its coefficients, the highest first. -/
def polynomial (coefficients : List Float) (x : Float) : Float :=
  coefficients.foldl (fun r c => r * x + c) 0.0

def numerator : List Float :=
  [1.60119522476751861407e-4, 1.19135147006586384913e-3, 1.04213797561761569935e-2,
   4.76367800457137231464e-2, 2.07448227648435975150e-1, 4.94214826801497100753e-1,
   9.99999999999999996796e-1]

def denominator : List Float :=
  [-2.31581873324120129819e-5, 5.39605580493303397842e-4, -4.45641913851797240494e-3,
   1.18139785222060435552e-2, 3.58236398605498653373e-2, -2.34591795718243348568e-1,
   7.14304917030273074085e-2, 1.00000000000000000320]

def asymptotic : List Float :=
  [7.87311395793093628397e-4, -2.29549961613378126380e-4, -2.68132617805781232825e-3,
   3.47222221605458667310e-3, 8.33333333333482257126e-2]

/-- Stirling's formula, for large positive arguments. -/
def stirling (x : Float) : Float :=
  if x ≥ 171.624376956302725 then 1.0 / 0.0
  else
    let w := 1.0 / x
    let w := 1.0 + w * polynomial asymptotic w
    let y := Float.exp x
    let y := if x > 143.01608 then
        let v := Float.pow x (0.5 * x - 0.25)
        v * (v / y)
      else Float.pow x (x - 0.5) / y
    2.50662827463100050242 * y * w

/-- The argument moved down to below three, with the product of the factors left out. -/
def lower : Nat → Float → Float → Float × Float
  | 0, z, x => (z, x)
  | n + 1, z, x => if x ≥ 3.0 then lower n (z * (x - 1.0)) (x - 1.0) else (z, x)

/-- The argument moved up to at least two, or stopped where it is almost zero. -/
def raise : Nat → Float → Float → Float × Float
  | 0, z, x => (z, x)
  | n + 1, z, x =>
    if x ≥ 2.0 then (z, x)
    else if (x < 0.0 && x > -1.0e-9) || (x ≥ 0.0 && x < 1.0e-9) then (z, x)
    else raise n (z / x) (x + 1.0)

def moderate (x : Float) : Float :=
  let (z, x) := lower 64 1.0 x
  let (z, x) := raise 64 z x
  if x < 2.0 then
    if x == 0.0 then 1.0 / x else z / ((1.0 + 0.5772156649015329 * x) * x)
  else if x == 2.0 then z
  else z * polynomial numerator (x - 2.0) / polynomial denominator (x - 2.0)

def isInteger (x : Float) : Bool := floorDouble x == x

/-- Gamma on doubles: not a number at the negative integers and at minus infinity. -/
def real (x : Float) : Float :=
  if x.isNaN then x
  else if x.isInf then (if x > 0.0 then x else 0.0 / 0.0)
  else if x < 0.0 && isInteger x then 0.0 / 0.0
  else if x.abs ≤ 33.0 then moderate x
  else if x > 0.0 then stirling x
  else
    let q := -x
    let p := floorDouble q
    let positive := modDouble p 2.0 == 1.0
    let z := q - p
    let z := if z > 0.5 then q - (p + 1.0) else z
    let z := (q * Float.sin (pi * z)).abs
    let r := pi / (z * stirling q)
    if positive then r else -r

/-! ## Complex arguments -/

abbrev Point := Float × Float

def mul (z w : Point) : Point := (z.1 * w.1 - z.2 * w.2, z.1 * w.2 + z.2 * w.1)

def div (z w : Point) : Point :=
  if w.1.abs ≥ w.2.abs then
    let r := w.2 / w.1
    let d := w.1 + w.2 * r
    ((z.1 + z.2 * r) / d, (z.2 - z.1 * r) / d)
  else
    let r := w.1 / w.2
    let d := w.2 + w.1 * r
    ((z.1 * r + z.2) / d, (z.2 * r - z.1) / d)

def lanczos : List Float :=
  [676.5203681218851, -1259.1392167224028, 771.32342877765313, -176.61502916214059,
   12.507343278686905, -0.13857109526572012, 9.9843695780195716e-6, 1.5056327351493116e-7]

/-- The partial fractions at `z`, the terms numbered from `k`. -/
def partialFractions (z : Point) : Nat → List Float → Point
  | _, [] => (0.99999999999980993, 0.0)
  | k, c :: cs =>
    let rest := partialFractions z (k + 1) cs
    let t := div (c, 0.0) (z.1 + k.toFloat, z.2)
    (rest.1 + t.1, rest.2 + t.2)

def exp (z : Point) : Point :=
  let m := Float.exp z.1
  (m * Float.cos z.2, m * Float.sin z.2)

def log (z : Point) : Point := (Float.log (Float.sqrt (z.1 * z.1 + z.2 * z.2)), Float.atan2 z.2 z.1)

/-- The logarithm of all factors but the partial fractions, for a real part of at least one
half, and the partial fractions. -/
def rightHalf (z : Point) : Point × Point :=
  let z := (z.1 - 1.0, z.2)
  let t := (z.1 + 7.5, z.2)
  let e := mul (z.1 + 0.5, z.2) (log t)
  ((e.1 - t.1 + 0.9189385332046727, e.2 - t.2), partialFractions z 1 lanczos)

/-- `sin (π z)`, with the real part reduced to one period first. -/
def sinPi (z : Point) : Point :=
  let x := modDouble z.1 2.0
  let y := pi * z.2
  (Float.sin (pi * x) * Float.cosh y, Float.cos (pi * x) * Float.sinh y)

/-- The logarithm of `sin (π z)` far from the real axis, where one of its two exponential
terms is all there is. -/
def logSinPi (z : Point) : Point :=
  let x := modDouble z.1 2.0
  let angle := pi * (0.5 - x)
  (pi * z.2.abs - 0.6931471805599453, if z.2 < 0.0 then -angle else angle)

/-- Gamma on the left half-plane, by reflection. -/
def leftHalf (z : Point) : Point :=
  let (e, fractions) := rightHalf (1.0 - z.1, -z.2)
  if z.2.abs < 20.0 then div (pi, 0.0) (mul (sinPi z) (mul (exp e) fractions))
  else
    let s := logSinPi z
    div (exp (1.1447298858494002 - s.1 - e.1, -s.2 - e.2)) fractions

/-- Gamma on complex numbers: not a number at zero and the negative integers. -/
def complex (z : Point) : Point :=
  if z.1.isNaN || z.2.isNaN || z.1.isInf || z.2.isInf then (0.0 / 0.0, 0.0 / 0.0)
  else if z.2 == 0.0 && z.1 ≤ 0.0 && isInteger z.1 then (0.0 / 0.0, 0.0 / 0.0)
  else if z.1 ≥ 0.5 then
    let (e, fractions) := rightHalf z
    mul (exp e) fractions
  else leftHalf z

end Heightfield.Gamma
