import Heightfield.Number.Complex
/-!
# Elementary functions of complex doubles

Principal values, with the cuts where the standards of numerical libraries put them: on
a cut, the sign of a zero part says from which side it is approached.  Inverse functions
are written with the square roots of `1 - z` and `1 + z`, which keep their accuracy and
the signs of their zeros everywhere.
-/

namespace Heightfield

namespace ComplexDouble

abbrev Z := Complex Float

def isNegative (x : Float) : Bool := (Binary64.ofFloat x).isNegative

def copySign (x y : Float) : Float := if isNegative x = isNegative y then x else -x

def nan : Float := 0.0 / 0.0

def infinity : Float := 1.0 / 0.0

/-- The length of `(x, y)`, without overflow on the way. -/
def hypot (x y : Float) : Float :=
  let a := x.abs
  let b := y.abs
  if a.isInf || b.isInf then infinity
  else if a.isNaN || b.isNaN then nan
  else
    let big := if a < b then b else a
    let small := if a < b then a else b
    if big == 0.0 then 0.0
    else if small == 0.0 then big
    else if big < 1.0e150 && small > 1.0e-150 then Float.sqrt (big * big + small * small)
    else
      let r := small / big
      big * Float.sqrt (1.0 + r * r)

/-- `log (1 + x)`, accurate for small `x`. -/
def log1p (x : Float) : Float :=
  let u := 1.0 + x
  if u == 1.0 then x
  else if u.isInf then u
  else Float.log u * (x / (u - 1.0))

def sqrt (z : Z) : Z :=
  let x := z.re
  let y := z.im
  if y.isInf then ⟨infinity, y⟩
  else if x.isNaN then ⟨nan, nan⟩
  else if x.isInf then
    if x > 0.0 then ⟨x, if y.isNaN then nan else copySign 0.0 y⟩
    else if y.isNaN then ⟨nan, x⟩ else ⟨0.0, copySign infinity y⟩
  else if y.isNaN then ⟨nan, nan⟩
  else if x == 0.0 && y == 0.0 then ⟨0.0, y⟩
  else
    let large := x.abs > 1.0e300 || y.abs > 1.0e300
    let small := x.abs < 1.0e-290 && y.abs < 1.0e-290
    let scale := if large then 0.0625 else if small then 18014398509481984.0 else 1.0
    let back := if large then 4.0 else if small then 7.450580596923828e-9 else 1.0
    let x := x * scale
    let y := y * scale
    let t := Float.sqrt ((x.abs + hypot x y) * 0.5)
    if x ≥ 0.0 then ⟨t * back, y / (2.0 * t) * back⟩
    else ⟨y.abs / (2.0 * t) * back, copySign (t * back) y⟩

/-- The logarithm of the modulus, accurate near the unit circle. -/
def logModulus (z : Z) : Float :=
  let h := hypot z.re z.im
  if h > 0.7 && h < 1.5 then
    let big := if z.re.abs < z.im.abs then z.im.abs else z.re.abs
    let small := if z.re.abs < z.im.abs then z.re.abs else z.im.abs
    0.5 * log1p ((big - 1.0) * (big + 1.0) + small * small)
  else Float.log h

def log (z : Z) : Z := ⟨logModulus z, Float.atan2 z.im z.re⟩

def exp (z : Z) : Z :=
  if z.im == 0.0 then ⟨Float.exp z.re, z.im⟩
  else if z.re.isInf && z.re < 0.0 then ⟨0.0, 0.0⟩
  else
    let h := Float.exp (z.re / 2.0)
    if z.re.abs > 700.0 then ⟨h * Float.cos z.im * h, h * Float.sin z.im * h⟩
    else
      let e := Float.exp z.re
      ⟨e * Float.cos z.im, e * Float.sin z.im⟩

/-- The parts exchanged; it carries the circular functions to the hyperbolic ones. -/
def swap (z : Z) : Z := ⟨z.im, z.re⟩

def sin (z : Z) : Z :=
  ⟨Float.sin z.re * Float.cosh z.im, Float.cos z.re * Float.sinh z.im⟩

def cos (z : Z) : Z :=
  ⟨Float.cos z.re * Float.cosh z.im, -(Float.sin z.re * Float.sinh z.im)⟩

def tan (z : Z) : Z :=
  if z.im.isInf then
    ⟨copySign 0.0 (if z.re.isNaN || z.re.isInf then 0.0 else Float.sin z.re * Float.cos z.re),
     copySign 1.0 z.im⟩
  else
    let s := Float.sin z.re
    let c := Float.cos z.re
    if z.im.abs > 354.0 then
      ⟨4.0 * s * c * Float.exp (-2.0 * z.im.abs), copySign 1.0 z.im⟩
    else
      let sh := Float.sinh z.im
      let ch := Float.cosh z.im
      let d := if sh.abs > c.abs * 2.220446049250313e-16 then c * c + sh * sh else c * c
      ⟨s * c / d, sh * ch / d⟩

def sinh (z : Z) : Z :=
  ⟨Float.sinh z.re * Float.cos z.im, Float.cosh z.re * Float.sin z.im⟩

def cosh (z : Z) : Z :=
  ⟨Float.cosh z.re * Float.cos z.im, Float.sinh z.re * Float.sin z.im⟩

def tanh (z : Z) : Z := swap (tan (swap z))

/-- The square roots of `1 - z` and `1 + z`. -/
def roots (z : Z) : Z × Z := (sqrt ⟨1.0 - z.re, -z.im⟩, sqrt ⟨1.0 + z.re, z.im⟩)

def asin (z : Z) : Z :=
  let (minus, plus) := roots z
  ⟨Float.atan (z.re / (minus.mul plus).re), Float.asinh (minus.conj.mul plus).im⟩

def acos (z : Z) : Z :=
  let (minus, plus) := roots z
  ⟨2.0 * Float.atan (minus.re / plus.re), Float.asinh (plus.conj.mul minus).im⟩

def atan (z : Z) : Z :=
  let x := z.re
  let y := z.im
  if x.isInf || y.isInf then
    if x.isNaN then ⟨nan, copySign 0.0 y⟩ else ⟨copySign 1.5707963267948966 x, copySign 0.0 y⟩
  else if x == 0.0 && y == 0.0 then z
  else
    let big := if x.abs < y.abs then y.abs else x.abs
    let small := if x.abs < y.abs then x.abs else y.abs
    let d := (1.0 - big) * (1.0 + big) - small * small
    let re := 0.5 * Float.atan2 (2.0 * x) (if d == 0.0 then 0.0 else d)
    if y.abs == 1.0 && x.abs < 1.0e-30 then
      ⟨re, copySign (0.5 * (0.6931471805599453 - Float.log x.abs)) y⟩
    else
      let r := if x.abs < 1.0e-150 then 0.0 else x * x
      let num := r + (y + 1.0) * (y + 1.0)
      let den := r + (y - 1.0) * (y - 1.0)
      let f := num / den
      ⟨re, if f < 0.5 then 0.25 * Float.log f else 0.25 * log1p (4.0 * y / den)⟩

def asinh (z : Z) : Z := swap (asin (swap z))

def acosh (z : Z) : Z :=
  let minus := sqrt ⟨z.re - 1.0, z.im⟩
  let plus := sqrt ⟨z.re + 1.0, z.im⟩
  ⟨Float.asinh (minus.conj.mul plus).re, 2.0 * Float.atan (minus.im / plus.re)⟩

def atanh (z : Z) : Z := swap (atan (swap z))

/-- The logarithm divided by the logarithm of the base, whose reciprocal is given. -/
def scaledLog (reciprocal : Float) (z : Z) : Z :=
  let l := log z
  ⟨l.re * reciprocal, l.im * reciprocal⟩

/-- The power `exp (w log z)`. -/
def pow (z w : Z) : Z := exp (w.mul (log z))

end ComplexDouble

end Heightfield
