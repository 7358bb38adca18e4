/-!
# Doubles as exact numbers

A double is a sign and `significand * 2 ^ exponent`, or an infinity, or not a number.
Rounding to an integer, remainders and conversions from integers, ratios and decimals
are done here on those exact numbers, so that what they give is fixed by integer
arithmetic alone.  `nearest` is the one place where a number is rounded to a double:
to the nearest, and to the even significand of two equally near ones.

Powers of two are written as shifts.
-/

namespace Heightfield

/-- What a double stands for. -/
inductive Binary64 where
  | nan
  | infinite (negative : Bool)
  /-- The number `± significand * 2 ^ exponent`. -/
  | finite (negative : Bool) (significand : Nat) (exponent : Int)
  deriving DecidableEq, Repr

namespace Binary64

def ofFloat (x : Float) : Binary64 :=
  let bits := x.toBits.toNat
  let negative := decide (1 <<< 63 ≤ bits)
  let field : Nat := (bits >>> 52) % 2048
  let fraction := bits % (1 <<< 52)
  if field = 2047 then (if fraction = 0 then infinite negative else nan)
  else if field = 0 then finite negative fraction (-1074)
  else finite negative (1 <<< 52 + fraction) ((field : Int) - 1075)

/-- The double with the sign and the 63 bits of magnitude `bits`. -/
def ofMagnitude (negative : Bool) (bits : Nat) : Float :=
  Float.ofBits (UInt64.ofNat (if negative then 1 <<< 63 + bits else bits))

/-- The bits of infinity without its sign. -/
def infinityBits : Nat := 2047 <<< 52

/-- The quotient `n / d` rounded to the nearest integer, a tie to the even one. -/
def roundQuotient (n d : Nat) : Nat :=
  let q := n / d
  let r := n % d
  if 2 * r < d then q else if d < 2 * r then q + 1 else q + q % 2

/-- The double nearest to `± num / den`; an infinity when that is too large.  The bits
of a double grow with its magnitude, so a significand that rounds up to `2 ^ 53` carries
into the exponent by itself. -/
def nearest (negative : Bool) (num den : Nat) : Float :=
  if num = 0 then ofMagnitude negative 0
  else
    let guess : Int := (Nat.log2 num : Int) - (Nat.log2 den : Int) - 52
    let scaled (e : Int) : Nat × Nat :=
      if e ≤ 0 then (num <<< (-e).toNat, den) else (num, den <<< e.toNat)
    let e := if (scaled guess).1 / (scaled guess).2 < 1 <<< 52 then guess - 1 else guess
    let e := max e (-1074)
    let q := roundQuotient (scaled e).1 (scaled e).2
    let bits := ((e + 1074).toNat <<< 52) + q
    ofMagnitude negative (min bits infinityBits)

/-! ## Conversions -/

def ofRatio (num : Int) (den : Nat) : Float := nearest (num < 0) num.natAbs den

def ofInt (n : Int) : Float := ofRatio n 1

/-- Ten to the `k`. -/
def tenTo (k : Nat) : Nat := Nat.pow 10 k

/-- The number of decimal digits of `n`, and at least one. -/
def digitCount (n : Nat) : Nat := (Nat.toDigits 10 n).length

/-- The double nearest to `± digits * 10 ^ exponent`.  Exponents far out of range are
decided by the size of the number, before any power is formed. -/
def ofDecimal (negative : Bool) (digits : Nat) (exponent : Int) : Float :=
  if digits = 0 then ofMagnitude negative 0
  else if (digitCount digits : Int) + exponent > 400 then ofMagnitude negative infinityBits
  else if (digitCount digits : Int) + exponent < -400 then ofMagnitude negative 0
  else if 0 ≤ exponent then nearest negative (digits * tenTo exponent.toNat) 1
  else nearest negative digits (tenTo (-exponent).toNat)

/-! ## Integer parts -/

/-- `± significand * 2 ^ exponent` as a quotient of natural numbers without its sign. -/
def quotient (significand : Nat) (exponent : Int) : Nat × Nat :=
  if 0 ≤ exponent then (significand <<< exponent.toNat, 1)
  else (significand, 1 <<< (-exponent).toNat)

/-- The exact value as a quotient, when the double is finite. -/
def ratio? : Binary64 → Option (Int × Nat)
  | finite negative significand exponent =>
    let (n, d) := quotient significand exponent
    some (if negative then -(n : Int) else n, d)
  | _ => none

/-- The value, when the double is finite and an integer. -/
def toInt? (b : Binary64) : Option Int :=
  b.ratio?.bind fun (n, d) => if n % d = 0 then some (n / d) else none

/-- The greatest integer that is not greater, when the double is finite. -/
def floor? (b : Binary64) : Option Int := b.ratio?.map fun (n, d) => n.fdiv d

def isNegative : Binary64 → Bool
  | nan => false
  | infinite negative => negative
  | finite negative _ _ => negative

end Binary64

/-! ## The same on doubles

Each keeps infinities and what is not a number, and the sign of a zero result. -/

def integral (f : Binary64 → Option Int) (x : Float) : Float :=
  let b := Binary64.ofFloat x
  match f b with
  | none => x
  | some n => Binary64.nearest (if n = 0 then b.isNegative else decide (n < 0)) n.natAbs 1

def floorDouble (x : Float) : Float := integral Binary64.floor? x

/-- The remainder with the sign of the divisor: `x - y * ⌊x / y⌋`, computed exactly. -/
def modDouble (x y : Float) : Float :=
  match Binary64.ofFloat x, Binary64.ofFloat y with
  | .finite nx mx ex, .finite ny my ey =>
    if my = 0 then 0.0 / 0.0
    else
      let e := min ex ey
      let a := mx <<< (ex - e).toNat
      let b := my <<< (ey - e).toNat
      let r := a % b
      let r' := if r ≠ 0 ∧ nx ≠ ny then b - r else r
      let (n, d) := Binary64.quotient r' e
      Binary64.nearest ny n d
  | .finite nx mx _, .infinite ny => if mx = 0 then (if ny then -0.0 else 0.0) else if nx = ny then x else y
  | _, _ => 0.0 / 0.0

end Heightfield
