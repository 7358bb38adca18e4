import Mathlib.Algebra.Order.Field.Basic
import Mathlib.Algebra.Order.Floor.Ring
import Mathlib.Tactic.Ring
import Heightfield.Number.Elementary
/-!
# Exact scalars

The numbers of an ordered field, two infinities and what is not a number.  Arithmetic on the numbers is that of the
field, so nothing is rounded and nothing overflows; the rest follows the rules of doubles, but zero has no sign.

Whatever else formulas may call is given with the field (`OtherFunctions`): here a power is only known to be a product
where the exponent is a natural number, and a length only on an axis.
-/
namespace Heightfield

inductive Exact (K : Type) where
  | number (a : K)
  | infinite (negative : Bool)
  | notANumber
  deriving DecidableEq

/-- The functions of analysis on the exact scalars, powers with other than natural exponents and lengths off the axes
among them. -/
class OtherFunctions (K : Type) where
  apply : Elementary → Exact K → Exact K
  applyComplex : Elementary → Complex (Exact K) → Complex (Exact K)
  cbrt : Exact K → Exact K
  pow : Exact K → Exact K → Exact K
  powComplex : Complex (Exact K) → Complex (Exact K) → Complex (Exact K)
  length : K → K → Exact K
  atan2 : Exact K → Exact K → Exact K
  pi : Exact K
  euler : Exact K

namespace Exact

variable {K : Type} [Field K] [LinearOrder K] [FloorRing K]

/-! ## Arithmetic -/

protected def neg : Exact K → Exact K
  | number a => number (-a)
  | infinite s => infinite (!s)
  | notANumber => notANumber

protected def add : Exact K → Exact K → Exact K
  | number a, number b => number (a + b)
  | infinite s, infinite t => if s = t then infinite s else notANumber
  | infinite s, number _ | number _, infinite s => infinite s
  | notANumber, _ | _, notANumber => notANumber

protected def mul : Exact K → Exact K → Exact K
  | number a, number b => number (a * b)
  | infinite s, infinite t => infinite (s != t)
  | infinite s, number a | number a, infinite s => if a = 0 then notANumber else infinite (s != decide (a < 0))
  | notANumber, _ | _, notANumber => notANumber

protected def div : Exact K → Exact K → Exact K
  | number a, number b =>
    if b = 0 then if a = 0 then notANumber else infinite (decide (a < 0)) else number (a / b)
  | infinite s, number b => infinite (s != decide (b < 0))
  | number _, infinite _ => number 0
  | infinite _, infinite _ => notANumber
  | notANumber, _ | _, notANumber => notANumber

/-- The remainder with the sign of the divisor. -/
protected def mod : Exact K → Exact K → Exact K
  | number a, number b => if b = 0 then notANumber else number (a - b * ⌊a / b⌋)
  | number a, infinite s => if a = 0 then number 0 else if decide (a < 0) = s then number a else infinite s
  | _, _ => notANumber

protected def lt : Exact K → Exact K → Bool
  | number a, number b => decide (a < b)
  | number _, infinite s => !s
  | infinite s, number _ => s
  | infinite s, infinite t => s && !t
  | notANumber, _ | _, notANumber => false

protected def le : Exact K → Exact K → Bool
  | number a, number b => decide (a ≤ b)
  | number _, infinite s => !s
  | infinite s, number _ => s
  | infinite s, infinite t => s || !t
  | notANumber, _ | _, notANumber => false

instance : Scalar (Exact K) where
  add := Exact.add
  sub x y := x.add y.neg
  mul := Exact.mul
  div := Exact.div
  neg := Exact.neg
  ofRatio n d := number (n / d)
  ofDecimal d e := number (d * 10 ^ e)
  nan := notANumber
  infinity := infinite false
  lt := Exact.lt
  le := Exact.le
  isFinite
    | number _ => true
    | _ => false
  isNaN
    | notANumber => true
    | _ => false
  floor?
    | number a => some ⌊a⌋
    | _ => none
  floor
    | number a => number ⌊a⌋
    | x => x
  mod := Exact.mod

/-! ### On numbers -/

section
variable (a b : K) (x : Exact K)

@[simp] theorem number_add : number a + number b = number (a + b) := rfl

@[simp] theorem number_sub : number a - number b = number (a - b) := by
  rw [sub_eq_add_neg]
  rfl

@[simp] theorem number_mul : number a * number b = number (a * b) := rfl

@[simp] theorem neg_number : -number a = number (-a) := rfl

@[simp] theorem lt_number : Scalar.lt (number a) (number b) = decide (a < b) := rfl

@[simp] theorem le_number : Scalar.le (number a) (number b) = decide (a ≤ b) := rfl

@[simp] theorem isFinite_number : Scalar.isFinite (number a) = true := rfl

@[simp] theorem isNaN_number : Scalar.isNaN (number a) = false := rfl

@[simp] theorem floor_number : Scalar.floor (number a) = number (⌊a⌋ : K) := rfl

theorem number_div {a b : K} (hb : b ≠ 0) : number a / number b = number (a / b) := if_neg hb

@[simp] theorem max_number : Scalar.max (number a) (number b) = number (max a b) := by
  rw [Scalar.max, isNaN_number, isNaN_number, le_number]
  by_cases h : b ≤ a
  · rw [max_eq_left h, decide_eq_true h]
    rfl
  · rw [max_eq_right (not_le.1 h).le, decide_eq_false h]
    rfl

@[simp] theorem min_number : Scalar.min (number a) (number b) = number (min a b) := by
  rw [Scalar.min, isNaN_number, isNaN_number, le_number]
  by_cases h : a ≤ b
  · rw [min_eq_left h, decide_eq_true h]
    rfl
  · rw [min_eq_right (not_le.1 h).le, decide_eq_false h]
    rfl

theorem clamp_number (l u : K) : Scalar.clamp (number l) (number u) (number a) = number (min (max a l) u) := by
  rw [Scalar.clamp, max_number, min_number]

/-! ### On what is not a number -/

@[simp] theorem nan_eq : (Scalar.nan : Exact K) = notANumber := rfl

@[simp] theorem notANumber_add : notANumber + x = notANumber := by cases x <;> rfl

@[simp] theorem add_notANumber : x + notANumber = notANumber := by cases x <;> rfl

@[simp] theorem notANumber_sub : notANumber - x = notANumber := by cases x <;> rfl

@[simp] theorem sub_notANumber : x - notANumber = notANumber := by cases x <;> rfl

@[simp] theorem notANumber_mul : notANumber * x = notANumber := by cases x <;> rfl

@[simp] theorem mul_notANumber : x * notANumber = notANumber := by cases x <;> rfl

@[simp] theorem neg_notANumber : -(notANumber : Exact K) = notANumber := rfl

@[simp] theorem notANumber_lt : Scalar.lt notANumber x = false := by cases x <;> rfl

@[simp] theorem notANumber_le : Scalar.le notANumber x = false := by cases x <;> rfl

@[simp] theorem le_notANumber : Scalar.le x notANumber = false := by cases x <;> rfl

@[simp] theorem isFinite_notANumber : Scalar.isFinite (notANumber : Exact K) = false := rfl

@[simp] theorem isNaN_notANumber : Scalar.isNaN (notANumber : Exact K) = true := rfl

@[simp] theorem floor_notANumber : Scalar.floor (notANumber : Exact K) = notANumber := rfl

end

/-! ## Written numbers -/

@[simp] theorem ofInt_eq (n : ℤ) : (Scalar.ofInt n : Exact K) = number (n : K) := by
  refine congrArg number ?_
  rw [Nat.cast_one, div_one]

@[simp] theorem ofNat_eq (n : ℕ) : (Scalar.ofNat n : Exact K) = number (n : K) := by
  refine congrArg number ?_
  rw [Nat.cast_one, div_one, Int.cast_natCast]

/-! ## Neither infinite -/

/-- A number, or not a number. -/
inductive Tame : Exact K → Prop where
  | number (a : K) : Tame (number a)
  | notANumber : Tame notANumber

theorem tame_ofInt (n : ℤ) : Tame (Scalar.ofInt n : Exact K) := by
  rw [ofInt_eq]
  exact .number _

section
variable {x y : Exact K}

theorem Tame.neg (hx : Tame x) : Tame (-x) := by
  cases hx with
  | number a => exact .number _
  | notANumber => exact .notANumber

theorem Tame.add (hx : Tame x) (hy : Tame y) : Tame (x + y) := by
  cases hx with
  | number a => cases hy with
    | number b => exact .number _
    | notANumber => exact .notANumber
  | notANumber =>
    rw [notANumber_add]
    exact .notANumber

theorem Tame.mul (hx : Tame x) (hy : Tame y) : Tame (x * y) := by
  cases hx with
  | number a => cases hy with
    | number b => exact .number _
    | notANumber => exact .notANumber
  | notANumber =>
    rw [notANumber_mul]
    exact .notANumber

theorem Tame.mod (hx : Tame x) (hy : Tame y) : Tame (Scalar.mod x y) := by
  cases hx with
  | number a => cases hy with
    | number b =>
      change Tame (if b = 0 then Exact.notANumber else Exact.number (a - b * ⌊a / b⌋))
      split
      · exact .notANumber
      · exact .number _
    | notANumber => exact .notANumber
  | notANumber => exact .notANumber

end

/-! ## Zeros, magnitudes and integers -/

section
variable (a : K)

@[simp] theorem isZero_number : Scalar.isZero (number a) = decide (a = 0) := by
  rw [Scalar.isZero, ofInt_eq, le_number, le_number, Int.cast_zero, ← Bool.decide_and]
  exact decide_eq_decide.2 le_antisymm_iff.symm

@[simp] theorem isZero_notANumber : Scalar.isZero (notANumber : Exact K) = false := rfl

@[simp] theorem toInt?_notANumber : Scalar.toInt? (notANumber : Exact K) = none := rfl

@[simp] theorem abs_notANumber : Scalar.abs (notANumber : Exact K) = notANumber := by
  rw [Scalar.abs, notANumber_lt, isZero_notANumber]
  rfl

theorem Tame.abs {x : Exact K} (hx : Tame x) : Tame (Scalar.abs x) := by
  unfold Scalar.abs
  split_ifs
  · exact hx.neg
  · exact tame_ofInt 0
  · exact hx

variable [IsStrictOrderedRing K]

@[simp] theorem abs_number : Scalar.abs (number a) = number |a| := by
  rw [Scalar.abs, ofInt_eq, lt_number, isZero_number, Int.cast_zero]
  rcases lt_trichotomy a 0 with h | rfl | h
  · rw [if_pos (decide_eq_true h), neg_number, abs_of_neg h]
  · rw [if_neg (by simp), if_pos (by simp), abs_zero]
  · rw [if_neg (by simp [h.le]), if_neg (by simp [h.ne']), abs_of_pos h]

@[simp] theorem toInt?_intCast (n : ℤ) : Scalar.toInt? (number (n : K)) = some n := by
  have hfloor : Scalar.floor? (number (n : K)) = some n := congrArg some (Int.floor_intCast n)
  rw [Scalar.toInt?, hfloor, Option.bind_some, ofInt_eq, le_number, if_pos (decide_eq_true le_rfl)]

end

/-! ## Rounding -/

/-- A function that takes numbers to numbers, and zero and what is not a number to themselves. -/
structure Rounds (f : Exact K → Exact K) : Prop where
  zero : f (number 0) = number 0
  number : ∀ a, ∃ b, f (.number a) = .number b
  notANumber : f .notANumber = .notANumber

section
variable {f : Exact K → Exact K}

omit [LinearOrder K] [FloorRing K] in
theorem Rounds.tame (h : Rounds f) {x : Exact K} (hx : Tame x) : Tame (f x) := by
  cases hx with
  | number a =>
    obtain ⟨b, hb⟩ := h.number a
    rw [hb]
    exact .number b
  | notANumber =>
    rw [h.notANumber]
    exact .notANumber

variable [IsStrictOrderedRing K]

theorem rounds_floor : Rounds (Scalar.floor : Exact K → Exact K) where
  zero := by rw [floor_number, Int.floor_zero, Int.cast_zero]
  number a := ⟨_, floor_number a⟩
  notANumber := rfl

theorem rounds_ceil : Rounds (Scalar.ceil : Exact K → Exact K) where
  zero := by rw [Scalar.ceil, neg_number, neg_zero, rounds_floor.zero, neg_number, neg_zero]
  number a := ⟨_, by rw [Scalar.ceil, neg_number, floor_number, neg_number]⟩
  notANumber := rfl

end

/-! ## Powers and lengths -/

/-- The product of as many factors. -/
def powNat (x : Exact K) : ℕ → Exact K
  | 0 => number 1
  | n + 1 => x.powNat n * x

@[simp] theorem powNat_number (a : K) (n : ℕ) : (number a).powNat n = number (a ^ n) := by
  induction n with
  | zero => rw [powNat, pow_zero]
  | succ n ih => rw [powNat, ih, number_mul, pow_succ]

theorem powNat_notANumber {n : ℕ} (hn : n ≠ 0) : (notANumber : Exact K).powNat n = notANumber := by
  cases n with
  | zero => exact absurd rfl hn
  | succ n => rw [powNat, mul_notANumber]

theorem Tame.powNat {x : Exact K} (hx : Tame x) (n : ℕ) : Tame (x.powNat n) := by
  induction n with
  | zero => exact .number 1
  | succ n ih => exact ih.mul hx

/-- The length of a vector. -/
def hypot [OtherFunctions K] : Exact K → Exact K → Exact K
  | number a, number b => if b = 0 then number |a| else OtherFunctions.length a b
  | infinite _, _ | _, infinite _ => infinite false
  | notANumber, _ | _, notANumber => notANumber

instance [OtherFunctions K] : Analytic (Exact K) where
  apply := OtherFunctions.apply
  applyComplex := OtherFunctions.applyComplex
  cbrt := OtherFunctions.cbrt
  pow x y := match Scalar.toInt? y with
    | some (.ofNat n) => x.powNat n
    | _ => OtherFunctions.pow x y
  powComplex := OtherFunctions.powComplex
  hypot := hypot
  atan2 := OtherFunctions.atan2
  pi := OtherFunctions.pi
  euler := OtherFunctions.euler

section
variable [OtherFunctions K]

@[simp] theorem pow_natCast [IsStrictOrderedRing K] (x : Exact K) (n : ℕ) :
    Analytic.pow x (number (n : K)) = x.powNat n := by
  have hint : Scalar.toInt? (number (n : K)) = some (n : ℤ) := by rw [← Int.cast_natCast, toInt?_intCast]
  change (match Scalar.toInt? (number (n : K)) with
    | some (.ofNat n) => x.powNat n
    | _ => OtherFunctions.pow x (number (n : K))) = x.powNat n
  rw [hint]

@[simp] theorem hypot_axis (a : K) : Analytic.hypot (number a) (number 0) = number |a| := if_pos rfl

theorem hypot_notANumber {y : Exact K} (hy : Tame y) : Analytic.hypot notANumber y = notANumber := by
  cases hy <;> rfl

end

end Exact

end Heightfield
