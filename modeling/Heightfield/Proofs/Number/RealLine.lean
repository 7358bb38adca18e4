import Heightfield.Formula.Apply
import Heightfield.Proofs.Number.Exact
/-!
# The real line among complex numbers

Complex arithmetic does on the real line what real arithmetic does: from numbers with no imaginary part, and from what
is not a number, it leads to such again (`OnLine`).  Sums and products, extrema, rounding, magnitudes and the natural
powers below the hundredth keep to the line, although each of them is another function there.
-/
namespace Heightfield

open Formula.Value (componentwise powComplex powComplexComputed roundHalfAway)

namespace Exact

variable {K : Type} [Field K] [LinearOrder K] [FloorRing K]

/-- The complex number is the scalar: it has no imaginary part, or is not a number either.  What is not a number may
have any imaginary part but an infinite one. -/
inductive OnLine : Exact K → Complex (Exact K) → Prop where
  | number (a : K) : OnLine (number a) ⟨number a, number 0⟩
  | notANumber {y : Exact K} (hy : Tame y) : OnLine notANumber ⟨notANumber, y⟩

section
variable {x y : Exact K} {z w : Complex (Exact K)}

theorem ofReal_number (a : K) : Complex.ofReal (number a) = ⟨number a, number 0⟩ := by
  rw [Complex.ofReal, ofInt_eq, Int.cast_zero]

theorem OnLine.ofReal (hx : Tame x) : OnLine x (.ofReal x) := by
  cases hx with
  | number a =>
    rw [ofReal_number]
    exact .number a
  | notANumber => exact .notANumber (tame_ofInt 0)

theorem onLine_one : OnLine (number (1 : K)) (.ofReal (Scalar.ofInt 1)) := by
  rw [ofInt_eq, Int.cast_one]
  exact .ofReal (.number 1)

omit [LinearOrder K] [FloorRing K] in
theorem OnLine.tame (h : OnLine x z) : Tame x ∧ Tame z.re ∧ Tame z.im := by
  cases h with
  | number a => exact ⟨.number a, .number a, .number 0⟩
  | notANumber hy => exact ⟨.notANumber, .notANumber, hy⟩

/-! ## Arithmetic -/

theorem OnLine.neg (h : OnLine x z) : OnLine (-x) z.neg := by
  cases h with
  | number a =>
    rw [Complex.neg, neg_number, neg_number, neg_zero]
    exact .number _
  | notANumber hy => exact .notANumber hy.neg

theorem OnLine.add (hx : OnLine x z) (hy : OnLine y w) : OnLine (x + y) (z.add w) := by
  have him := hx.tame.2.2.add hy.tame.2.2
  cases hx with
  | number a => cases hy with
    | number b =>
      rw [Complex.add, number_add, number_add, zero_add]
      exact .number _
    | notANumber _ =>
      rw [Complex.add, add_notANumber]
      exact .notANumber him
  | notANumber _ =>
    rw [Complex.add, notANumber_add, notANumber_add]
    exact .notANumber him

theorem OnLine.sub (hx : OnLine x z) (hy : OnLine y w) : OnLine (x - y) (z.sub w) := hx.add hy.neg

theorem OnLine.mul (hx : OnLine x z) (hy : OnLine y w) : OnLine (x * y) (z.mul w) := by
  have him := (hx.tame.2.1.mul hy.tame.2.2).add (hx.tame.2.2.mul hy.tame.2.1)
  cases hx with
  | number a => cases hy with
    | number b =>
      simp only [Complex.mul, number_mul, number_sub, number_add, mul_zero, zero_mul, sub_zero, add_zero]
      exact .number _
    | notANumber _ =>
      rw [Complex.mul, mul_notANumber, notANumber_sub]
      exact .notANumber him
  | notANumber _ =>
    rw [Complex.mul, notANumber_mul, notANumber_mul, notANumber_sub]
    exact .notANumber him

/-! ## Extrema -/

section
variable {a b : K}

theorem lexGe_number : Complex.lexGe ⟨number a, number 0⟩ ⟨number b, number 0⟩ = decide (b ≤ a) := by
  rw [Complex.lexGe, Scalar.eq, lt_number, le_number, le_number, le_number, isNaN_number, decide_eq_true le_rfl]
  rcases lt_trichotomy b a with h | rfl | h
  · simp [h, h.le]
  · simp
  · simp [h.le, not_lt.2 h.le, not_le.2 h]

theorem hasNaN_number : Complex.hasNaN ⟨number a, number 0⟩ = false := rfl

end

omit [LinearOrder K] [FloorRing K] in
theorem OnLine.ite (c : Bool) (hx : OnLine x z) (hy : OnLine y w) :
    OnLine (if c then x else y) (if c then z else w) := by
  cases c
  · exact hy
  · exact hx

theorem OnLine.max (hx : OnLine x z) (hy : OnLine y w) : OnLine (Scalar.max x y) (Complex.lexMax z w) := by
  cases hx with
  | number a => cases hy with
    | number b =>
      simp only [Scalar.max, Complex.lexMax, hasNaN_number, isNaN_number, lexGe_number, le_number, Bool.false_eq_true,
        if_false]
      exact .ite _ (.number a) (.number b)
    | notANumber hy => exact .notANumber hy
  | notANumber hx => exact .notANumber hx

theorem OnLine.min (hx : OnLine x z) (hy : OnLine y w) : OnLine (Scalar.min x y) (Complex.lexMin z w) := by
  cases hx with
  | number a => cases hy with
    | number b =>
      simp only [Scalar.min, Complex.lexMin, hasNaN_number, isNaN_number, lexGe_number, le_number, Bool.false_eq_true,
        if_false]
      exact .ite _ (.number a) (.number b)
    | notANumber hy => exact .notANumber hy
  | notANumber hx => exact .notANumber hx

/-- What a complex number is on the real axis, or not a number off it. -/
theorem OnLine.axis (h : OnLine x z) : (if Scalar.isZero z.im then z.re else Scalar.nan) = x := by
  cases h with
  | number a => rw [isZero_number, if_pos (decide_eq_true rfl)]
  | notANumber _ => rw [nan_eq, ite_self]

/-! ## Powers -/

theorem mul_number_one (hx : Tame x) : x * number 1 = x := by
  cases hx with
  | number a => rw [number_mul, mul_one]
  | notANumber => rfl

theorem number_one_mul (hx : Tame x) : number 1 * x = x := by
  cases hx with
  | number a => rw [number_mul, one_mul]
  | notANumber => rfl

theorem powNat_one (hx : Tame x) : x.powNat 1 = x := by
  rw [powNat, powNat, number_one_mul hx]

/-- One step of repeated squaring, before the last. -/
theorem powNat_step (hx : Tame x) (hy : Tame y) {n : ℕ} (hn : n / 2 ≠ 0) :
    (if n % 2 = 1 then y * x else y) * (x * x).powNat (n / 2) = y * x.powNat n := by
  have hpos : n ≠ 0 := by rintro rfl; exact hn rfl
  cases hx with
  | number a => cases hy with
    | number b =>
      have hsquare : (a * a) ^ (n / 2) = a ^ (2 * (n / 2)) := by rw [pow_mul, pow_two]
      rw [number_mul, number_mul, powNat_number, powNat_number, hsquare]
      rcases Nat.mod_two_eq_zero_or_one n with hmod | hmod
      · rw [if_neg (by omega), number_mul, number_mul]
        rw [show 2 * (n / 2) = n by omega]
      · rw [if_pos hmod, number_mul, number_mul, mul_assoc, ← pow_succ']
        rw [show 2 * (n / 2) + 1 = n by omega]
    | notANumber =>
      rw [notANumber_mul, ite_self, notANumber_mul, notANumber_mul]
  | notANumber =>
    rw [notANumber_mul, powNat_notANumber hn, powNat_notANumber hpos, mul_notANumber, mul_notANumber]

/-- **Repeated squaring keeps to the line.** -/
theorem OnLine.squaring (n : ℕ) : ∀ {x y : Exact K} {z w : Complex (Exact K)}, OnLine x z → OnLine y w →
    OnLine (y * x.powNat n) (Complex.powNat.go z w n) := by
  induction n using Nat.strong_induction_on with
  | _ n ih =>
    intro x y z w hx hy
    -- the product so far is on the line before and after the lowest digit is looked at
    have hproduct := OnLine.ite (decide (n % 2 = 1)) (hy.mul hx) hy
    simp only [decide_eq_true_eq] at hproduct
    rw [Complex.powNat.go]
    by_cases hzero : n = 0
    · rw [if_pos hzero, hzero, powNat, mul_number_one hy.tame.1]
      exact hy
    rw [if_neg hzero]
    by_cases hhalf : n / 2 = 0
    · obtain rfl : n = 1 := by omega
      rw [if_pos hhalf, powNat_one hx.tame.1]
      exact hy.mul hx
    · rw [if_neg hhalf, ← powNat_step hx.tame.1 hy.tame.1 hhalf]
      exact ih (n / 2) (by omega) (hx.mul hx) hproduct

theorem OnLine.powNat (h : OnLine x z) (n : ℕ) : OnLine (x.powNat n) (z.powNat n) := by
  have hpow := OnLine.squaring n h onLine_one
  rwa [number_one_mul (h.tame.1.powNat n)] at hpow

variable [OtherFunctions K]

/-! ## Rounding -/

theorem OnLine.componentwise {f : Exact K → Exact K} (hf : Rounds f) (h : OnLine x z) :
    OnLine (f x) (componentwise f z) := by
  rw [Formula.Value.componentwise, ofInt_eq, ofInt_eq, Int.cast_zero, Int.cast_one]
  cases h with
  | number a =>
    obtain ⟨b, hb⟩ := hf.number a
    rw [hf.zero, hb, ofReal_number, ofReal_number]
    simp only [Complex.mul, Complex.add, number_mul, number_sub, number_add, mul_zero, sub_zero, add_zero]
    exact .number b
  | @notANumber y hy =>
    have him : Tame (Complex.mul ⟨.number 0, .number 1⟩ (.ofReal (f y))).im :=
      ((Tame.number 0).mul (tame_ofInt 0)).add ((Tame.number 1).mul (hf.tame hy))
    rw [hf.notANumber, Complex.add, Complex.ofReal, notANumber_add]
    exact .notANumber ((tame_ofInt 0).add him)

omit [OtherFunctions K] in
theorem exists_sign (a : K) : ∃ b, Scalar.sign (number a) = number b := by
  rw [Scalar.sign, isNaN_number, if_neg Bool.false_ne_true]
  split_ifs
  all_goals exact ⟨_, ofInt_eq _⟩

theorem rounds_roundHalfAway [IsStrictOrderedRing K] : Rounds (roundHalfAway : Exact K → Exact K) where
  zero := by
    have hsign : Scalar.sign (number (0 : K)) = number 0 := by simp [Scalar.sign]
    have hfloor : ∃ b : K, Scalar.floor (Scalar.abs (number (0 : K)) + Scalar.ofRatio 1 2) = number b := by
      rw [abs_number]
      exact ⟨_, rfl⟩
    obtain ⟨b, hb⟩ := hfloor
    rw [roundHalfAway, hsign, hb, number_mul, zero_mul]
  number a := by
    obtain ⟨b, hb⟩ := exists_sign a
    rw [roundHalfAway, hb, abs_number]
    exact ⟨_, rfl⟩
  notANumber := by
    have hsign : Scalar.sign (notANumber : Exact K) = notANumber := rfl
    rw [roundHalfAway, hsign, notANumber_mul]

/-! ## Magnitudes and powers -/

variable [IsStrictOrderedRing K]

theorem OnLine.hypot (h : OnLine x z) : Analytic.hypot z.re z.im = Scalar.abs x := by
  cases h with
  | number a => rw [hypot_axis, abs_number]
  | notANumber hy => rw [hypot_notANumber hy, abs_notANumber]

section
variable {n : ℕ}

omit [OtherFunctions K] [IsStrictOrderedRing K] in
theorem isZero_exponent : (Complex.ofReal (number (n : K))).isZero = decide (n = 0) := by
  rw [ofReal_number, Complex.isZero, isZero_number, isZero_number, decide_eq_true (rfl : (0 : K) = 0), Bool.and_true]
  exact decide_eq_decide.2 Nat.cast_eq_zero

omit [OtherFunctions K] in
theorem toInt?_exponent : Scalar.toInt? (Complex.ofReal (number (n : K))).re = some (n : ℤ) := by
  rw [ofReal_number, ← Int.cast_natCast, toInt?_intCast]

omit [OtherFunctions K] [IsStrictOrderedRing K] in
theorem isZero_im_ofReal (x : Exact K) : Scalar.isZero (Complex.ofReal x).im = true := by
  rw [Complex.ofReal, ofInt_eq, isZero_number, Int.cast_zero]
  exact decide_eq_true rfl

omit [OtherFunctions K] [IsStrictOrderedRing K] in
theorem OnLine.eq_zero (h : OnLine x z) (hzero : z.isZero = true) : x = Exact.number 0 := by
  cases h with
  | number a =>
    rw [Complex.isZero, isZero_number, Bool.and_eq_true, decide_eq_true_eq] at hzero
    rw [hzero.1]
  | notANumber _ => cases hzero

/-- **A small natural power keeps to the line.** -/
theorem OnLine.powComplex (h : OnLine x z) (hn : n < 100) :
    OnLine (x.powNat n) (powComplex z (.ofReal (Exact.number (n : K)))) := by
  unfold Formula.Value.powComplex
  rw [isZero_exponent]
  by_cases hzero : n = 0
  · rw [if_pos (decide_eq_true hzero), hzero, Exact.powNat]
    exact onLine_one
  rw [if_neg (by simpa using hzero)]
  split
  · rename_i hz
    have hpos : Scalar.lt (Scalar.ofInt 0) (Complex.ofReal (Exact.number (n : K))).re = true := by
      rw [ofInt_eq, Complex.ofReal, lt_number, Int.cast_zero]
      exact decide_eq_true (Nat.cast_pos.2 (Nat.pos_of_ne_zero hzero))
    rw [if_pos hpos, h.eq_zero hz, powNat_number, zero_pow hzero, ofInt_eq, Int.cast_zero]
    exact .ofReal (.number 0)
  · rw [isZero_im_ofReal, if_pos rfl, toInt?_exponent]
    simp only [Int.natAbs_natCast]
    rw [if_pos hn, if_neg (by omega)]
    exact h.powNat n

theorem OnLine.powComplexComputed (h : OnLine x z) (hn : n < 100) :
    OnLine (x.powNat n) (powComplexComputed z (.ofReal (Exact.number (n : K)))) := by
  unfold Formula.Value.powComplexComputed
  rw [isZero_im_ofReal, toInt?_exponent]
  have hx := h.tame.1
  split
  · exact h.powComplex hn
  split
  · rename_i heq
    obtain rfl : n = 1 := Int.ofNat.inj (Option.some.inj heq)
    rwa [powNat_one hx]
  · rename_i heq
    obtain rfl : n = 2 := Int.ofNat.inj (Option.some.inj heq)
    rw [Exact.powNat, powNat_one hx]
    exact h.mul h
  · rename_i heq
    obtain rfl : n = 3 := Int.ofNat.inj (Option.some.inj heq)
    have hcube : x * x * x = x * (x * x) := by
      cases hx with
      | number a => simp only [number_mul, mul_assoc]
      | notANumber => rfl
    rw [Exact.powNat, Exact.powNat, powNat_one hx, hcube]
    exact h.mul (h.mul h)
  · exact h.powComplex hn

omit [LinearOrder K] [FloorRing K] [OtherFunctions K] [IsStrictOrderedRing K] in
theorem OnLine.eq_of_number {a : K} (h : OnLine (Exact.number a) z) : z = ⟨.number a, .number 0⟩ := by
  cases h
  rfl

/-- A square is a product, as a power too. -/
theorem OnLine.powComplexComputed_two (h : OnLine x z) :
    Formula.Value.powComplexComputed z (.ofReal (Scalar.ofInt 2)) = z.mul z := by
  have hexponent : (Scalar.ofInt 2 : Exact K) = Exact.number ((2 : ℕ) : K) :=
    (ofInt_eq 2).trans (congrArg Exact.number (Int.cast_natCast 2))
  have hpow := h.powComplexComputed (n := 2) (by decide)
  rw [hexponent]
  cases h with
  | number a =>
    rw [powNat_number, pow_two] at hpow
    rw [hpow.eq_of_number, ((OnLine.number a).mul (.number a)).eq_of_number]
  | notANumber hy =>
    unfold Formula.Value.powComplexComputed
    rw [isZero_im_ofReal, toInt?_exponent]
    rfl

end

end

end Exact

end Heightfield
