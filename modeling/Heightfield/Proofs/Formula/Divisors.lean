import Heightfield.Proofs.Number.Integers
import Heightfield.Formula.Evaluate
import Heightfield.Number.Double
/-!
# Divisors and multiples of integral doubles

Greatest common divisors and least common multiples are computed on words, so they are right as far as words reach
(`Formula.divisors_right_iff`).  A magnitude above `2 ^ 63` is cast to `2 ^ 63`: a common divisor is right exactly if that
does not change it, and it is a word; a common multiple is right exactly if it is a word.  What is not right is a finite
number all the same.
-/
namespace Heightfield
namespace Formula

open Double (value Representable greatest IsInt isInt_ofInt)
open Value (castInt wrap leastWord wordCount fits onAxis)

variable {a b : ℤ} {m n : ℕ}

/-! ## Words -/

theorem natAbs_castInt (a : ℤ) : (castInt a).natAbs = min a.natAbs (2 ^ 63) := by
  unfold castInt fits
  simp only [Bool.and_eq_true, decide_eq_true_iff]
  split
  · rename_i h
    rw [leastWord, Value.greatestWord] at h
    omega
  · rename_i h
    rw [leastWord, Value.greatestWord] at *
    omega

theorem wrap_of_lt (h : m < 2 ^ 63) : wrap m = m := by
  rw [wrap, wordCount]
  exact Int.bmod_eq_of_le (by omega) (by omega)

theorem wrap_neg (h : 2 ^ 63 ≤ m) (hlt : m < 2 ^ 64) : wrap m < 0 := by
  rw [wrap, wordCount, Int.bmod_def]
  split <;> omega

theorem abs_wrap_le (a : ℤ) : |wrap a| ≤ 2 ^ 63 := by
  have hlow := Int.le_bmod (x := a) (m := wordCount) (by decide)
  have hhigh := Int.bmod_lt (x := a) (m := wordCount) (by decide)
  rw [wordCount] at hlow hhigh
  rw [wrap, wordCount, abs_le]
  omega

theorem representable_two_pow : Representable (2 ^ 63) := ⟨1, 63, by decide, by decide, by norm_num⟩

theorem two_pow_le_greatest : (2 : ℚ) ^ 63 ≤ greatest := by
  unfold greatest
  calc (2 : ℚ) ^ 63 ≤ (2 ^ 53 - 1) * 2 ^ (11 : ℤ) := by norm_num
    _ ≤ _ := mul_le_mul_of_nonneg_left (zpow_le_zpow_right₀ (by norm_num) (by decide)) (by norm_num)

theorem rounds_wrap (a : ℤ) : Double.Rounds (wrap a) (Scalar.ofInt (wrap a)) := by
  refine (Double.result_ofInt _).rounds ?_
  exact (show |((wrap a : ℤ) : ℚ)| ≤ 2 ^ 63 by exact_mod_cast abs_wrap_le a).trans two_pow_le_greatest

theorem value_wrap_le (a : ℤ) : value (Scalar.ofInt (wrap a)) ≤ 2 ^ 63 := by
  refine ((rounds_wrap a).faithful _ representable_two_pow).1 ?_
  exact_mod_cast (le_abs_self _).trans (abs_wrap_le a)

theorem value_wrap_neg (h : 2 ^ 63 ≤ m) (hlt : m < 2 ^ 64) : value (Scalar.ofInt (wrap m)) < 0 := by
  have hneg : wrap m ≤ -1 := by have := wrap_neg h hlt; omega
  have hone : Representable ((-1 : ℤ) : ℚ) := Double.representable_intCast (by decide)
  have hle : value (Scalar.ofInt (wrap m)) ≤ ((-1 : ℤ) : ℚ) := ((rounds_wrap m).faithful _ hone).1 (Int.cast_le.2 hneg)
  exact hle.trans_lt (by norm_num)

variable {x y : Float}

/-! ## Divisors -/

theorem isInt_gcd (hm : Representable m) (hn : Representable n) (hle : (m : ℚ) ≤ greatest) (hle' : (n : ℚ) ≤ greatest) :
    IsInt (Scalar.ofInt (m.gcd n)) (m.gcd n) := by
  have hof : ∀ {k : ℕ}, Representable k → (k : ℚ) ≤ greatest → k ≠ 0 → m.gcd n ∣ k →
      IsInt (Scalar.ofInt (m.gcd n)) (m.gcd n) := fun {k} hk hkle hne hdvd => by
    have hgcd : ((m.gcd n : ℕ) : ℚ) ≤ greatest :=
      le_trans (by exact_mod_cast Nat.le_of_dvd (Nat.pos_of_ne_zero hne) hdvd) hkle
    refine isInt_ofInt (by rw [Int.cast_natCast]; exact Double.representable_of_dvd hk hne hdvd) ?_
    rwa [Int.cast_natCast, abs_of_nonneg (Nat.cast_nonneg _)]
  by_cases hzero : m = 0
  · by_cases hzero' : n = 0
    · rw [hzero, hzero', Nat.gcd_self]
      exact isInt_ofInt (Double.representable_intCast (by decide)) (Double.intCast_le_greatest (by decide))
    · exact hof hn hle' hzero' (Nat.gcd_dvd_right m n)
  · exact hof hm hle hzero (Nat.gcd_dvd_left m n)

theorem representable_min (h : Representable m) : Representable (min m (2 ^ 63) : ℕ) := by
  rcases min_choice m (2 ^ 63) with hmin | hmin
  · rwa [hmin]
  · rw [hmin, Nat.cast_pow, Nat.cast_ofNat]
    exact representable_two_pow

theorem min_le_greatest (m : ℕ) : ((min m (2 ^ 63) : ℕ) : ℚ) ≤ greatest :=
  le_trans (by exact_mod_cast min_le_right m (2 ^ 63)) two_pow_le_greatest

/-- **A common divisor is right** if casting the two integers does not change it, and it is a word. -/
theorem ofInt_wrap_gcd_eq_iff (ha : IsInt x a) (hb : IsInt y b) :
    (Scalar.ofInt (wrap ((castInt a).gcd (castInt b) : ℕ)) : Float) = Scalar.ofNat (a.gcd b) ↔
      (min a.natAbs (2 ^ 63)).gcd (min b.natAbs (2 ^ 63)) = a.gcd b ∧ a.gcd b < 2 ^ 63 := by
  have hright := isInt_gcd ha.representable hb.representable ha.le hb.le
  have hcast := isInt_gcd (representable_min ha.representable) (representable_min hb.representable)
    (min_le_greatest a.natAbs) (min_le_greatest b.natAbs)
  have hle : (min a.natAbs (2 ^ 63)).gcd (min b.natAbs (2 ^ 63)) ≤ 2 ^ 63 := by
    rcases Nat.eq_zero_or_pos (min a.natAbs (2 ^ 63)) with hzero | hpos
    · rw [hzero, Nat.gcd_zero_left]
      exact min_le_right _ _
    · exact (Nat.gcd_le_left _ hpos).trans (min_le_right _ _)
  rw [Int.gcd_def (castInt a), natAbs_castInt, natAbs_castInt]
  show (Scalar.ofInt (wrap _) : Float) = Scalar.ofInt (a.natAbs.gcd b.natAbs : ℕ) ↔
    _ = a.natAbs.gcd b.natAbs ∧ a.natAbs.gcd b.natAbs < 2 ^ 63
  generalize (min a.natAbs (2 ^ 63)).gcd (min b.natAbs (2 ^ 63)) = g at hcast hle
  generalize a.natAbs.gcd b.natAbs = h at hright
  rcases hle.lt_or_eq with hlt | rfl
  · rw [wrap_of_lt hlt]
    refine ⟨fun heq => ?_, fun heq => by rw [heq.1]⟩
    have hvalue : ((g : ℤ) : ℚ) = (h : ℤ) := by rw [← hcast.value_eq, heq, hright.value_eq]
    obtain rfl : g = h := by exact_mod_cast hvalue
    exact ⟨rfl, hlt⟩
  · refine ⟨fun heq => ?_, fun heq => absurd heq.2 (heq.1 ▸ lt_irrefl _)⟩
    have hneg := value_wrap_neg (m := 2 ^ 63) le_rfl (by decide)
    rw [heq, hright.value_eq] at hneg
    exact absurd hneg (by exact_mod_cast (Nat.zero_le h).not_gt)

/-! ## Multiples -/

/-- A common multiple of doubles, one of them above `2 ^ 63`, is not near it. -/
theorem le_lcm_of_lt (ha : Representable m) (hlt : 2 ^ 63 < m) (hpos : 0 < m.lcm n) : 2 ^ 63 + 2 ^ 11 ≤ m.lcm n :=
  (Double.le_of_two_pow_lt ha hlt).trans (Nat.le_of_dvd hpos (Nat.dvd_lcm_left m n))

/-- A common multiple near `2 ^ 63` is not changed by casting the two integers. -/
theorem lcm_min_eq (ha : Representable m) (hb : Representable n) (hpos : 0 < m.lcm n)
    (hlt : m.lcm n < 2 ^ 63 + 2 ^ 11) : (min m (2 ^ 63)).lcm (min n (2 ^ 63)) = m.lcm n := by
  have hm : m ≤ 2 ^ 63 := not_lt.1 fun h => hlt.not_ge (le_lcm_of_lt ha h hpos)
  have hn : n ≤ 2 ^ 63 := not_lt.1 fun h => by
    rw [Nat.lcm_comm] at hpos hlt
    exact hlt.not_ge (le_lcm_of_lt hb h hpos)
  rw [min_eq_left hm, min_eq_left hn]

theorem lcm_min_eq_zero (h : m.lcm n = 0) : (min m (2 ^ 63)).lcm (min n (2 ^ 63)) = 0 := by
  rcases Nat.lcm_eq_zero_iff.1 h with rfl | rfl
  · rw [Nat.zero_min, Nat.lcm_zero_left]
  · rw [Nat.zero_min, Nat.lcm_zero_right]

/-- **A common multiple is right** exactly if it is a word. -/
theorem ofInt_wrap_lcm_eq_iff (ha : IsInt x a) (hb : IsInt y b) :
    (Scalar.ofInt (wrap ((castInt a).lcm (castInt b) : ℕ)) : Float) = Scalar.ofNat (a.lcm b) ↔ a.lcm b < 2 ^ 63 := by
  have hra := ha.representable
  have hrb := hb.representable
  rw [Int.lcm_def, natAbs_castInt, natAbs_castInt]
  show (Scalar.ofInt (wrap _) : Float) = Scalar.ofInt (a.natAbs.lcm b.natAbs : ℕ) ↔ a.natAbs.lcm b.natAbs < 2 ^ 63
  generalize a.natAbs = m at hra
  generalize b.natAbs = n at hrb
  rcases Nat.eq_zero_or_pos (m.lcm n) with hzero | hpos
  · rw [lcm_min_eq_zero hzero, hzero]
    exact ⟨fun _ => by decide, fun _ => by rfl⟩
  · rcases Nat.lt_or_ge (m.lcm n) (2 ^ 63 + 2 ^ 11) with hnear | hfar
    · rw [lcm_min_eq hra hrb hpos hnear]
      refine ⟨fun heq => not_le.1 fun hge => ?_, fun hlt => by rw [wrap_of_lt hlt]⟩
      have hneg := value_wrap_neg hge (by omega)
      have hnonneg := Double.value_ofNat_nonneg (m.lcm n)
      rw [show (Scalar.ofNat (m.lcm n) : Float) = Scalar.ofInt (m.lcm n : ℕ) from rfl, ← heq] at hnonneg
      exact hneg.not_ge hnonneg
    · refine ⟨fun heq => ?_, fun hlt => absurd hlt (by omega)⟩
      have hfinite := (rounds_wrap ((min m (2 ^ 63)).lcm (min n (2 ^ 63)) : ℕ)).isFinite
      have hle := value_wrap_le ((min m (2 ^ 63)).lcm (min n (2 ^ 63)) : ℕ)
      rw [heq] at hfinite hle
      have hnext : Representable (2 ^ 63 + 2 ^ 11) := ⟨2 ^ 52 + 1, 11, by decide, by decide, by norm_num⟩
      have hge := ((Double.result_ofInt (m.lcm n : ℕ)).faithful hfinite _ hnext).2 (by exact_mod_cast hfar)
      exact absurd (hge.trans hle) (by norm_num)

/-! ## Formulas -/

section
variable {p q : Expr} {s t : Float}

/-- At a point of the real plane the operand is the double, on the real axis. -/
def OperandAt (p : Expr) (s t x : Float) : Prop := (p.eval (environment .real s t)).bind onAxis = some x

/-- What a formula gives is the number as a double, or it is not a number. -/
def Right (outcome : Except WrongMode Float) (n : ℕ) : Prop :=
  ∃ r, outcome = .ok r ∧ (r.isNaN = true ∨ r = Scalar.ofNat n)

theorem right_ok_iff {r : Float} (hr : r.isFinite = true) : Right (.ok r) n ↔ r = Scalar.ofNat n := by
  refine ⟨?_, fun h => ⟨r, rfl, .inr h⟩⟩
  rintro ⟨r', hok, hnan | heq⟩
  · cases hok
    rw [Double.isNaN_eq_false hr] at hnan
    cases hnan
  · cases hok
    exact heq

theorem evaluateReal_onIntegers {op : Operation} {f : ℤ → ℤ → ℤ}
    (hop : ∀ v w : Value Float, op.eval v w = Value.onIntegers f v w) (text : String)
    (hx : OperandAt p s t x) (hy : OperandAt q s t y) :
    (⟨text, .real, .binary op p q⟩ : Formula).evaluateReal s t = .ok (Value.finiteOrNaN
      (match Scalar.toInt? x, Scalar.toInt? y with
        | some a, some b => Scalar.ofInt (wrap (f (castInt a) (castInt b)))
        | _, _ => Scalar.nan)) := by
  obtain ⟨v, hv, hx⟩ := Option.bind_eq_some_iff.1 hx
  obtain ⟨w, hw, hy⟩ := Option.bind_eq_some_iff.1 hy
  have hvalue : (⟨text, .real, .binary op p q⟩ : Formula).value? s t = some (.computed
      (match Scalar.toInt? x, Scalar.toInt? y with
        | some a, some b => Scalar.ofInt (wrap (f (castInt a) (castInt b)))
        | _, _ => Scalar.nan)) := by
    show Expr.eval _ (.binary op p q) = _
    rw [Expr.eval, hv, hw, Option.bind_some, Option.bind_some, hop, Value.onIntegers, hx, hy, Option.bind_some,
      Option.map_some]
    cases Scalar.toInt? x <;> cases Scalar.toInt? y <;> rfl
  rw [evaluateReal, if_pos rfl, hvalue]
  rfl

theorem evaluateReal_of_isInt {op : Operation} {f : ℤ → ℤ → ℤ}
    (hop : ∀ v w : Value Float, op.eval v w = Value.onIntegers f v w) (text : String)
    (hx : OperandAt p s t x) (hy : OperandAt q s t y) (ha : IsInt x a) (hb : IsInt y b) :
    (⟨text, .real, .binary op p q⟩ : Formula).evaluateReal s t =
      .ok (Scalar.ofInt (wrap (f (castInt a) (castInt b)))) := by
  rw [evaluateReal_onIntegers hop text hx hy, Double.toInt?_eq_some_iff.2 ha, Double.toInt?_eq_some_iff.2 hb]
  exact congrArg Except.ok (if_pos (rounds_wrap _).isFinite)

theorem evaluateReal_of_not_isInt {op : Operation} {f : ℤ → ℤ → ℤ}
    (hop : ∀ v w : Value Float, op.eval v w = Value.onIntegers f v w) (text : String)
    (hx : OperandAt p s t x) (hy : OperandAt q s t y) (h : ¬∃ a b, IsInt x a ∧ IsInt y b) :
    (⟨text, .real, .binary op p q⟩ : Formula).evaluateReal s t = .ok Scalar.nan := by
  rw [evaluateReal_onIntegers hop text hx hy]
  cases ha : Scalar.toInt? x with
  | none => exact congrArg Except.ok (ite_self _)
  | some a => cases hb : Scalar.toInt? y with
    | none => exact congrArg Except.ok (ite_self _)
    | some b => exact absurd ⟨a, b, Double.toInt?_eq_some_iff.1 ha, Double.toInt?_eq_some_iff.1 hb⟩ h

/-- The product of one integer and its share in the other one is the common multiple. -/
theorem lcm_eq (a b : ℤ) : (if Int.gcd a b = 0 then 0 else a.natAbs / Int.gcd a b * b.natAbs : ℤ) = a.lcm b := by
  rw [Int.lcm_def, Int.gcd_def, Nat.lcm]
  split
  · rename_i hzero
    rw [hzero, Nat.div_zero]
    rfl
  · rw [← Nat.div_mul_right_comm (Nat.gcd_dvd_left _ _)]
    push_cast
    rfl

theorem eval_gcd (v w : Value Float) : Operation.eval .gcd v w = Value.onIntegers (fun a b => Int.gcd a b) v w := rfl

theorem eval_lcm (v w : Value Float) : Operation.eval .lcm v w = Value.onIntegers (fun a b => Int.lcm a b) v w := by
  rw [Operation.eval, Value.lcm]
  simp only [lcm_eq]

/-- **Divisors and multiples of integral doubles are right as far as words reach**; what is not integral has none. -/
theorem divisors_right_iff (text : String) (hx : OperandAt p s t x) (hy : OperandAt q s t y) :
    ((¬∃ a b, IsInt x a ∧ IsInt y b) → (⟨text, .real, .binary .gcd p q⟩ : Formula).evaluateReal s t = .ok Scalar.nan ∧
      (⟨text, .real, .binary .lcm p q⟩ : Formula).evaluateReal s t = .ok Scalar.nan) ∧
    ∀ a b, IsInt x a → IsInt y b →
      (Right ((⟨text, .real, .binary .gcd p q⟩ : Formula).evaluateReal s t) (a.gcd b) ↔
        (min a.natAbs (2 ^ 63)).gcd (min b.natAbs (2 ^ 63)) = a.gcd b ∧ a.gcd b < 2 ^ 63) ∧
      (Right ((⟨text, .real, .binary .lcm p q⟩ : Formula).evaluateReal s t) (a.lcm b) ↔ a.lcm b < 2 ^ 63) := by
  refine ⟨fun h => ⟨evaluateReal_of_not_isInt eval_gcd text hx hy h, evaluateReal_of_not_isInt eval_lcm text hx hy h⟩,
    fun a b ha hb => ⟨?_, ?_⟩⟩
  · rw [evaluateReal_of_isInt eval_gcd text hx hy ha hb, right_ok_iff (rounds_wrap _).isFinite]
    exact ofInt_wrap_gcd_eq_iff ha hb
  · rw [evaluateReal_of_isInt eval_lcm text hx hy ha hb, right_ok_iff (rounds_wrap _).isFinite]
    exact ofInt_wrap_lcm_eq_iff ha hb

end

/-! ## At points -/

theorem operandAt_x (s t : Float) : OperandAt (.var "x") s t s := rfl

theorem operandAt_y (s t : Float) : OperandAt (.var "y") s t t := rfl

/-- The greatest common divisor of `x` and `y`. -/
def commonDivisor : Formula := ⟨"gcd(x,y)", .real, .binary .gcd (.var "x") (.var "y")⟩

/-- The least common multiple of `x` and `y`. -/
def commonMultiple : Formula := ⟨"lcm(x,y)", .real, .binary .lcm (.var "x") (.var "y")⟩

theorem divisors_right_twelve :
    OperandAt (.var "x") 12.0 18.0 12.0 ∧ OperandAt (.var "y") 12.0 18.0 18.0 ∧ IsInt 12.0 12 ∧ IsInt 18.0 18 ∧
      Right (commonDivisor.evaluateReal 12.0 18.0) 6 ∧ Right (commonMultiple.evaluateReal 12.0 18.0) 36 := by
  have hx : IsInt 12.0 12 := ⟨by decide +kernel, by decide +kernel⟩
  have hy : IsInt 18.0 18 := ⟨by decide +kernel, by decide +kernel⟩
  have hdivisor := (divisors_right_iff "gcd(x,y)" (operandAt_x 12.0 18.0) (operandAt_y 12.0 18.0)).2 12 18 hx hy
  have hmultiple := (divisors_right_iff "lcm(x,y)" (operandAt_x 12.0 18.0) (operandAt_y 12.0 18.0)).2 12 18 hx hy
  exact ⟨operandAt_x _ _, operandAt_y _ _, hx, hy, hdivisor.1.2 (by decide), hmultiple.2.2 (by decide)⟩

/-- **A multiple wraps around, and a magnitude is cut.** -/
theorem not_right_beyond_words :
    IsInt 4294967296.0 4294967296 ∧ IsInt 4294967297.0 4294967297 ∧
      ¬Right (commonMultiple.evaluateReal 4294967296.0 4294967297.0) (Int.lcm 4294967296 4294967297) ∧
    IsInt 27670116110564327424.0 (3 * 2 ^ 63) ∧ IsInt 3.0 3 ∧
      ¬Right (commonDivisor.evaluateReal 27670116110564327424.0 3.0) (Int.gcd (3 * 2 ^ 63) 3) := by
  have hx : IsInt 4294967296.0 4294967296 := ⟨by decide +kernel, by decide +kernel⟩
  have hy : IsInt 4294967297.0 4294967297 := ⟨by decide +kernel, by decide +kernel⟩
  have hlong : IsInt 27670116110564327424.0 (3 * 2 ^ 63) := ⟨by decide +kernel, by decide +kernel⟩
  have hthree : IsInt 3.0 3 := ⟨by decide +kernel, by decide +kernel⟩
  refine ⟨hx, hy, ?_, hlong, hthree, ?_⟩
  · rw [commonMultiple, evaluateReal_of_isInt eval_lcm _ (operandAt_x _ _) (operandAt_y _ _) hx hy,
      right_ok_iff (rounds_wrap _).isFinite, ofInt_wrap_lcm_eq_iff hx hy]
    decide
  · rw [commonDivisor, evaluateReal_of_isInt eval_gcd _ (operandAt_x _ _) (operandAt_y _ _) hlong hthree,
      right_ok_iff (rounds_wrap _).isFinite, ofInt_wrap_gcd_eq_iff hlong hthree]
    decide

end Formula
end Heightfield
