import Heightfield.Proofs.Number.Value
/-!
# Rounding

An operation on doubles gives the exact result, rounded to 53 bits, half to even (`Nearest`).  So of two exact results
the greater is not rounded to less (`Nearest.mono`), and no number that a double can be lies between an exact result and
the rounded one (`Faithful`).  The latter is all that bounds need.  If the exact result is at most a number that a double
can be, then so is the rounded one, however often one rounds.
-/
namespace Heightfield
namespace Double

open Float.Model (UnpackedFloat Format totalExponent)
open Float.Model.UnpackedFloat (Sign Accuracy ExtendedMantissa shiftToTargetExponent shiftToExponent roundWithAccuracy
  decreaseExponent)

/-! ## Faithful rounding -/

/-- The number has at most 53 bits, and none below the last bit of the least doubles. -/
def Representable (b : ℚ) : Prop := ∃ j k : ℤ, |j| ≤ 2 ^ 53 ∧ -1074 ≤ k ∧ b = j * 2 ^ k

/-- No representable number lies between the number and the rounded one. -/
def Faithful (v r : ℚ) : Prop := ∀ b, Representable b → (v ≤ b → r ≤ b) ∧ (b ≤ v → b ≤ r)

theorem Representable.neg {b : ℚ} (h : Representable b) : Representable (-b) := by
  obtain ⟨j, k, hj, hk, rfl⟩ := h
  exact ⟨-j, k, by rwa [abs_neg], hk, by push_cast; ring⟩

theorem representable_zero : Representable 0 := ⟨0, 0, by decide, by decide, by rw [Int.cast_zero, zero_mul]⟩

namespace Faithful

variable {v r : ℚ}

theorem neg (h : Faithful v r) : Faithful (-v) (-r) := fun b hb => by
  have h' := h (-b) hb.neg
  exact ⟨fun hle => neg_le.1 (h'.2 (neg_le.1 hle)), fun hle => le_neg.1 (h'.1 (le_neg.1 hle))⟩

theorem bounded (h : Faithful v r) {b : ℚ} (hb : Representable b) (hv : |v| ≤ b) : |r| ≤ b := by
  obtain ⟨hlow, hhigh⟩ := abs_le.1 hv
  exact abs_le.2 ⟨(h (-b) hb.neg).2 hlow, (h b hb).1 hhigh⟩

/-- Positive numbers need be compared with positive ones only. -/
theorem of_nonneg (hv : 0 ≤ v) (hr : 0 ≤ r) (h : ∀ (j : ℕ) (k : ℤ), j ≤ 2 ^ 53 → -1074 ≤ k →
    (v ≤ j * 2 ^ k → r ≤ j * 2 ^ k) ∧ ((j : ℚ) * 2 ^ k ≤ v → j * 2 ^ k ≤ r)) : Faithful v r := by
  rintro b ⟨j, k, hj, hk, rfl⟩
  rcases le_or_gt 0 j with hpos | hneg
  · obtain ⟨n, rfl⟩ := Int.eq_ofNat_of_zero_le hpos
    rw [Nat.abs_cast] at hj
    exact h n k (by exact_mod_cast hj) hk
  · have hb : (j : ℚ) * 2 ^ k < 0 := mul_neg_of_neg_of_pos (by exact_mod_cast hneg) (two_zpow_pos k)
    exact ⟨fun hle => absurd (hv.trans hle) (not_le.2 hb), fun _ => hb.le.trans hr⟩

end Faithful

/-! ## Mantissas -/

/-- The integer next to the number, and the even one of two that are equally near. -/
structure HalfEven (w : ℚ) (n : ℤ) : Prop where
  near : |w - n| ≤ 1 / 2
  even : |w - n| = 1 / 2 → Even n

namespace HalfEven

variable {w w' : ℚ} {n n' : ℤ}

theorem intCast (n : ℤ) : HalfEven n n := by
  have hzero : |(n : ℚ) - n| = 0 := by rw [sub_self, abs_zero]
  exact ⟨by rw [hzero]; norm_num, fun h => by rw [hzero] at h; norm_num at h⟩

theorem neg (h : HalfEven w n) : HalfEven (-w) (-n) := by
  have habs : |-w - ((-n : ℤ) : ℚ)| = |w - n| := by
    rw [Int.cast_neg, ← neg_sub', abs_neg]
  exact ⟨habs.trans_le h.near, fun hhalf => (h.even (habs.symm.trans hhalf)).neg⟩

/-- **The greater number is not rounded to less.**  If it were, both would be half way between two neighbours, and both
neighbours even. -/
theorem mono (h : HalfEven w n) (h' : HalfEven w' n') (hle : w ≤ w') : n ≤ n' := by
  refine not_lt.1 fun hlt => ?_
  have hlow := (abs_le.1 h.near).1
  have hhigh := (abs_le.1 h'.near).2
  have hn : (n' : ℚ) + 1 ≤ n := by exact_mod_cast hlt
  have heven : Even n := h.even (by rw [show w - n = -(1 / 2) by linarith, abs_neg, abs_of_pos one_half_pos])
  have heven' : Even n' := h'.even (by rw [show w' - n' = 1 / 2 by linarith, abs_of_pos one_half_pos])
  have hnext : n = n' + 1 := by exact_mod_cast (by linarith : (n : ℚ) = n' + 1)
  rw [hnext, Int.even_add_one] at heven
  exact heven heven'

end HalfEven

/-- The integer is the one below or above, and the number itself if that is an integer. -/
def RoundsToInteger (w : ℚ) (n : ℕ) : Prop := ∀ j : ℕ, (w ≤ j → n ≤ j) ∧ (j ≤ w → j ≤ n)

theorem HalfEven.roundsToInteger {w : ℚ} {n : ℕ} (h : HalfEven w n) : RoundsToInteger w n := fun j =>
  ⟨fun hle => Int.ofNat_le.1 (h.mono (.intCast j) (by rwa [Int.cast_natCast])),
    fun hle => Int.ofNat_le.1 ((intCast j).mono h (by rwa [Int.cast_natCast]))⟩

/-- All bits above are fewer than the same number of bits further up. -/
theorem two_pow_mul_le {i t : ℤ} (h : i < t) : (2 : ℚ) ^ 53 * 2 ^ i ≤ 2 ^ 52 * 2 ^ t := calc
  (2 : ℚ) ^ 53 * 2 ^ i = 2 ^ 52 * 2 ^ (i + 1) := by rw [zpow_add₀ (by norm_num)]; ring
  _ ≤ 2 ^ 52 * 2 ^ t := mul_le_mul_of_nonneg_left (zpow_le_zpow_right₀ (by norm_num) h) (by norm_num)

/-- **Rounding to an integral mantissa is faithful**, if the mantissa has all its bits or the exponent is the least. -/
theorem RoundsToInteger.faithful {w : ℚ} {n : ℕ} (h : RoundsToInteger w n) (hw : 0 ≤ w) {t : ℤ}
    (hfull : t = -1074 ∨ 2 ^ 52 ≤ w) : Faithful (w * 2 ^ t) (n * 2 ^ t) := by
  have hpos := two_zpow_pos t
  refine .of_nonneg (mul_nonneg hw hpos.le) (by positivity) fun j i hj hi => ?_
  rcases le_or_gt t i with hti | hti
  · -- a multiple of the last bit
    obtain ⟨d, hd⟩ : ∃ d : ℕ, i = t + d := ⟨(i - t).toNat, by omega⟩
    have hb : (j : ℚ) * 2 ^ i = (j * 2 ^ d : ℕ) * 2 ^ t := by
      rw [hd, zpow_add₀ (by norm_num), zpow_natCast]
      push_cast
      ring
    rw [hb, mul_le_mul_iff_left₀ hpos, mul_le_mul_iff_left₀ hpos, mul_le_mul_iff_left₀ hpos, mul_le_mul_iff_left₀ hpos]
    exact ⟨fun hle => by exact_mod_cast (h _).1 hle, fun hle => by exact_mod_cast (h _).2 hle⟩
  · -- a number with finer bits is not above the least one with these
    have hfullw : (2 : ℚ) ^ 52 ≤ w := hfull.resolve_left (by omega)
    have hn : 2 ^ 52 ≤ n := (h (2 ^ 52)).2 (by exact_mod_cast hfullw)
    have hb : (j : ℚ) * 2 ^ i ≤ 2 ^ 52 * 2 ^ t :=
      (mul_le_mul_of_nonneg_right (by exact_mod_cast hj) (two_zpow_pos i).le).trans (two_pow_mul_le hti)
    have hv := mul_le_mul_of_nonneg_right hfullw hpos.le
    refine ⟨fun hle => ?_, fun _ => hb.trans (mul_le_mul_of_nonneg_right (by exact_mod_cast hn) hpos.le)⟩
    have heq : w * 2 ^ t = 2 ^ 52 * 2 ^ t := le_antisymm (hle.trans hb) hv
    have hw' : w = 2 ^ 52 := mul_right_cancel₀ hpos.ne' heq
    have hn' : n ≤ 2 ^ 52 := (h (2 ^ 52)).1 (by rw [hw']; norm_num)
    calc (n : ℚ) * 2 ^ t ≤ 2 ^ 52 * 2 ^ t := mul_le_mul_of_nonneg_right (by exact_mod_cast hn') hpos.le
      _ ≤ j * 2 ^ i := hv.trans hle

/-! ## Rounded numbers -/

/-- The number has at most 53 bits down to `2 ^ t`, and fewer only if that is the last bit of the least doubles. -/
structure LastBit (v : ℚ) (t : ℤ) : Prop where
  le : -1074 ≤ t
  bits : |v| ≤ 2 ^ 53 * 2 ^ t
  full : t = -1074 ∨ 2 ^ 52 * 2 ^ t ≤ |v|

/-- The number rounded to its last bit, half to even. -/
def Nearest (v r : ℚ) : Prop := ∃ t n : ℤ, LastBit v t ∧ HalfEven (v / 2 ^ t) n ∧ r = n * 2 ^ t

namespace Nearest

variable {v w r s : ℚ}

theorem neg (h : Nearest v r) : Nearest (-v) (-r) := by
  obtain ⟨t, n, hlast, hn, rfl⟩ := h
  refine ⟨t, -n, ⟨hlast.le, ?_, ?_⟩, by rw [neg_div]; exact hn.neg, by push_cast; ring⟩
  · rw [abs_neg]
    exact hlast.bits
  · rw [abs_neg]
    exact hlast.full

theorem faithful_of_nonneg (h : Nearest v r) (hv : 0 ≤ v) : Faithful v r := by
  obtain ⟨t, n, hlast, hn, rfl⟩ := h
  have hpos := two_zpow_pos t
  have hw : 0 ≤ v / 2 ^ t := div_nonneg hv hpos.le
  have hfull := hlast.full
  rw [abs_of_nonneg hv, ← le_div_iff₀ hpos] at hfull
  obtain ⟨k, rfl⟩ := Int.eq_ofNat_of_zero_le ((HalfEven.intCast 0).mono hn (by rwa [Int.cast_zero]))
  have hfaithful := hn.roundsToInteger.faithful hw hfull
  rwa [div_mul_cancel₀ v hpos.ne'] at hfaithful

/-- **Rounding is faithful.** -/
theorem faithful (h : Nearest v r) : Faithful v r := by
  rcases le_total 0 v with hv | hv
  · exact h.faithful_of_nonneg hv
  · have hfaithful := (h.neg.faithful_of_nonneg (neg_nonneg.2 hv)).neg
    rwa [neg_neg, neg_neg] at hfaithful

theorem mono_of_nonneg (h : Nearest v r) (h' : Nearest w s) (hv : 0 ≤ v) (hle : v ≤ w) : r ≤ s := by
  have hbetween : ∀ {t : ℤ}, -1074 ≤ t → v ≤ 2 ^ 52 * 2 ^ t → 2 ^ 52 * 2 ^ t ≤ w → r ≤ s := fun {t} ht hlow hhigh => by
    have hb : Representable (2 ^ 52 * 2 ^ t) := ⟨2 ^ 52, t, by decide, ht, by push_cast; rfl⟩
    exact ((h.faithful _ hb).1 hlow).trans ((h'.faithful _ hb).2 hhigh)
  obtain ⟨t, n, hlast, hn, rfl⟩ := h
  obtain ⟨t', n', hlast', hn', rfl⟩ := h'
  have habs : |v| = v := abs_of_nonneg hv
  have habs' : |w| = w := abs_of_nonneg (hv.trans hle)
  have hpos := two_zpow_pos t
  rcases lt_trichotomy t t' with hlt | rfl | hlt
  · have hfull := hlast'.full.resolve_left (by have := hlast.le; omega)
    exact hbetween hlast'.le ((habs ▸ hlast.bits).trans (two_pow_mul_le hlt)) (habs' ▸ hfull)
  · exact mul_le_mul_of_nonneg_right (Int.cast_le.2 (hn.mono hn' (div_le_div_of_nonneg_right hle hpos.le))) hpos.le
  · -- the lesser number has as many bits as the greater one only if both are a power of two
    have hfull := hlast.full.resolve_left (by have := hlast'.le; omega)
    have hhigh := hle.trans ((habs' ▸ hlast'.bits).trans (two_pow_mul_le hlt))
    exact hbetween hlast.le hhigh ((habs ▸ hfull).trans hle)

/-- **The greater number is not rounded to less.** -/
theorem mono (h : Nearest v r) (h' : Nearest w s) (hle : v ≤ w) : r ≤ s := by
  rcases le_total 0 v with hv | hv
  · exact h.mono_of_nonneg h' hv hle
  · rcases le_total 0 w with hw | hw
    · exact ((h.faithful 0 representable_zero).1 hv).trans ((h'.faithful 0 representable_zero).2 hw)
    · exact neg_le_neg_iff.1 (h'.neg.mono_of_nonneg h.neg (neg_nonneg.2 hw) (neg_le_neg hle))

/-- **The error of a rounded number** that is not among the least ones. -/
theorem abs_sub_le (h : Nearest v r) (hv : 0 ≤ v) (hr : 2 ^ (-1022 : ℤ) ≤ r) : |v - r| ≤ r / 2 ^ 53 := by
  have hfaithful := h.faithful
  obtain ⟨t, n, hlast, hn, rfl⟩ := h
  have hpos := two_zpow_pos t
  have hbits : 2 ^ 52 * 2 ^ t ≤ n * (2 : ℚ) ^ t := by
    rcases hlast.full with rfl | hfull
    · rw [← zpow_natCast, ← zpow_add₀ (by norm_num)]
      exact hr
    · rw [abs_of_nonneg hv] at hfull
      exact (hfaithful _ ⟨2 ^ 52, t, by decide, hlast.le, by push_cast; rfl⟩).2 hfull
  calc |v - n * 2 ^ t| = |v / 2 ^ t - n| * 2 ^ t := by
        rw [← abs_of_pos hpos, ← abs_mul, abs_of_pos hpos, sub_mul, div_mul_cancel₀ v hpos.ne']
    _ ≤ 1 / 2 * 2 ^ t := mul_le_mul_of_nonneg_right hn.near hpos.le
    _ = 2 ^ 52 * 2 ^ t / 2 ^ 53 := by ring
    _ ≤ n * 2 ^ t / 2 ^ 53 := div_le_div_of_nonneg_right hbits (by norm_num)

end Nearest

/-- **A mantissa that is rounded half to even is the rounded number**, if it has all its bits or the exponent is the
least. -/
theorem HalfEven.nearest {w : ℚ} {q : ℕ} (h : HalfEven w q) (hw : 0 ≤ w) (hbits : w ≤ 2 ^ 53) {t : ℤ} (ht : -1074 ≤ t)
    (hfull : t = -1074 ∨ 2 ^ 52 ≤ w) : Nearest (w * 2 ^ t) (q * 2 ^ t) := by
  have hpos := two_zpow_pos t
  have habs : |w * 2 ^ t| = w * 2 ^ t := abs_of_nonneg (mul_nonneg hw hpos.le)
  refine ⟨t, q, ⟨ht, ?_, hfull.imp_right fun hle => ?_⟩, ?_, by rw [Int.cast_natCast]⟩
  · rw [habs]
    exact mul_le_mul_of_nonneg_right hbits hpos.le
  · rw [habs]
    exact mul_le_mul_of_nonneg_right hle hpos.le
  · rwa [mul_div_cancel_right₀ _ hpos.ne']

/-! ## Accuracies -/

/-- Where the number lies between its integer part and the next integer, as an accuracy tells. -/
def Locates (w : ℚ) (m : ℕ) : Accuracy → Prop
  | .exact => w = m
  | .inexact .lt => m < w ∧ w < m + 1 / 2
  | .inexact .eq => w = m + 1 / 2
  | .inexact .gt => m + 1 / 2 < w ∧ w < m + 1

namespace Locates

variable {w : ℚ} {m : ℕ} {acc : Accuracy}

theorem bounds (h : Locates w m acc) : (m : ℚ) ≤ w ∧ w < m + 1 := by
  rcases acc with _ | _ | _ | _
  · exact ⟨h.ge, by rw [h]; exact lt_add_one _⟩
  · exact ⟨h.1.le, by linarith [h.2]⟩
  · have h : w = m + 1 / 2 := h
    constructor <;> linarith
  · exact ⟨by linarith [h.1], h.2⟩

/-- **An accuracy tells how to round.** -/
theorem halfEven (h : Locates w m acc) : HalfEven w (acc.roundToNearestEven m : ℕ) := by
  have hnear : ∀ n : ℤ, -(1 / 2) < w - n → w - n < 1 / 2 → HalfEven w n := fun n hlow hhigh =>
    ⟨(abs_lt.2 ⟨hlow, hhigh⟩).le, fun heq => absurd heq (abs_lt.2 ⟨hlow, hhigh⟩).ne⟩
  rcases acc with _ | _ | _ | _
  · have h : w = (m : ℤ) := h
    rw [h]
    exact .intCast m
  · obtain ⟨hlow, hhigh⟩ : (m : ℚ) < w ∧ w < m + 1 / 2 := h
    exact hnear m (by push_cast; linarith) (by push_cast; linarith)
  · have h : w = m + 1 / 2 := h
    show HalfEven w ((m + m % 2 : ℕ) : ℤ)
    rcases Nat.mod_two_eq_zero_or_one m with hm | hm
    · have habs : |w - ((m : ℤ) : ℚ)| = 1 / 2 := by
        rw [h, Int.cast_natCast, add_sub_cancel_left, abs_of_pos one_half_pos]
      rw [hm, Nat.add_zero]
      exact ⟨habs.le, fun _ => (Int.even_coe_nat m).2 (Nat.even_iff.2 hm)⟩
    · have habs : |w - ((m + 1 : ℕ) : ℤ)| = 1 / 2 := by
        have hsub : w - ((m + 1 : ℕ) : ℤ) = -(1 / 2) := by
          rw [h]
          push_cast
          ring
        rw [hsub, abs_neg, abs_of_pos one_half_pos]
      rw [hm]
      exact ⟨habs.le, fun _ => (Int.even_coe_nat _).2 (Nat.even_iff.2 (by omega))⟩
  · obtain ⟨hlow, hhigh⟩ : (m : ℚ) + 1 / 2 < w ∧ w < m + 1 := h
    exact hnear (m + 1 : ℕ) (by push_cast; linarith) (by push_cast; linarith)

variable {em : ExtendedMantissa}

/-- A bit that is shifted out is the half, and those before it are less. -/
theorem shiftRightOne (h : Locates w em.mantissa em.accuracy) :
    Locates (w / 2) em.shiftRightOne.mantissa em.shiftRightOne.accuracy := by
  obtain ⟨m, r, s⟩ := em
  have hsplit : (m : ℚ) = 2 * (m / 2 : ℕ) + (m % 2 : ℕ) := by exact_mod_cast (Nat.div_add_mod m 2).symm
  show Locates (w / 2) (m / 2) (ExtendedMantissa.accuracy ⟨m / 2, m % 2 != 0, r || s⟩)
  rcases Nat.mod_two_eq_zero_or_one m with hm | hm
  · rw [hm, Nat.cast_zero, add_zero] at hsplit
    rw [hm]
    cases r with
    | false => cases s with
      | false =>
        have h : w = m := h
        show w / 2 = _
        linarith
      | true =>
        obtain ⟨hlow, hhigh⟩ : (m : ℚ) < w ∧ w < m + 1 / 2 := h
        constructor <;> linarith
    | true => cases s with
      | false =>
        have h : w = m + 1 / 2 := h
        constructor <;> linarith
      | true =>
        obtain ⟨hlow, hhigh⟩ : (m : ℚ) + 1 / 2 < w ∧ w < m + 1 := h
        constructor <;> linarith
  · rw [hm, Nat.cast_one] at hsplit
    rw [hm]
    cases r with
    | false => cases s with
      | false =>
        have h : w = m := h
        show w / 2 = _ + 1 / 2
        linarith
      | true =>
        obtain ⟨hlow, hhigh⟩ : (m : ℚ) < w ∧ w < m + 1 / 2 := h
        constructor <;> linarith
    | true => cases s with
      | false =>
        have h : w = m + 1 / 2 := h
        constructor <;> linarith
      | true =>
        obtain ⟨hlow, hhigh⟩ : (m : ℚ) + 1 / 2 < w ∧ w < m + 1 := h
        constructor <;> linarith

theorem shiftRight (h : Locates w em.mantissa em.accuracy) :
    ∀ n : ℕ, Locates (w / 2 ^ n) (em >>> n).mantissa (em >>> n).accuracy
  | 0 => by
    rw [pow_zero, div_one]
    exact h
  | n + 1 => by
    rw [pow_succ, ← div_div]
    exact (shiftRight h n).shiftRightOne

theorem ofMantissaAndAccuracy (h : Locates w m acc) :
    Locates w (ExtendedMantissa.ofMantissaAndAccuracy m acc).mantissa
      (ExtendedMantissa.ofMantissaAndAccuracy m acc).accuracy := by
  rcases acc with _ | _ | _ | _ <;> exact h

end Locates

/-! ## Rounding a mantissa -/

theorem targetExponent_eq (t : ℤ) : Format.binary64.targetExponent t = max (t - 53) (-1074) := rfl

/-- Fewer than 54 bits stay as they are. -/
theorem shiftToTargetExponent_of_lt {m : ℕ} (hm : m < 2 ^ 53) {e : ℤ} (he : -1074 ≤ e) :
    shiftToTargetExponent Format.binary64 m e .exact = (⟨m, false, false⟩, e) := by
  have hlog : m.log2 ≤ 52 := by
    by_cases h : m = 0
    · rw [h]
      decide
    · have := (Nat.log2_lt h).2 hm
      omega
  have hshift : (Format.binary64.targetExponent (totalExponent m e) - e).toNat = 0 := by
    rw [targetExponent_eq, totalExponent]
    omega
  rw [shiftToTargetExponent, shiftToExponent]
  simp only [hshift]
  rw [Nat.cast_zero, add_zero]
  rfl

/-- A mantissa that was rounded up to a further bit loses a zero. -/
theorem shiftToTargetExponent_two_pow {e : ℤ} (he : -1074 ≤ e) :
    shiftToTargetExponent Format.binary64 (2 ^ 53) e .exact = (⟨2 ^ 52, false, false⟩, e + 1) := by
  have hshift : (Format.binary64.targetExponent (totalExponent (2 ^ 53) e) - e).toNat = 1 := by
    rw [targetExponent_eq, totalExponent, Nat.log2_two_pow]
    omega
  rw [shiftToTargetExponent, shiftToExponent]
  simp only [hshift]
  rw [Nat.cast_one]
  rfl

/-- Zero, or a finite number. -/
def ofMantissa (s : Sign) (m : ℕ) (e : ℤ) : UnpackedFloat :=
  if h : m = 0 then .zero s else .finite s m e (Nat.pos_of_ne_zero h)

theorem exact_ofMantissa (s : Sign) (m : ℕ) (e : ℤ) : exact (ofMantissa s m e) = signed s (m * 2 ^ e) := by
  unfold ofMantissa
  split
  · rename_i h
    rw [h, Nat.cast_zero, zero_mul]
    cases s
    · exact neg_zero.symm
    · rfl
  · rfl

theorem isFinite_ofMantissa (s : Sign) (m : ℕ) (e : ℤ) : (ofMantissa s m e).isFinite = true := by
  unfold ofMantissa
  split <;> rfl

/-- The number of bits before the point is 53 at the exponent to which a mantissa is shifted, and less at the least
exponent only. -/
theorem shifted_bounds {m k : ℕ} {e t : ℤ} {w : ℚ} (hle : (m : ℚ) ≤ w) (hlt : w < m + 1)
    (ht : t = max ((m.log2 : ℤ) + 1 + e - 53) (-1074)) (hk : e + k = t) :
    w / 2 ^ k ≤ 2 ^ 53 ∧ (t = -1074 ∨ 2 ^ 52 ≤ w / 2 ^ k) := by
  constructor
  · have hbits : m + 1 ≤ 2 ^ (k + 53) := Nat.lt_log2_self.trans_le (Nat.pow_le_pow_right (by decide) (by omega))
    have hw : w ≤ 2 ^ (k + 53) := hlt.le.trans (by exact_mod_cast hbits)
    rw [div_le_iff₀ (by positivity), ← pow_add, add_comm]
    exact hw
  · by_cases hleast : t = -1074
    · exact Or.inl hleast
    · right
      have hlog : m.log2 = k + 52 := by omega
      have hm : m ≠ 0 := by
        rintro rfl
        rw [Nat.log2_zero] at hlog
        omega
      have hbits : 2 ^ (k + 52) ≤ m := hlog ▸ Nat.log2_self_le hm
      rw [le_div_iff₀ (by positivity), ← pow_add, add_comm]
      exact le_trans (by exact_mod_cast hbits) hle

/-- A mantissa of up to 53 bits, or the first with one more, is as it was after a further shift. -/
theorem exists_shiftToTargetExponent {q : ℕ} (hq : q ≤ 2 ^ 53) {t : ℤ} (ht : -1074 ≤ t)
    (hfull : t = -1074 ∨ 2 ^ 52 ≤ q) : ∃ n i, shiftToTargetExponent Format.binary64 q t .exact = (⟨n, false, false⟩, i) ∧
      Canonical n i ∧ (n : ℚ) * 2 ^ i = q * 2 ^ t := by
  rcases eq_or_lt_of_le hq with rfl | hlt
  · refine ⟨2 ^ 52, t + 1, shiftToTargetExponent_two_pow ht, ⟨by decide, by omega, Or.inr le_rfl⟩, ?_⟩
    rw [zpow_add₀ (by norm_num)]
    push_cast
    ring
  · exact ⟨q, t, shiftToTargetExponent_of_lt hlt ht, ⟨hlt, ht, hfull⟩, rfl⟩

/-- **A mantissa is rounded half to even.**  The number is `w * 2 ^ e`, and `w` is given by its integer part and an
accuracy. -/
theorem exists_roundWithAccuracy (s : Sign) {m : ℕ} {e : ℤ} {acc : Accuracy} {w : ℚ} (h : Locates w m acc)
    (he : e ≤ Format.binary64.targetExponent (totalExponent m e)) :
    ∃ n t, roundWithAccuracy Format.binary64 s m e acc = ofMantissa s n t ∧ Canonical n t ∧
      Nearest (w * 2 ^ e) (n * 2 ^ t) := by
  generalize ht : Format.binary64.targetExponent (totalExponent m e) = t at he
  obtain ⟨k, hk⟩ : ∃ k : ℕ, e + k = t := ⟨(t - e).toNat, by omega⟩
  have htarget : t = max ((m.log2 : ℤ) + 1 + e - 53) (-1074) := ht.symm
  have htoNat : (t - e).toNat = k := by omega
  obtain ⟨hle, hlt⟩ := h.bounds
  have hw : 0 ≤ w / 2 ^ k := div_nonneg ((Nat.cast_nonneg m).trans hle) (by positivity)
  have hround := (h.ofMantissaAndAccuracy.shiftRight k).halfEven
  generalize hq : (ExtendedMantissa.ofMantissaAndAccuracy m acc >>> k).accuracy.roundToNearestEven
    (ExtendedMantissa.ofMantissaAndAccuracy m acc >>> k).mantissa = q at hround
  obtain ⟨hupper, hfull⟩ := shifted_bounds hle hlt htarget hk
  have hvalue : w * 2 ^ e = w / 2 ^ k * 2 ^ t := by
    rw [← hk, zpow_add₀ (by norm_num), zpow_natCast]
    field_simp
  have hnearest : Nearest (w * 2 ^ e) (q * 2 ^ t) := by
    rw [hvalue]
    exact hround.nearest hw hupper (by omega) hfull
  have hinteger := hround.roundsToInteger
  obtain ⟨n, i, hshift, hc, hsame⟩ := exists_shiftToTargetExponent ((hinteger (2 ^ 53)).1 (by exact_mod_cast hupper))
    (by omega) (hfull.imp_right fun h => (hinteger (2 ^ 52)).2 (by exact_mod_cast h))
  have hresult : roundWithAccuracy Format.binary64 s m e acc =
      ofMantissa s (shiftToTargetExponent Format.binary64 q t .exact).1.mantissa
        (shiftToTargetExponent Format.binary64 q t .exact).2 := by
    rw [roundWithAccuracy, shiftToTargetExponent, shiftToExponent]
    simp only [ht, htoNat, ExtendedMantissa.roundedMantissa, hq, hk]
    rfl
  rw [hshift] at hresult
  exact ⟨n, i, hresult, hc, hsame ▸ hnearest⟩

end Double
end Heightfield
