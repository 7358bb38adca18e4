import Mathlib
import Heightfield.Number.Scalar
/-!
# The exact value of a double

A finite double is `± m * 2 ^ e`, with at most 53 bits in `m`, and with all of them unless the exponent is the least
one (`Canonical`).  So of two finite doubles the one with the greater exponent is the greater, and comparing doubles is
comparing their values (`le_iff`, `lt_iff`).
-/
namespace Heightfield
namespace Double

open Float.Model (UnpackedFloat Format)
open Float.Model.UnpackedFloat (Sign packComponents)

/-! ## Mantissas and exponents -/

/-- At most 53 bits, and no exponent but the least for fewer. -/
structure Canonical (m : ℕ) (e : ℤ) : Prop where
  lt : m < 2 ^ 53
  le : -1074 ≤ e
  full : e = -1074 ∨ 2 ^ 52 ≤ m

/-- The number with a sign. -/
def signed : Sign → ℚ → ℚ
  | .positive, q => q
  | .negative, q => -q

/-- The exact value; zero of what is not finite. -/
def exact : UnpackedFloat → ℚ
  | .finite s m e _ => signed s (m * 2 ^ e)
  | _ => 0

/-- The exact value of a double; zero of what is not finite. -/
def value (x : Float) : ℚ := exact x.toModel.unpack

/-- Zero, or with a mantissa and an exponent that a double has. -/
inductive Proper : UnpackedFloat → Prop
  | zero (s : Sign) : Proper (.zero s)
  | finite {s : Sign} {m : ℕ} {e : ℤ} (h : 0 < m) (hc : Canonical m e) (he : e ≤ 971) : Proper (.finite s m e h)

theorem Proper.isFinite {u : UnpackedFloat} (h : Proper u) : u.isFinite = true := by cases h <;> rfl

/-! ## Packing -/

theorem toNat_one_append (v : BitVec 52) : (1#1 ++ v).toNat = 2 ^ 52 + v.toNat := by
  rw [BitVec.toNat_append]
  have h := Nat.two_pow_add_eq_or_of_lt v.isLt 1
  rw [Nat.mul_one] at h
  exact h.symm

/-- What bits stand for is zero, or canonical, or not finite. -/
theorem proper_unpack {b : BitVec Format.binary64.numBits} (h : (UnpackedFloat.unpack Format.binary64 b).isFinite = true) :
    Proper (UnpackedFloat.unpack Format.binary64 b) := by
  have hbias : ((Format.binary64.exponentBias : ℤ) + (52 : ℕ)) = 1075 := rfl
  revert h
  fun_cases UnpackedFloat.unpack Format.binary64 b with
  | case1 => exact nofun
  | case2 => exact nofun
  | case3 mvec evec svec s _ hevec hmvec => exact fun _ => .zero _
  | case4 mvec evec e svec s hnot hevec hmvec =>
    intro _
    have he : e + 1 = -1074 := by
      show ((evec.toNat : ℤ) - (Format.binary64.exponentBias + (52 : ℕ))) + 1 = -1074
      rw [hevec, hbias]
      rfl
    refine .finite _ ⟨lt_trans mvec.isLt (by decide), he.ge, Or.inl he⟩ (by omega)
  | case5 mvec evec e svec s hnot hevec =>
    intro _
    have hpos : 0 < evec.toNat := Nat.pos_of_ne_zero fun h => hevec (BitVec.eq_of_toNat_eq (by rw [h]; rfl))
    have hlt : evec.toNat < 2047 := by
      refine lt_of_le_of_ne (Nat.le_of_lt_succ evec.isLt) fun h => hnot (BitVec.eq_of_toNat_eq (by rw [h]; rfl))
    have he : e = (evec.toNat : ℤ) - 1075 := by
      show (evec.toNat : ℤ) - (Format.binary64.exponentBias + (52 : ℕ)) = _
      rw [hbias]
    have hm := toNat_one_append mvec
    have hmlt : mvec.toNat < 2 ^ 52 := mvec.isLt
    exact .finite _ ⟨by omega, by omega, Or.inr (by omega)⟩ (by omega)

/-- The bits of a mantissa with its leading bit. -/
theorem unpack_packComponents_full {s : Sign} {m : ℕ} {e : ℤ} (hm : 0 < m) (hc : Canonical m e) (he : e ≤ 971)
    (hfull : 2 ^ 52 ≤ m) : UnpackedFloat.unpack Format.binary64
      (packComponents Format.binary64 s (BitVec.ofNat 11 (e + 1075).toNat) (BitVec.ofNat 52 m)) = .finite s m e hm := by
  have hlt := hc.lt
  have hle := hc.le
  have hexp : ((BitVec.ofNat 11 (e + 1075).toNat).toNat : ℤ) = e + 1075 := by
    rw [BitVec.toNat_ofNat, Nat.mod_eq_of_lt (by omega)]
    omega
  rw [UnpackedFloat.unpack]
  simp only [UnpackedFloat.unpackExponent_packComponents, UnpackedFloat.unpackMantissa_packComponents,
    UnpackedFloat.unpackSign_packComponents, Sign.ofBitVec_toBitVec]
  rw [if_neg, if_neg]
  · congr 1
    · rw [toNat_one_append, BitVec.toNat_ofNat]
      omega
    · show ((BitVec.ofNat 11 (e + 1075).toNat).toNat : ℤ) - 1075 = e
      omega
  · intro heq
    rw [heq] at hexp
    have : (0 : ℤ) = e + 1075 := hexp
    omega
  · intro heq
    rw [heq] at hexp
    have : (2047 : ℤ) = e + 1075 := hexp
    omega

/-- The bits of a mantissa without it. -/
theorem unpack_packComponents_least {s : Sign} {m : ℕ} (hm : 0 < m) (hlt : m < 2 ^ 52) :
    UnpackedFloat.unpack Format.binary64 (packComponents Format.binary64 s 0#11 (BitVec.ofNat 52 m)) =
      .finite s m (-1074) hm := by
  have hmant : (BitVec.ofNat 52 m).toNat = m := by
    rw [BitVec.toNat_ofNat, Nat.mod_eq_of_lt hlt]
  rw [UnpackedFloat.unpack]
  simp only [UnpackedFloat.unpackExponent_packComponents, UnpackedFloat.unpackMantissa_packComponents,
    UnpackedFloat.unpackSign_packComponents, Sign.ofBitVec_toBitVec]
  rw [if_neg (by decide), if_pos trivial, dif_neg]
  · congr 1
  · intro heq
    rw [heq] at hmant
    have : 0 = m := hmant
    omega

/-- **What a double can hold is read from it as it was stored.** -/
theorem unpack_pack {u : UnpackedFloat} (h : Proper u) : (Float.Model.pack u).unpack = u := by
  show UnpackedFloat.unpack Format.binary64 (UnpackedFloat.pack Format.binary64 u) = u
  cases h with
  | zero s => exact UnpackedFloat.unpack_packedZero
  | @finite s m e hm hc he =>
    have hle := hc.le
    have hbias : (e + (Format.binary64.exponentBias : ℤ) + (52 : ℕ)).toNat = (e + 1075).toNat := by
      rw [add_assoc]
      rfl
    have hbits : Format.binary64.mantissaBits = 53 := rfl
    have hsmall : ¬2 ^ 11 ≤ (e + 1075).toNat + 1 := by omega
    rw [UnpackedFloat.pack]
    simp only [hbias, hbits]
    rw [if_neg hsmall]
    by_cases hfull : 2 ^ 52 ≤ m
    · have hlog : m.log2 + 1 = 53 := congrArg Nat.succ ((Nat.log2_eq_iff hm.ne').2 ⟨hfull, hc.lt⟩)
      rw [if_pos hlog]
      exact unpack_packComponents_full hm hc he hfull
    · obtain rfl : e = -1074 := hc.full.resolve_right hfull
      have hlog : ¬m.log2 + 1 = 53 := fun h => by
        have := (Nat.log2_lt hm.ne').2 (not_le.1 hfull)
        omega
      rw [if_neg hlog]
      exact unpack_packComponents_least hm (not_le.1 hfull)

theorem proper_of_isFinite {x : Float} (h : x.isFinite = true) : Proper x.toModel.unpack := proper_unpack h

/-! ## Comparisons -/

theorem two_zpow_pos (e : ℤ) : (0 : ℚ) < 2 ^ e := zpow_pos (by norm_num) e

theorem mantissa_pos {m : ℕ} (h : 0 < m) (e : ℤ) : (0 : ℚ) < m * 2 ^ e :=
  mul_pos (Nat.cast_pos.2 h) (two_zpow_pos e)

/-- Of canonical numbers the one with the greater exponent is the greater. -/
theorem lt_of_exponent_lt {m₁ m₂ : ℕ} {e₁ e₂ : ℤ} (h₁ : Canonical m₁ e₁) (h₂ : Canonical m₂ e₂) (he : e₁ < e₂) :
    (m₁ : ℚ) * 2 ^ e₁ < m₂ * 2 ^ e₂ := by
  have hm₂ : 2 ^ 52 ≤ m₂ := h₂.full.resolve_left (by have := h₁.le; omega)
  have hm₁ : (m₁ : ℚ) < 2 ^ 53 := by exact_mod_cast h₁.lt
  calc (m₁ : ℚ) * 2 ^ e₁ < 2 ^ 53 * 2 ^ e₁ := mul_lt_mul_of_pos_right hm₁ (two_zpow_pos e₁)
    _ = 2 ^ 52 * 2 ^ (e₁ + 1) := by rw [zpow_add₀ (by norm_num)]; ring
    _ ≤ 2 ^ 52 * 2 ^ e₂ :=
      mul_le_mul_of_nonneg_left (zpow_le_zpow_right₀ (by norm_num) (by omega)) (by norm_num)
    _ ≤ m₂ * 2 ^ e₂ := mul_le_mul_of_nonneg_right (by exact_mod_cast hm₂) (two_zpow_pos e₂).le

theorem compare_canonical {m₁ m₂ : ℕ} {e₁ e₂ : ℤ} (h₁ : Canonical m₁ e₁) (h₂ : Canonical m₂ e₂) :
    (compare e₁ e₂).then (compare m₁ m₂) = compare ((m₁ : ℚ) * 2 ^ e₁) (m₂ * 2 ^ e₂) := by
  rcases lt_trichotomy e₁ e₂ with he | rfl | he
  · rw [compare_lt_iff_lt.2 he, compare_lt_iff_lt.2 (lt_of_exponent_lt h₁ h₂ he)]
    rfl
  · rw [compare_eq_iff_eq.2 rfl, Ordering.eq_then]
    rcases lt_trichotomy m₁ m₂ with hm | rfl | hm
    · rw [compare_lt_iff_lt.2 hm, compare_lt_iff_lt.2 (mul_lt_mul_of_pos_right (Nat.cast_lt.2 hm) (two_zpow_pos e₁))]
    · rw [compare_eq_iff_eq.2 rfl, compare_eq_iff_eq.2 rfl]
    · rw [compare_gt_iff_gt.2 hm, compare_gt_iff_gt.2 (mul_lt_mul_of_pos_right (Nat.cast_lt.2 hm) (two_zpow_pos e₁))]
  · rw [compare_gt_iff_gt.2 he, compare_gt_iff_gt.2 (lt_of_exponent_lt h₂ h₁ he)]
    rfl

/-- **Comparing finite doubles is comparing their values.** -/
theorem compare_exact {a b : UnpackedFloat} (ha : Proper a) (hb : Proper b) :
    a.compare b = some (compare (exact a) (exact b)) := by
  cases ha with
  | zero s =>
    cases hb with
    | zero t => exact congrArg some (compare_eq_iff_eq.2 rfl).symm
    | @finite t m e hm hc he =>
      have hpos := mantissa_pos hm e
      cases t with
      | positive => exact congrArg some (compare_lt_iff_lt.2 hpos).symm
      | negative => exact congrArg some (compare_gt_iff_gt.2 (neg_lt_zero.2 hpos)).symm
  | @finite s m e hm hc he =>
    have hpos := mantissa_pos hm e
    cases hb with
    | zero t =>
      cases s with
      | positive => exact congrArg some (compare_gt_iff_gt.2 hpos).symm
      | negative => exact congrArg some (compare_lt_iff_lt.2 (neg_lt_zero.2 hpos)).symm
    | @finite t n f hn hc' hf =>
      have hpos' := mantissa_pos hn f
      have hcompare := compare_canonical hc hc'
      cases s with
      | positive =>
        cases t with
        | positive => exact congrArg some hcompare
        | negative =>
          exact congrArg some (compare_gt_iff_gt.2 (lt_trans (neg_lt_zero.2 hpos') hpos)).symm
      | negative =>
        cases t with
        | positive => exact congrArg some (compare_lt_iff_lt.2 (lt_trans (neg_lt_zero.2 hpos) hpos')).symm
        | negative =>
          refine congrArg some ?_
          rw [hcompare]
          show _ = compare (-((m : ℚ) * 2 ^ e)) (-(n * 2 ^ f))
          rcases lt_trichotomy ((m : ℚ) * 2 ^ e) (n * 2 ^ f) with h | h | h
          · rw [compare_lt_iff_lt.2 h, compare_gt_iff_gt.2 (neg_lt_neg h)]
            rfl
          · rw [compare_eq_iff_eq.2 h, compare_eq_iff_eq.2 (congrArg Neg.neg h)]
            rfl
          · rw [compare_gt_iff_gt.2 h, compare_lt_iff_lt.2 (neg_lt_neg h)]
            rfl

variable {x y z : Float}

theorem le_iff (hx : x.isFinite = true) (hy : y.isFinite = true) : Scalar.le x y = true ↔ value x ≤ value y := by
  have h : Scalar.le x y = x.toModel.unpack.le y.toModel.unpack := by
    show decide (decide (x.toModel.unpack.le y.toModel.unpack = true) = true) = _
    rw [Bool.decide_coe, Bool.decide_coe]
  rw [h, UnpackedFloat.le, compare_exact (proper_of_isFinite hx) (proper_of_isFinite hy), Option.any_some,
    Ordering.isLE_iff_ne_gt, compare_gt_iff_gt, not_lt]
  rfl

theorem lt_iff (hx : x.isFinite = true) (hy : y.isFinite = true) : Scalar.lt x y = true ↔ value x < value y := by
  have h : Scalar.lt x y = x.toModel.unpack.lt y.toModel.unpack := by
    show decide (decide (x.toModel.unpack.lt y.toModel.unpack = true) = true) = _
    rw [Bool.decide_coe, Bool.decide_coe]
  rw [h, UnpackedFloat.lt, compare_exact (proper_of_isFinite hx) (proper_of_isFinite hy), beq_iff_eq, Option.some_inj,
    compare_lt_iff_lt]
  rfl

theorem isNaN_eq_false (hx : x.isFinite = true) : x.isNaN = false := by
  have h : ∀ {u}, Proper u → u.isNaN = false := fun hu => by cases hu <;> rfl
  exact h (proper_of_isFinite hx)

end Double
end Heightfield
