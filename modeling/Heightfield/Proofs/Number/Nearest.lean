import Heightfield.Proofs.Number.Arithmetic
/-!
# Quotients of integers as doubles

`Binary64.nearest` writes the bits of a double by integer arithmetic.  The double is the rounded quotient
(`result_nearest`), so ratios and integers become doubles next to them, and integers of up to 53 bits become themselves
(`value_ofInt`).  Reading the bits again by integer arithmetic gives the value (`exists_ofFloat_eq`); so the integer
part of a double is that of its value (`floor?_eq`, `value_floor`).
-/
namespace Heightfield
namespace Double

open Float.Model (UnpackedFloat Format)
open Float.Model.UnpackedFloat (Sign accuracyOfFraction unpackMantissa unpackExponent unpackSign)

/-! ## Bits -/

theorem toNat_unpackMantissa (b : BitVec Format.binary64.numBits) :
    (unpackMantissa b).toNat = b.toNat % 2 ^ 52 := by
  show (b.toNat >>> 0) % 2 ^ 52 = _
  rw [Nat.shiftRight_zero]

theorem toNat_unpackExponent (b : BitVec Format.binary64.numBits) :
    (unpackExponent b).toNat = b.toNat / 2 ^ 52 % 2048 := by
  show (b.toNat >>> 52) % 2 ^ 11 = _
  rw [Nat.shiftRight_eq_div_pow]

theorem toNat_unpackSign (b : BitVec Format.binary64.numBits) : (unpackSign b).toNat = b.toNat / 2 ^ 63 % 2 := by
  show (b.toNat >>> 63) % 2 ^ 1 = _
  rw [Nat.shiftRight_eq_div_pow]

/-- The sign that is set or not. -/
def signOf (negative : Bool) : Sign := if negative then .negative else .positive

/-- The greatest bit is the sign. -/
theorem ofBitVec_unpackSign (b : BitVec Format.binary64.numBits) :
    Sign.ofBitVec (unpackSign b) = signOf (decide (2 ^ 63 ≤ b.toNat)) := by
  have hbit := toNat_unpackSign b
  have hlt : b.toNat < 2 ^ 64 := b.isLt
  by_cases hneg : 2 ^ 63 ≤ b.toNat
  · have hone : unpackSign b ≠ 0#1 := fun h => by
      rw [h] at hbit
      have : 0 = b.toNat / 2 ^ 63 % 2 := hbit
      omega
    rw [decide_eq_true hneg, Sign.ofBitVec, if_neg hone]
    rfl
  · have hzero : unpackSign b = 0#1 := BitVec.eq_of_toNat_eq (by rw [hbit]; show _ = 0; omega)
    rw [decide_eq_false hneg, Sign.ofBitVec, if_pos hzero]
    rfl

/-- What finite bits stand for, by integer arithmetic. -/
theorem unpack_eq_ofMantissa {b : BitVec Format.binary64.numBits} {field : ℕ} (hfield : b.toNat / 2 ^ 52 % 2048 = field)
    (hne : field ≠ 2047) : UnpackedFloat.unpack Format.binary64 b =
      ofMantissa (signOf (decide (2 ^ 63 ≤ b.toNat)))
        (if field = 0 then b.toNat % 2 ^ 52 else 2 ^ 52 + b.toNat % 2 ^ 52)
        (if field = 0 then -1074 else (field : ℤ) - 1075) := by
  have hm := toNat_unpackMantissa b
  have he := (toNat_unpackExponent b).trans hfield
  have hs := ofBitVec_unpackSign b
  have hnot : unpackExponent b ≠ -1#11 := fun h => by
    rw [h] at he
    exact hne he.symm
  unfold UnpackedFloat.unpack
  simp only [hs]
  rw [if_neg hnot]
  by_cases hzero : field = 0
  · have hz : unpackExponent b = 0#11 := BitVec.eq_of_toNat_eq (he.trans hzero)
    rw [if_pos hz, if_pos hzero, if_pos hzero]
    by_cases hmant : unpackMantissa b = 0#52
    · have hmz : b.toNat % 2 ^ 52 = 0 := by
        rw [← hm, hmant]
        rfl
      rw [dif_pos hmant, ofMantissa, dif_pos hmz]
    · have hmz : b.toNat % 2 ^ 52 ≠ 0 := fun h => hmant (BitVec.eq_of_toNat_eq (hm.trans h))
      rw [dif_neg hmant, ofMantissa, dif_neg hmz]
      congr 1
      rw [hz]
      rfl
  · have hz : unpackExponent b ≠ 0#11 := fun h => by
      rw [h] at he
      exact hzero he.symm
    rw [if_neg hz, if_neg hzero, if_neg hzero, ofMantissa, dif_neg (by omega)]
    congr 1
    · rw [toNat_one_append, hm]
    · rw [he]
      rfl

/-! ## Rounding a quotient -/

/-- A quotient is rounded by the accuracy of its integer part. -/
theorem roundQuotient_eq (n : ℕ) {d : ℕ} (hd : 0 < d) :
    Binary64.roundQuotient n d = (accuracyOfFraction (n % d) d).roundToNearestEven (n / d) := by
  rw [Binary64.roundQuotient, accuracyOfFraction]
  by_cases hzero : n % d = 0
  · rw [if_pos hzero]
    exact if_pos (show 2 * (n % d) < d by omega)
  · rw [if_neg hzero]
    rcases lt_trichotomy (2 * (n % d)) d with hcase | hcase | hcase
    · rw [compare_lt_iff_lt.2 hcase]
      exact if_pos hcase
    · rw [compare_eq_iff_eq.2 hcase]
      exact (if_neg hcase.not_lt).trans (if_neg hcase.not_gt)
    · rw [compare_gt_iff_gt.2 hcase]
      exact (if_neg hcase.not_gt).trans (if_pos hcase)

theorem halfEven_roundQuotient (n : ℕ) {d : ℕ} (hd : 0 < d) :
    HalfEven ((n : ℚ) / d) (Binary64.roundQuotient n d : ℕ) := by
  rw [roundQuotient_eq n hd]
  exact (locates_div n hd).halfEven

/-- The integers whose quotient is `num / den / 2 ^ e`. -/
def scaled (num den : ℕ) (e : ℤ) : ℕ × ℕ := if e ≤ 0 then (num <<< (-e).toNat, den) else (num, den <<< e.toNat)

/-- The exponent at which the integer part of the quotient has 53 bits. -/
def scale (num den : ℕ) : ℤ :=
  let guess : ℤ := (num.log2 : ℤ) - den.log2 - 52
  if (scaled num den guess).1 / (scaled num den guess).2 < 1 <<< 52 then guess - 1 else guess

theorem nearest_of_ne_zero (negative : Bool) {num : ℕ} (hnum : num ≠ 0) (den : ℕ) :
    Binary64.nearest negative num den =
      let e := max (scale num den) (-1074)
      Binary64.ofMagnitude negative (min (((e + 1074).toNat <<< 52) +
        Binary64.roundQuotient (scaled num den e).1 (scaled num den e).2) Binary64.infinityBits) := by
  rw [Binary64.nearest, if_neg hnum]
  rfl

theorem scaled_pos (num : ℕ) {den : ℕ} (hden : 0 < den) (e : ℤ) : 0 < (scaled num den e).2 := by
  unfold scaled
  split
  · exact hden
  · rw [Nat.shiftLeft_eq]
    exact Nat.mul_pos hden (Nat.two_pow_pos _)

theorem scaled_quotient (num den : ℕ) (e : ℤ) :
    ((scaled num den e).1 : ℚ) / (scaled num den e).2 = num / den / 2 ^ e := by
  unfold scaled
  split
  · obtain ⟨k, rfl⟩ : ∃ k : ℕ, e = -k := ⟨(-e).toNat, by omega⟩
    rw [show (- -(k : ℤ)).toNat = k by omega, Nat.shiftLeft_eq, zpow_neg, zpow_natCast, div_inv_eq_mul, Nat.cast_mul,
      Nat.cast_pow, Nat.cast_ofNat, div_mul_eq_mul_div]
  · obtain ⟨k, rfl⟩ : ∃ k : ℕ, e = k := ⟨e.toNat, by omega⟩
    rw [Int.toNat_natCast, Nat.shiftLeft_eq, zpow_natCast, Nat.cast_mul, Nat.cast_pow, Nat.cast_ofNat, div_mul_eq_div_div]

theorem quotient_bounds {num den : ℕ} (hnum : 0 < num) (hden : 0 < den) :
    (2 : ℚ) ^ ((num.log2 : ℤ) - den.log2 - 1) ≤ num / den ∧ (num : ℚ) / den < 2 ^ ((num.log2 : ℤ) - den.log2 + 1) := by
  have hdpos : (0 : ℚ) < den := Nat.cast_pos.2 hden
  have hnlow : (2 : ℚ) ^ (num.log2 : ℤ) ≤ num := by
    rw [zpow_natCast]
    exact_mod_cast Nat.log2_self_le hnum.ne'
  have hnhigh : (num : ℚ) < 2 ^ ((num.log2 : ℤ) + 1) := by
    rw [← Nat.cast_succ, zpow_natCast]
    exact_mod_cast Nat.lt_log2_self
  have hdlow : (2 : ℚ) ^ (den.log2 : ℤ) ≤ den := by
    rw [zpow_natCast]
    exact_mod_cast Nat.log2_self_le hden.ne'
  have hdhigh : (den : ℚ) < 2 ^ ((den.log2 : ℤ) + 1) := by
    rw [← Nat.cast_succ, zpow_natCast]
    exact_mod_cast Nat.lt_log2_self
  constructor
  · rw [le_div_iff₀ hdpos]
    calc (2 : ℚ) ^ ((num.log2 : ℤ) - den.log2 - 1) * den
        ≤ 2 ^ ((num.log2 : ℤ) - den.log2 - 1) * 2 ^ ((den.log2 : ℤ) + 1) :=
          mul_le_mul_of_nonneg_left hdhigh.le (two_zpow_pos _).le
      _ = 2 ^ (num.log2 : ℤ) := by rw [← zpow_add₀ (by norm_num)]; congr 1; omega
      _ ≤ num := hnlow
  · rw [div_lt_iff₀ hdpos]
    calc (num : ℚ) < 2 ^ ((num.log2 : ℤ) + 1) := hnhigh
      _ = 2 ^ ((num.log2 : ℤ) - den.log2 + 1) * 2 ^ (den.log2 : ℤ) := by
        rw [← zpow_add₀ (by norm_num)]; congr 1; omega
      _ ≤ 2 ^ ((num.log2 : ℤ) - den.log2 + 1) * den := mul_le_mul_of_nonneg_left hdlow (two_zpow_pos _).le

/-- The exponent at which a number has 53 bits before the point is one of two. -/
theorem mantissa_bounds {v : ℚ} {g : ℤ} (hlow : (2 : ℚ) ^ (g + 51) ≤ v) (hhigh : v < 2 ^ (g + 53)) {e : ℤ}
    (he : e = if v / 2 ^ g < 2 ^ 52 then g - 1 else g) : (2 : ℚ) ^ 52 ≤ v / 2 ^ e ∧ v / 2 ^ e < 2 ^ 53 := by
  have hle : ∀ i : ℤ, (2 : ℚ) ^ 52 ≤ v / 2 ^ i ↔ 2 ^ (i + 52) ≤ v := fun i => by
    rw [le_div_iff₀ (two_zpow_pos i), zpow_add₀ (by norm_num), mul_comm]
    rfl
  have hlt : ∀ (i : ℤ) (k : ℕ), v / 2 ^ i < 2 ^ k ↔ v < 2 ^ (i + k) := fun i k => by
    rw [div_lt_iff₀ (two_zpow_pos i), zpow_add₀ (by norm_num), mul_comm, zpow_natCast]
  rw [hle, hlt]
  by_cases hcase : v / 2 ^ g < 2 ^ 52
  · rw [if_pos hcase] at he
    rw [hlt] at hcase
    rw [he, show g - 1 + 52 = g + 51 by ring, show g - 1 + (53 : ℕ) = g + (52 : ℕ) by push_cast; ring]
    exact ⟨hlow, hcase⟩
  · rw [if_neg hcase] at he
    rw [not_lt, hle] at hcase
    rw [he]
    exact ⟨hcase, hhigh⟩

theorem scale_eq (num : ℕ) {den : ℕ} (hden : 0 < den) :
    scale num den = if (num : ℚ) / den / 2 ^ ((num.log2 : ℤ) - den.log2 - 52) < 2 ^ 52
      then (num.log2 : ℤ) - den.log2 - 52 - 1 else (num.log2 : ℤ) - den.log2 - 52 := by
  unfold scale
  dsimp only
  rw [← scaled_quotient]
  generalize (num.log2 : ℤ) - den.log2 - 52 = g
  have hpos := scaled_pos num hden g
  have hiff : (scaled num den g).1 / (scaled num den g).2 < 1 <<< 52 ↔
      ((scaled num den g).1 : ℚ) / (scaled num den g).2 < 2 ^ 52 := by
    rw [Nat.div_lt_iff_lt_mul hpos, div_lt_iff₀ (Nat.cast_pos.2 hpos)]
    norm_cast
  by_cases hlt : ((scaled num den g).1 : ℚ) / (scaled num den g).2 < 2 ^ 52
  · rw [if_pos hlt, if_pos (hiff.2 hlt)]
  · rw [if_neg hlt, if_neg (mt hiff.1 hlt)]

/-- The sign is the topmost of the bits of a magnitude. -/
theorem toNat_bits (negative : Bool) {m : ℕ} (hm : m < 2 ^ 63) :
    ∃ top, (UInt64.ofNat (if negative then 1 <<< 63 + m else m)).toBitVec.toNat = top * 2 ^ 63 + m ∧
      (top = 1 ∧ negative = true ∨ top = 0 ∧ negative = false) := by
  have hmod : (UInt64.ofNat (if negative then 1 <<< 63 + m else m)).toBitVec.toNat =
      (if negative then 1 <<< 63 + m else m) % 2 ^ 64 := rfl
  rw [hmod, show (1 : ℕ) <<< 63 = 2 ^ 63 from rfl]
  cases negative with
  | false =>
    rw [if_neg Bool.false_ne_true]
    exact ⟨0, by omega, Or.inr ⟨rfl, rfl⟩⟩
  | true =>
    rw [if_pos rfl]
    exact ⟨1, by omega, Or.inl ⟨rfl, rfl⟩⟩

/-- A mantissa that was rounded up to a further bit carries into the exponent. -/
theorem canonical_carried {q d : ℕ} (hq : q ≤ 2 ^ 53) (hd : d = 0 ∨ 2 ^ 52 ≤ q)
    (hbits : d * 2 ^ 52 + q < 2047 * 2 ^ 52) {n : ℕ} {t : ℤ}
    (hn : n = if d + q / 2 ^ 52 = 0 then q % 2 ^ 52 else 2 ^ 52 + q % 2 ^ 52)
    (ht : t = if d + q / 2 ^ 52 = 0 then -1074 else ((d + q / 2 ^ 52 : ℕ) : ℤ) - 1075) :
    Canonical n t ∧ (n : ℚ) * 2 ^ t = q * 2 ^ ((d : ℤ) - 1074) := by
  by_cases hzero : d + q / 2 ^ 52 = 0
  · rw [if_pos hzero] at hn ht
    obtain rfl : d = 0 := by omega
    have hmod : q % 2 ^ 52 = q := Nat.mod_eq_of_lt (by omega)
    rw [hn, ht, hmod]
    exact ⟨⟨by omega, le_rfl, Or.inl rfl⟩, rfl⟩
  · rw [if_neg hzero] at hn ht
    rw [hn, ht]
    refine ⟨⟨by omega, by omega, Or.inr (by omega)⟩, ?_⟩
    rcases Nat.lt_or_ge q (2 ^ 53) with hlt | hge
    · -- the mantissa and its leading bit
      have hmant : 2 ^ 52 + q % 2 ^ 52 = q := by omega
      have hexp : ((d + q / 2 ^ 52 : ℕ) : ℤ) - 1075 = d - 1074 := by omega
      rw [hmant, hexp]
    · obtain rfl : q = 2 ^ 53 := le_antisymm hq hge
      have hexp : ((d + 2 ^ 53 / 2 ^ 52 : ℕ) : ℤ) - 1075 = d - 1074 + 1 := by omega
      rw [hexp, zpow_add_one₀ (by norm_num)]
      push_cast
      ring

/-- The bits of a rounded mantissa. -/
theorem unpack_bits (negative : Bool) {q d : ℕ} (hq : q ≤ 2 ^ 53) (hd : d = 0 ∨ 2 ^ 52 ≤ q)
    (hbits : d * 2 ^ 52 + q < 2047 * 2 ^ 52) : ∃ n t,
      UnpackedFloat.unpack Format.binary64
        (UInt64.ofNat (if negative then 1 <<< 63 + (d * 2 ^ 52 + q) else d * 2 ^ 52 + q)).toBitVec =
          ofMantissa (signOf negative) n t ∧ Canonical n t ∧ (n : ℚ) * 2 ^ t = q * 2 ^ ((d : ℤ) - 1074) := by
  obtain ⟨top, htoNat, htop⟩ := toNat_bits negative (m := d * 2 ^ 52 + q) (by omega)
  generalize (UInt64.ofNat (if negative then 1 <<< 63 + (d * 2 ^ 52 + q) else d * 2 ^ 52 + q)).toBitVec = b at htoNat ⊢
  have hsign : decide (2 ^ 63 ≤ b.toNat) = negative := by
    rcases htop with ⟨rfl, rfl⟩ | ⟨rfl, rfl⟩
    · exact decide_eq_true (by omega)
    · exact decide_eq_false (by omega)
  have hfraction : b.toNat % 2 ^ 52 = q % 2 ^ 52 := by omega
  have hfield : b.toNat / 2 ^ 52 % 2048 = d + q / 2 ^ 52 := by omega
  have hunpack := unpack_eq_ofMantissa hfield (by omega)
  rw [hsign, hfraction] at hunpack
  exact ⟨_, _, hunpack, canonical_carried hq hd hbits rfl rfl⟩

/-- A rounded mantissa that is not above the greatest double has the bits of a finite one. -/
theorem bits_lt {q d : ℕ} (hd : d = 0 ∨ 2 ^ 52 ≤ q) (hq : q ≤ 2 ^ 53) (h : (q : ℚ) * 2 ^ ((d : ℤ) - 1074) ≤ greatest) :
    d * 2 ^ 52 + q < 2047 * 2 ^ 52 := by
  have hfield : d ≤ 2045 := not_lt.1 fun hlt => by
    have hfull : 2 ^ 52 ≤ q := hd.resolve_left (by omega)
    exact absurd h (not_le.2 (greatest_lt_mantissa hfull (by omega)))
  rcases Nat.lt_or_ge d 2045 with hlt | hge
  · omega
  · obtain rfl : d = 2045 := le_antisymm hfield hge
    have hle : (q : ℚ) ≤ 2 ^ 53 - 1 :=
      le_of_mul_le_mul_right (show (q : ℚ) * 2 ^ (971 : ℤ) ≤ (2 ^ 53 - 1) * 2 ^ (971 : ℤ) from h) (two_zpow_pos _)
    have : q + 1 ≤ 2 ^ 53 := by exact_mod_cast (by linarith : (q : ℚ) + 1 ≤ 2 ^ 53)
    omega

theorem isFinite_ofMagnitude_infinityBits (negative : Bool) :
    (Binary64.ofMagnitude negative Binary64.infinityBits).isFinite = false := by
  cases negative <;> rfl

/-- **The bits of a rounded mantissa are a result.** -/
theorem result_ofMagnitude (negative : Bool) {v w : ℚ} {q d : ℕ} (hw : 0 ≤ w) (hround : HalfEven w q)
    (hlt : w < 2 ^ 53) (hd : d = 0 ∨ 2 ^ 52 ≤ w) (hv : w * 2 ^ ((d : ℤ) - 1074) = v) :
    Result (signed (signOf negative) v) (Binary64.ofMagnitude negative (min (d * 2 ^ 52 + q) Binary64.infinityBits)) := by
  have hpos := two_zpow_pos ((d : ℤ) - 1074)
  have hinteger := hround.roundsToInteger
  have hq : q ≤ 2 ^ 53 := (hinteger (2 ^ 53)).1 (by exact_mod_cast hlt.le)
  have hdq : d = 0 ∨ 2 ^ 52 ≤ q := hd.imp_right fun hle => (hinteger (2 ^ 52)).2 (by exact_mod_cast hle)
  have hnearest : Nearest v (q * 2 ^ ((d : ℤ) - 1074)) := by
    rw [← hv]
    exact hround.nearest hw hlt.le (by omega) (hd.imp_left fun hz => by rw [hz]; rfl)
  rcases Nat.lt_or_ge (d * 2 ^ 52 + q) (2047 * 2 ^ 52) with hbits | hbits
  · have hmin : min (d * 2 ^ 52 + q) Binary64.infinityBits = d * 2 ^ 52 + q := Nat.min_eq_left hbits.le
    obtain ⟨n, t, hunpack, hc, hvalue⟩ := unpack_bits negative hq hdq hbits
    have hto := roundsTo_ofMantissa (signOf negative) hc (by rwa [hvalue])
    rw [← hunpack] at hto
    rw [hmin]
    exact hto.pack
  · have hmin : min (d * 2 ^ 52 + q) Binary64.infinityBits = Binary64.infinityBits := Nat.min_eq_right hbits
    rw [hmin]
    refine .overflow (isFinite_ofMagnitude_infinityBits negative) (hnearest.signed _) ?_
    rw [abs_signed _ (mul_nonneg (Nat.cast_nonneg q) hpos.le)]
    exact not_le.1 fun hle => absurd (bits_lt hdq hq hle) hbits.not_gt

/-- **`nearest` is the rounded quotient.** -/
theorem result_nearest (negative : Bool) (num : ℕ) {den : ℕ} (hden : 0 < den) :
    Result (signed (signOf negative) (num / den)) (Binary64.nearest negative num den) := by
  by_cases hnum : num = 0
  · rw [Binary64.nearest, if_pos hnum]
    rw [hnum, Nat.cast_zero, zero_div]
    exact result_ofMagnitude negative (d := 0) (q := 0) le_rfl (by exact_mod_cast HalfEven.intCast 0) (by norm_num)
      (Or.inl rfl) (zero_mul _)
  · have hnumpos : 0 < num := Nat.pos_of_ne_zero hnum
    obtain ⟨hlow, hhigh⟩ := quotient_bounds hnumpos hden
    have hvpos : (0 : ℚ) < num / den := div_pos (Nat.cast_pos.2 hnumpos) (Nat.cast_pos.2 hden)
    obtain ⟨hfull, hlt⟩ := mantissa_bounds (g := (num.log2 : ℤ) - den.log2 - 52) (by convert hlow using 2; ring)
      (by convert hhigh using 2; ring) (scale_eq num hden)
    generalize he : max (scale num den) (-1074) = e
    obtain ⟨d, hd⟩ : ∃ d : ℕ, e = (d : ℤ) - 1074 := ⟨(e + 1074).toNat, by omega⟩
    have hscaled := scaled_quotient num den e
    have hround := halfEven_roundQuotient (scaled num den e).1 (scaled_pos num hden e)
    rw [hscaled] at hround
    have hmagnitude := result_ofMagnitude negative (v := num / den) (d := d)
      (div_nonneg hvpos.le (two_zpow_pos e).le) hround ?_ ?_ ?_
    · rw [nearest_of_ne_zero negative hnum]
      simp only [he, show (e + 1074).toNat = d by omega, Nat.shiftLeft_eq]
      exact hmagnitude
    · refine lt_of_le_of_lt (div_le_div_of_nonneg_left hvpos.le (two_zpow_pos _) ?_) hlt
      exact zpow_le_zpow_right₀ (by norm_num) (by omega)
    · rcases le_or_gt (scale num den) (-1074) with hmin | hmin
      · exact Or.inl (by omega)
      · rw [← he, max_eq_left hmin.le]
        exact Or.inr hfull
    · rw [← hd]
      exact div_mul_cancel₀ _ (two_zpow_pos e).ne'

/-! ## Ratios and integers -/

theorem signed_abs {q : ℚ} {negative : Bool} (h : q ≠ 0 → (negative = true ↔ q < 0)) :
    signed (signOf negative) |q| = q := by
  rcases lt_trichotomy q 0 with hneg | rfl | hpos
  · rw [(h hneg.ne).2 hneg, abs_of_neg hneg]
    exact neg_neg q
  · rw [abs_zero]
    cases negative
    · rfl
    · exact neg_zero
  · rw [Bool.eq_false_iff.2 (mt (h hpos.ne').1 hpos.not_gt), abs_of_pos hpos]
    rfl

theorem result_ofRatio (num : ℤ) {den : ℕ} (hden : 0 < den) :
    Result (num / den) (Scalar.ofRatio num den : Float) := by
  have hdpos : (0 : ℚ) < den := Nat.cast_pos.2 hden
  have habs : ((num.natAbs : ℕ) : ℚ) / den = |(num : ℚ) / den| := by
    rw [Nat.cast_natAbs, Int.cast_abs, abs_div, abs_of_pos hdpos]
  have hround := result_nearest (decide (num < 0)) num.natAbs hden
  have hsign : decide (num < 0) = true ↔ (num : ℚ) / den < 0 := by
    rw [decide_eq_true_iff, div_lt_iff₀ hdpos, zero_mul]
    exact_mod_cast Iff.rfl
  rwa [habs, signed_abs fun _ => hsign] at hround

theorem rounds_ofRatio (num : ℤ) {den : ℕ} (hden : 0 < den) (h : |(num : ℚ) / den| ≤ greatest) :
    Rounds (num / den) (Scalar.ofRatio num den : Float) := (result_ofRatio num hden).rounds h

/-- **An integer becomes the rounded integer.** -/
theorem result_ofInt (n : ℤ) : Result n (Scalar.ofInt n) := by
  have h := result_ofRatio n Nat.one_pos
  rwa [Nat.cast_one, div_one] at h

theorem Rounds.value_eq {v : ℚ} {x : Float} (h : Rounds v x) (hv : Representable v) : value x = v :=
  le_antisymm ((h.faithful v hv).1 le_rfl) ((h.faithful v hv).2 le_rfl)

theorem representable_intCast {n : ℤ} (hn : |n| ≤ 2 ^ 53) : Representable n :=
  ⟨n, 0, hn, by decide, by rw [zpow_zero, mul_one]⟩

theorem intCast_le_greatest {n : ℤ} (hn : |n| ≤ 2 ^ 53) : |(n : ℚ)| ≤ greatest := calc
  |(n : ℚ)| ≤ 2 ^ 53 := by exact_mod_cast hn
  _ ≤ (2 ^ 53 - 1) * 2 ^ (1 : ℤ) := by norm_num
  _ ≤ greatest := mul_le_mul_of_nonneg_left (zpow_le_zpow_right₀ (by norm_num) (by decide)) (by norm_num)

/-- **Integers of up to 53 bits become themselves.** -/
theorem value_ofInt {n : ℤ} (hn : |n| ≤ 2 ^ 53) :
    (Scalar.ofInt n : Float).isFinite = true ∧ value (Scalar.ofInt n) = n := by
  have hround := (result_ofInt n).rounds (intCast_le_greatest hn)
  exact ⟨hround.isFinite, hround.value_eq (representable_intCast hn)⟩

/-! ## Reading the bits -/

theorem isFinite_unpack_eq_false {b : BitVec Format.binary64.numBits} (h : b.toNat / 2 ^ 52 % 2048 = 2047) :
    (UnpackedFloat.unpack Format.binary64 b).isFinite = false := by
  have hexponent : unpackExponent b = -1#11 := BitVec.eq_of_toNat_eq ((toNat_unpackExponent b).trans h)
  unfold UnpackedFloat.unpack
  simp only [hexponent, if_true]
  split <;> rfl

/-- **The bits of a finite double are read as its value.** -/
theorem exists_ofFloat_eq {x : Float} (hx : x.isFinite = true) : ∃ negative m e,
    Binary64.ofFloat x = .finite negative m e ∧ value x = signed (signOf negative) (m * 2 ^ e) := by
  have hfield : x.toBits.toNat / 2 ^ 52 % 2048 ≠ 2047 := fun h => by
    have hnot : x.isFinite = false := isFinite_unpack_eq_false h
    rw [hx] at hnot
    cases hnot
  have hunpack : x.toModel.unpack = _ := unpack_eq_ofMantissa rfl hfield
  have hvalue : value x = _ := (congrArg exact hunpack).trans (exact_ofMantissa _ _ _)
  rw [show x.toModel.toBits.toBitVec.toNat = x.toBits.toNat from rfl] at hvalue
  have hshift : (x.toBits.toNat >>> 52) % 2048 = x.toBits.toNat / 2 ^ 52 % 2048 := by rw [Nat.shiftRight_eq_div_pow]
  unfold Binary64.ofFloat
  simp only [hshift, if_neg hfield]
  by_cases hzero : x.toBits.toNat / 2 ^ 52 % 2048 = 0
  · rw [if_pos hzero]
    rw [if_pos hzero, if_pos hzero] at hvalue
    exact ⟨_, _, _, rfl, hvalue⟩
  · rw [if_neg hzero]
    rw [if_neg hzero, if_neg hzero] at hvalue
    exact ⟨_, _, _, rfl, hvalue⟩

/-! ## Integer parts -/

theorem quotient_eq (m : ℕ) (e : ℤ) : 0 < (Binary64.quotient m e).2 ∧
    ((Binary64.quotient m e).1 : ℚ) / (Binary64.quotient m e).2 = m * 2 ^ e := by
  unfold Binary64.quotient
  split
  · obtain ⟨k, rfl⟩ : ∃ k : ℕ, e = k := ⟨e.toNat, by omega⟩
    rw [Int.toNat_natCast, Nat.shiftLeft_eq, zpow_natCast]
    exact ⟨Nat.one_pos, by push_cast; rw [div_one]⟩
  · obtain ⟨k, rfl⟩ : ∃ k : ℕ, e = -k := ⟨(-e).toNat, by omega⟩
    rw [show (- -(k : ℤ)).toNat = k by omega, Nat.shiftLeft_eq, Nat.one_mul, zpow_neg, zpow_natCast]
    exact ⟨Nat.two_pow_pos k, by push_cast; rfl⟩

/-- **The integer part of a double is that of its value.** -/
theorem floor?_eq {x : Float} (hx : x.isFinite = true) : Scalar.floor? x = some ⌊value x⌋ := by
  obtain ⟨negative, m, e, hfloat, hvalue⟩ := exists_ofFloat_eq hx
  obtain ⟨hpos, hquotient⟩ := quotient_eq m e
  show (Binary64.ofFloat x).floor? = _
  rw [hfloat, hvalue, ← hquotient]
  have hfloor : ∀ n : ℤ,
      n.fdiv ((Binary64.quotient m e).2 : ℤ) = ⌊(n : ℚ) / (Binary64.quotient m e).2⌋ := fun n => by
    rw [Int.fdiv_eq_ediv_of_nonneg _ (Int.natCast_nonneg _), Rat.floor_intCast_div_natCast]
  refine congrArg some ((hfloor _).trans ?_)
  cases negative
  · rfl
  · show ⌊((-((Binary64.quotient m e).1 : ℤ) : ℤ) : ℚ) / (Binary64.quotient m e).2⌋ = ⌊-(_ / _)⌋
    rw [Int.cast_neg, Int.cast_natCast, neg_div]

theorem value_floor {x : Float} (hx : x.isFinite = true) (h : |⌊value x⌋| ≤ 2 ^ 53) :
    (Scalar.floor x).isFinite = true ∧ value (Scalar.floor x) = ⌊value x⌋ := by
  have hfloor : (Binary64.ofFloat x).floor? = some ⌊value x⌋ := floor?_eq hx
  generalize ⌊value x⌋ = n at h hfloor
  have hn : ((n.natAbs : ℕ) : ℚ) = |(n : ℚ)| := by rw [Nat.cast_natAbs, Int.cast_abs]
  have hround : ∀ negative,
      Rounds (signed (signOf negative) |(n : ℚ)|) (Binary64.nearest negative n.natAbs 1) := fun b => by
    have hresult := result_nearest b n.natAbs Nat.one_pos
    rw [hn, Nat.cast_one, div_one] at hresult
    exact hresult.rounds (by rw [abs_signed _ (abs_nonneg _)]; exact intCast_le_greatest h)
  have hresult : Scalar.floor x =
      Binary64.nearest (if n = 0 then (Binary64.ofFloat x).isNegative else decide (n < 0)) n.natAbs 1 := by
    show integral Binary64.floor? x = _
    unfold integral
    simp only [hfloor]
  have hsigned : signed (signOf (if n = 0 then (Binary64.ofFloat x).isNegative else decide (n < 0))) |(n : ℚ)| = n :=
    signed_abs fun hne => by
      rw [if_neg (by exact_mod_cast hne), decide_eq_true_iff]
      exact_mod_cast Iff.rfl
  have hrounds := hround (if n = 0 then (Binary64.ofFloat x).isNegative else decide (n < 0))
  rw [hsigned, ← hresult] at hrounds
  exact ⟨hrounds.isFinite, hrounds.value_eq (representable_intCast h)⟩

end Double
end Heightfield
