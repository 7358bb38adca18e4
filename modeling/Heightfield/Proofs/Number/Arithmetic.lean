import Heightfield.Proofs.Number.Rounding
/-!
# Sums, products and quotients of doubles

An operation on doubles gives the exact result, rounded, unless that is above the greatest double (`result_add` and its
companions).  So as long as the exact result is not above the greatest double, the result on doubles is finite, and a
faithful rounding of it (`rounds_add` and its companions).
-/
namespace Heightfield
namespace Double

open Float.Model (UnpackedFloat Format totalExponent)
open Float.Model.UnpackedFloat (Sign Accuracy roundWithAccuracy divCore accuracyOfFraction)

/-! ## Signs -/

theorem signed_neg (s : Sign) (q : ℚ) : signed (-s) q = -signed s q := by
  cases s
  · exact (neg_neg q).symm
  · rfl

theorem signed_mul (s t : Sign) (p q : ℚ) : signed (s * t) (p * q) = signed s p * signed t q := by
  cases s <;> cases t
  · exact (neg_mul_neg p q).symm
  · exact (neg_mul p q).symm
  · exact (mul_neg p q).symm
  · rfl

theorem signed_div (s t : Sign) (p q : ℚ) : signed (s / t) (p / q) = signed s p / signed t q := by
  cases s <;> cases t
  · exact (neg_div_neg_eq p q).symm
  · exact (neg_div q p).symm
  · exact (div_neg p).symm
  · rfl

theorem abs_signed (s : Sign) {q : ℚ} (hq : 0 ≤ q) : |signed s q| = q := by
  cases s
  · exact (abs_neg q).trans (abs_of_nonneg hq)
  · exact abs_of_nonneg hq

theorem cast_apply (s : Sign) (n : ℤ) : ((s.apply n : ℤ) : ℚ) = signed s n := by
  cases s
  · exact Int.cast_neg n
  · rfl

theorem Nearest.signed {v r : ℚ} (h : Nearest v r) (s : Sign) : Nearest (signed s v) (signed s r) := by
  cases s
  · exact h.neg
  · exact h

/-! ## Results that are finite -/

/-- The greatest double. -/
def greatest : ℚ := (2 ^ 53 - 1) * 2 ^ (971 : ℤ)

theorem representable_greatest : Representable greatest :=
  ⟨2 ^ 53 - 1, 971, by decide, by decide, by rw [greatest, Int.cast_sub, Int.cast_pow, Int.cast_ofNat, Int.cast_one]⟩

theorem greatest_lt : greatest < 2 ^ 52 * 2 ^ (972 : ℤ) := calc
  greatest < 2 ^ 53 * 2 ^ (971 : ℤ) := mul_lt_mul_of_pos_right (by norm_num) (two_zpow_pos _)
  _ = 2 ^ 52 * 2 ^ (972 : ℤ) := by
    rw [show (972 : ℤ) = 971 + 1 from rfl, zpow_add_one₀ (by norm_num), pow_succ, mul_right_comm, ← mul_assoc]

/-- A full mantissa is above the greatest double if its exponent is. -/
theorem greatest_lt_mantissa {n : ℕ} (hn : 2 ^ 52 ≤ n) {t : ℤ} (ht : 972 ≤ t) : greatest < n * 2 ^ t := calc
  greatest < 2 ^ 52 * 2 ^ (972 : ℤ) := greatest_lt
  _ ≤ 2 ^ 52 * 2 ^ t := mul_le_mul_of_nonneg_left (zpow_le_zpow_right₀ (by norm_num) ht) (by norm_num)
  _ ≤ n * 2 ^ t := mul_le_mul_of_nonneg_right (by exact_mod_cast hn) (two_zpow_pos t).le

/-- The double is finite and next to the number. -/
structure Rounds (v : ℚ) (x : Float) : Prop where
  isFinite : x.isFinite = true
  faithful : Faithful v (value x)

/-- The double is the rounded number, or not finite because that is above the greatest double. -/
inductive Result (v : ℚ) (x : Float) : Prop
  | finite (h : x.isFinite = true) (hr : Nearest v (value x))
  | overflow {r : ℚ} (h : x.isFinite = false) (hr : Nearest v r) (hlt : greatest < |r|)

theorem Result.nearest {v : ℚ} {x : Float} (h : Result v x) (hx : x.isFinite = true) : Nearest v (value x) := by
  cases h with
  | finite _ hr => exact hr
  | overflow hnot => rw [hx] at hnot; cases hnot

theorem Result.faithful {v : ℚ} {x : Float} (h : Result v x) (hx : x.isFinite = true) : Faithful v (value x) :=
  (h.nearest hx).faithful

theorem Result.rounds {v : ℚ} {x : Float} (h : Result v x) (hv : |v| ≤ greatest) : Rounds v x := by
  cases h with
  | finite h hr => exact ⟨h, hr.faithful⟩
  | overflow h hr hlt => exact absurd (hr.faithful.bounded representable_greatest hv) hlt.not_ge

/-- Zero, or with a mantissa and an exponent that a double has, were there no greatest one. -/
inductive Unlimited : UnpackedFloat → Prop
  | zero (s : Sign) : Unlimited (.zero s)
  | finite {s : Sign} {m : ℕ} {e : ℤ} (h : 0 < m) (hc : Canonical m e) : Unlimited (.finite s m e h)

/-- What is to be packed is the rounded number. -/
structure RoundsTo (v : ℚ) (u : UnpackedFloat) : Prop where
  unlimited : Unlimited u
  nearest : Nearest v (exact u)

/-- An exponent that is too great is packed as an infinity. -/
theorem isFinite_pack_eq_false {s : Sign} {m : ℕ} {e : ℤ} (h : 0 < m) (he : 972 ≤ e) :
    (Float.Model.pack (.finite s m e h)).unpack.isFinite = false := by
  have hbias : (e + (Format.binary64.exponentBias : ℤ) + (52 : ℕ)).toNat = (e + 1075).toNat := by
    rw [add_assoc]
    rfl
  have hpack : UnpackedFloat.pack Format.binary64 (.finite s m e h) =
      UnpackedFloat.packedInfinity Format.binary64 s := by
    rw [UnpackedFloat.pack]
    simp only [hbias]
    exact if_pos (show 2 ^ 11 ≤ (e + 1075).toNat + 1 by omega)
  show (UnpackedFloat.unpack Format.binary64 (UnpackedFloat.pack Format.binary64 (.finite s m e h))).isFinite = false
  rw [hpack]
  cases s <;> rfl

/-- **A rounded number is packed as a result.** -/
theorem RoundsTo.pack {v : ℚ} {u : UnpackedFloat} (h : RoundsTo v u) : Result v ⟨Float.Model.pack u⟩ := by
  have hproper : Proper u → Result v ⟨Float.Model.pack u⟩ := fun hu => by
    have hunpack := unpack_pack hu
    refine .finite ?_ ?_
    · show (Float.Model.pack u).unpack.isFinite = true
      rw [hunpack]
      exact hu.isFinite
    · show Nearest v (exact (Float.Model.pack u).unpack)
      rw [hunpack]
      exact h.nearest
  obtain ⟨hu, hnearest⟩ := h
  cases hu with
  | zero s => exact hproper (.zero s)
  | @finite s m e hm hc =>
    rcases le_or_gt e 971 with he | he
    · exact hproper (.finite hm hc he)
    · refine .overflow (isFinite_pack_eq_false hm he) hnearest ?_
      rw [show exact (.finite s m e hm) = signed s (m * 2 ^ e) from rfl, abs_signed s (mantissa_pos hm e).le]
      exact greatest_lt_mantissa (hc.full.resolve_left (by omega)) he

theorem Proper.unlimited {u : UnpackedFloat} (h : Proper u) : Unlimited u := by
  cases h with
  | zero s => exact .zero s
  | finite hm hc he => exact .finite hm hc

/-- What has at most 53 bits is not rounded. -/
theorem nearest_mantissa {m : ℕ} {e : ℤ} (h : Canonical m e) : Nearest (m * 2 ^ e) (m * 2 ^ e) := by
  have hround : HalfEven m m := by exact_mod_cast HalfEven.intCast m
  exact hround.nearest (Nat.cast_nonneg m) (by exact_mod_cast h.lt.le) h.le
    (h.full.imp_right fun hfull => by exact_mod_cast hfull)

theorem nearest_zero : Nearest 0 0 := by
  have h := nearest_mantissa (m := 0) (e := -1074) ⟨by decide, le_rfl, Or.inl rfl⟩
  rwa [Nat.cast_zero, zero_mul] at h

theorem RoundsTo.zero (s : Sign) : RoundsTo 0 (.zero s) := ⟨.zero s, nearest_zero⟩

theorem RoundsTo.self {u : UnpackedFloat} (h : Proper u) : RoundsTo (exact u) u := by
  refine ⟨h.unlimited, ?_⟩
  cases h with
  | zero s => exact nearest_zero
  | @finite s m e hm hc he => exact (nearest_mantissa hc).signed s

theorem roundsTo_ofMantissa (s : Sign) {n : ℕ} {t : ℤ} {q : ℚ} (hc : Canonical n t) (hq : Nearest q (n * 2 ^ t)) :
    RoundsTo (signed s q) (ofMantissa s n t) := by
  refine ⟨?_, by rw [exact_ofMantissa]; exact hq.signed s⟩
  unfold ofMantissa
  split
  · exact .zero s
  · exact .finite _ hc

theorem roundsTo_roundWithAccuracy (s : Sign) {m : ℕ} {e : ℤ} {acc : Accuracy} {w : ℚ} (h : Locates w m acc)
    (he : e ≤ Format.binary64.targetExponent (totalExponent m e)) :
    RoundsTo (signed s (w * 2 ^ e)) (roundWithAccuracy Format.binary64 s m e acc) := by
  obtain ⟨n, t, hround, hc, hnearest⟩ := exists_roundWithAccuracy s h he
  rw [hround]
  exact roundsTo_ofMantissa s hc hnearest

theorem log2_shiftLeft {m : ℕ} (hm : m ≠ 0) : ∀ k, (m <<< k).log2 = m.log2 + k
  | 0 => rfl
  | k + 1 => by
    have hne : m <<< k ≠ 0 := by
      rw [Nat.shiftLeft_eq]
      exact Nat.mul_ne_zero hm (Nat.two_pow_pos k).ne'
    rw [Nat.shiftLeft_succ, Nat.log2_two_mul hne, log2_shiftLeft hm k]
    rfl

theorem roundsTo_round (s : Sign) {m : ℕ} (hm : 0 < m) (e : ℤ) :
    RoundsTo (signed s (m * 2 ^ e)) (UnpackedFloat.round Format.binary64 s m e) := by
  generalize hk : (e - Format.binary64.targetExponent (totalExponent m e)).toNat = k
  have htotal : totalExponent (m <<< k) (e - k) = totalExponent m e := by
    rw [totalExponent, totalExponent, log2_shiftLeft hm.ne']
    push_cast
    ring
  have hvalue : ((m <<< k : ℕ) : ℚ) * 2 ^ (e - k) = m * 2 ^ e := by
    rw [Nat.shiftLeft_eq, zpow_sub₀ (by norm_num), zpow_natCast]
    push_cast
    field_simp
  have hround : UnpackedFloat.round Format.binary64 s m e =
      roundWithAccuracy Format.binary64 s (m <<< k) (e - k) .exact := by
    rw [UnpackedFloat.round, UnpackedFloat.decreaseExponent, hk]
  rw [hround, ← hvalue]
  refine roundsTo_roundWithAccuracy s (show Locates _ _ .exact from rfl) ?_
  rw [htotal]
  omega

theorem roundsTo_normalize (n : ℤ) (e : ℤ) (z : Sign) :
    RoundsTo (n * 2 ^ e) (UnpackedFloat.normalize Format.binary64 n e z) := by
  rcases lt_trichotomy n 0 with hn | rfl | hn
  · have hcast : (((-n).toNat : ℕ) : ℚ) = -n := by
      rw [← Int.cast_natCast, Int.toNat_of_nonneg (by omega), Int.cast_neg]
    have h := roundsTo_round .negative (m := (-n).toNat) (by omega) e
    have hvalue : signed .negative (-(n : ℚ) * 2 ^ e) = n * 2 ^ e := by
      show -(-(n : ℚ) * 2 ^ e) = _
      ring
    rw [hcast, hvalue] at h
    rw [UnpackedFloat.normalize, compare_lt_iff_lt.2 hn]
    exact h
  · rw [Int.cast_zero, zero_mul]
    exact .zero z
  · have hcast : ((n.toNat : ℕ) : ℚ) = n := by
      rw [← Int.cast_natCast, Int.toNat_of_nonneg hn.le]
    have h := roundsTo_round .positive (m := n.toNat) (by omega) e
    rw [hcast] at h
    rw [UnpackedFloat.normalize, compare_gt_iff_gt.2 hn]
    exact h

/-! ## Sums and differences -/

theorem Proper.neg {u : UnpackedFloat} (h : Proper u) : Proper u.neg := by
  cases h with
  | zero s => exact .zero (-s)
  | finite hm hc he => exact .finite hm hc he

theorem exact_neg (u : UnpackedFloat) : exact u.neg = -exact u := by
  cases u with
  | finite s m e hm => exact signed_neg s _
  | _ => exact neg_zero.symm

/-- A signed mantissa at a smaller exponent. -/
theorem apply_shiftLeft (s : Sign) (m : ℕ) {e t : ℤ} (ht : t ≤ e) :
    ((s.apply ((m <<< (e - t).toNat : ℕ) : ℤ) : ℤ) : ℚ) * 2 ^ t = signed s (m * 2 ^ e) := by
  obtain ⟨k, rfl⟩ : ∃ k : ℕ, e = t + k := ⟨(e - t).toNat, by omega⟩
  have hk : (t + (k : ℤ) - t).toNat = k := by omega
  have hvalue : (((m <<< k : ℕ) : ℤ) : ℚ) * 2 ^ t = m * 2 ^ (t + (k : ℤ)) := by
    rw [Int.cast_natCast, Nat.shiftLeft_eq, zpow_add₀ (by norm_num), zpow_natCast]
    push_cast
    ring
  rw [hk, cast_apply, ← hvalue]
  cases s
  · exact neg_mul _ _
  · rfl

theorem roundsTo_add {a b : UnpackedFloat} (ha : Proper a) (hb : Proper b) :
    RoundsTo (exact a + exact b) (UnpackedFloat.add Format.binary64 a b) := by
  cases ha with
  | zero s =>
    rw [show exact (.zero s) = 0 from rfl, zero_add]
    cases hb with
    | zero t => cases s <;> cases t <;> exact .zero _
    | finite hn hc' hf => exact .self (.finite hn hc' hf)
  | @finite s m e hm hc he =>
    cases hb with
    | zero t =>
      rw [show exact (.zero t) = 0 from rfl, add_zero]
      exact .self (.finite hm hc he)
    | @finite t n f hn hc' hf =>
      have hsum : exact (.finite s m e hm) + exact (.finite t n f hn) =
          ((s.apply ((m <<< (e - min e f).toNat : ℕ) : ℤ) + t.apply ((n <<< (f - min e f).toNat : ℕ) : ℤ) : ℤ) : ℚ) *
            2 ^ min e f := by
        rw [Int.cast_add, add_mul, apply_shiftLeft s m (min_le_left e f), apply_shiftLeft t n (min_le_right e f)]
        rfl
      rw [hsum]
      exact roundsTo_normalize _ _ .positive

theorem sub_eq_add {a b : UnpackedFloat} (ha : Proper a) (hb : Proper b) :
    UnpackedFloat.sub Format.binary64 a b = UnpackedFloat.add Format.binary64 a b.neg := by
  cases ha with
  | zero s =>
    cases hb with
    | zero t => cases s <;> cases t <;> rfl
    | finite => rfl
  | finite =>
    cases hb with
    | zero t => rfl
    | @finite t n f hn hc' hf =>
      have happly : ∀ i : ℤ, (-t).apply i = -t.apply i := fun i => by
        cases t
        · exact (Int.neg_neg i).symm
        · rfl
      rw [UnpackedFloat.sub, UnpackedFloat.neg, UnpackedFloat.add]
      simp only [happly, ← Int.sub_eq_add_neg]

/-! ## Products and quotients -/

theorem roundsTo_mul {a b : UnpackedFloat} (ha : Proper a) (hb : Proper b) :
    RoundsTo (exact a * exact b) (UnpackedFloat.mul Format.binary64 a b) := by
  cases ha with
  | zero s =>
    rw [show exact (.zero s) = 0 from rfl, zero_mul]
    cases hb with
    | zero t => exact .zero _
    | finite => exact .zero _
  | @finite s m e hm hc he =>
    cases hb with
    | zero t =>
      rw [show exact (.zero t) = 0 from rfl, mul_zero]
      exact .zero _
    | @finite t n f hn hc' hf =>
      have hproduct : exact (.finite s m e hm) * exact (.finite t n f hn) =
          signed (s * t) (((m * n : ℕ) : ℚ) * 2 ^ (e + f)) := by
        have hsplit : ((m * n : ℕ) : ℚ) * 2 ^ (e + f) = m * 2 ^ e * (n * 2 ^ f) := by
          rw [zpow_add₀ (by norm_num)]
          push_cast
          ring
        rw [hsplit, signed_mul]
        rfl
      rw [hproduct]
      refine roundsTo_roundWithAccuracy (s * t) (show Locates _ _ .exact from rfl) ?_
      -- two mantissas that are short have the least exponent
      have hbits : e = -1074 ∧ f = -1074 ∨ 52 ≤ (m * n).log2 := by
        have hlog : 2 ^ 52 ≤ m * n → 52 ≤ (m * n).log2 := fun hle => (Nat.le_log2 (Nat.mul_pos hm hn).ne').2 hle
        rcases hc.full with he' | hm'
        · rcases hc'.full with hf' | hn'
          · exact Or.inl ⟨he', hf'⟩
          · exact Or.inr (hlog (hn'.trans (Nat.le_mul_of_pos_left n hm)))
        · exact Or.inr (hlog (hm'.trans (Nat.le_mul_of_pos_right m hn)))
      rw [targetExponent_eq, totalExponent]
      omega

/-- The quotient of mantissas is taken with enough bits. -/
theorem le_targetExponent_div {m n k : ℕ} {e f t : ℤ} (hm : 0 < m) (hn : 0 < n) (hk : e - f = t + k)
    (ht : t ≤ Format.binary64.targetExponent (totalExponent m e - totalExponent n f)) :
    t ≤ Format.binary64.targetExponent (totalExponent (m <<< k / n) t) := by
  rw [targetExponent_eq, totalExponent, totalExponent] at ht
  rw [targetExponent_eq, totalExponent]
  by_cases hleast : t ≤ -1074
  · omega
  · have hbits : n.log2 + 53 ≤ m.log2 + k := by omega
    have hquotient : 2 ^ 52 ≤ m <<< k / n := by
      rw [Nat.le_div_iff_mul_le hn, Nat.shiftLeft_eq]
      calc 2 ^ 52 * n ≤ 2 ^ 52 * 2 ^ (n.log2 + 1) := Nat.mul_le_mul_left _ Nat.lt_log2_self.le
        _ = 2 ^ (n.log2 + 53) := by rw [← Nat.pow_add]; congr 1; omega
        _ ≤ 2 ^ (m.log2 + k) := Nat.pow_le_pow_right (by decide) hbits
        _ = 2 ^ m.log2 * 2 ^ k := Nat.pow_add 2 _ _
        _ ≤ m * 2 ^ k := Nat.mul_le_mul_right _ (Nat.log2_self_le hm.ne')
    have hlog : 52 ≤ (m <<< k / n).log2 := (Nat.le_log2 (by omega)).2 hquotient
    omega

/-- **Integer division gives the integer part of a quotient, and the remainder its accuracy.** -/
theorem locates_div (p : ℕ) {n : ℕ} (hn : 0 < n) : Locates ((p : ℚ) / n) (p / n) (accuracyOfFraction (p % n) n) := by
  have hnpos : (0 : ℚ) < n := Nat.cast_pos.2 hn
  have hsplit : (p : ℚ) / n = (p / n : ℕ) + (p % n : ℕ) / n := by
    rw [eq_comm, ← mul_div_cancel_left₀ ((p / n : ℕ) : ℚ) hnpos.ne', ← add_div]
    congr 1
    exact_mod_cast Nat.div_add_mod p n
  have hlt : ((p % n : ℕ) : ℚ) / n < 1 := (div_lt_one hnpos).2 (by exact_mod_cast Nat.mod_lt p hn)
  rw [hsplit, accuracyOfFraction]
  generalize p % n = r at hlt
  by_cases hzero : r = 0
  · rw [if_pos hzero, hzero, Nat.cast_zero, zero_div, add_zero]
    exact rfl
  · have hpos : (0 : ℚ) < r / n := div_pos (Nat.cast_pos.2 (Nat.pos_of_ne_zero hzero)) hnpos
    have hhalf : (r : ℚ) / n = 1 / 2 ↔ 2 * r = n := by
      rw [div_eq_div_iff hnpos.ne' two_ne_zero, one_mul, mul_comm]
      exact_mod_cast Iff.rfl
    have hless : (r : ℚ) / n < 1 / 2 ↔ 2 * r < n := by
      rw [div_lt_div_iff₀ hnpos two_pos, one_mul, mul_comm]
      exact_mod_cast Iff.rfl
    rw [if_neg hzero]
    rcases lt_trichotomy (2 * r) n with hcase | hcase | hcase
    · rw [compare_lt_iff_lt.2 hcase]
      exact ⟨lt_add_of_pos_right _ hpos, add_lt_add_right (hless.2 hcase) _⟩
    · rw [compare_eq_iff_eq.2 hcase]
      exact congrArg _ (hhalf.2 hcase)
    · rw [compare_gt_iff_gt.2 hcase]
      have hmore : (1 : ℚ) / 2 < r / n :=
        lt_of_le_of_ne (not_lt.1 (mt hless.1 hcase.not_gt)) fun h => hcase.ne' (hhalf.1 h.symm)
      exact ⟨add_lt_add_right hmore _, add_lt_add_right hlt _⟩

/-- A quotient of finite numbers, with a dividend at a smaller exponent. -/
theorem shiftLeft_div (m : ℕ) {n : ℕ} {e f g : ℤ} {k : ℕ} (hk : e - f = g + k) :
    ((m <<< k : ℕ) : ℚ) / n * 2 ^ g = m * 2 ^ e / (n * 2 ^ f) := by
  have he : (2 : ℚ) ^ e = 2 ^ g * 2 ^ k * 2 ^ f := by
    rw [← zpow_natCast, ← zpow_add₀ (by norm_num), ← zpow_add₀ (by norm_num)]
    congr 1
    omega
  have hf := two_zpow_pos f
  rw [Nat.shiftLeft_eq, he]
  push_cast
  field_simp

theorem roundsTo_div {a b : UnpackedFloat} (ha : Proper a) (hb : Proper b) (hne : exact b ≠ 0) :
    RoundsTo (exact a / exact b) (UnpackedFloat.div Format.binary64 a b) := by
  cases hb with
  | zero t => exact absurd rfl hne
  | @finite t n f hn hc' hf =>
    cases ha with
    | zero s =>
      rw [show exact (.zero s) = 0 from rfl, zero_div]
      exact .zero _
    | @finite s m e hm hc he =>
      generalize hg : min (e - f) (Format.binary64.targetExponent (totalExponent m e - totalExponent n f)) = g
      obtain ⟨k, hk⟩ : ∃ k : ℕ, e - f = g + k := ⟨(e - f - g).toNat, by omega⟩
      have htoNat : (e - f - g).toNat = k := by omega
      have hquotient : exact (.finite s m e hm) / exact (.finite t n f hn) =
          signed (s / t) (((m <<< k : ℕ) : ℚ) / n * 2 ^ g) := by
        rw [shiftLeft_div m hk, signed_div]
        rfl
      have hdiv : UnpackedFloat.div Format.binary64 (.finite s m e hm) (.finite t n f hn) =
          roundWithAccuracy Format.binary64 (s / t) (m <<< k / n) g (accuracyOfFraction (m <<< k % n) n) := by
        rw [UnpackedFloat.div, divCore]
        simp only [hg, htoNat]
      rw [hquotient, hdiv]
      exact roundsTo_roundWithAccuracy (s / t) (locates_div (m <<< k) hn) (le_targetExponent_div hm hn hk (by omega))

/-! ## On doubles -/

section
variable {x y : Float}

theorem value_neg (hx : x.isFinite = true) : (-x).isFinite = true ∧ value (-x) = -value x := by
  have hproper := (proper_of_isFinite hx).neg
  have hunpack := unpack_pack hproper
  constructor
  · show (Float.Model.pack x.toModel.unpack.neg).unpack.isFinite = true
    rw [hunpack]
    exact hproper.isFinite
  · show exact (Float.Model.pack x.toModel.unpack.neg).unpack = _
    rw [hunpack, exact_neg]
    rfl

/-- **A sum of doubles is the rounded sum.** -/
theorem result_add (hx : x.isFinite = true) (hy : y.isFinite = true) : Result (value x + value y) (x + y) :=
  (roundsTo_add (proper_of_isFinite hx) (proper_of_isFinite hy)).pack

theorem result_sub (hx : x.isFinite = true) (hy : y.isFinite = true) : Result (value x - value y) (x - y) := by
  have hsub : x - y = ⟨Float.Model.pack (UnpackedFloat.add Format.binary64 x.toModel.unpack y.toModel.unpack.neg)⟩ := by
    rw [← sub_eq_add (proper_of_isFinite hx) (proper_of_isFinite hy)]
    rfl
  have hvalue : value x - value y = exact x.toModel.unpack + exact y.toModel.unpack.neg := by
    rw [exact_neg, ← sub_eq_add_neg]
    rfl
  rw [hvalue, hsub]
  exact (roundsTo_add (proper_of_isFinite hx) (proper_of_isFinite hy).neg).pack

/-- **A product of doubles is the rounded product.** -/
theorem result_mul (hx : x.isFinite = true) (hy : y.isFinite = true) : Result (value x * value y) (x * y) :=
  (roundsTo_mul (proper_of_isFinite hx) (proper_of_isFinite hy)).pack

/-- **A quotient of doubles is the rounded quotient**, if the divisor is not zero. -/
theorem result_div (hx : x.isFinite = true) (hy : y.isFinite = true) (hne : value y ≠ 0) :
    Result (value x / value y) (x / y) :=
  (roundsTo_div (proper_of_isFinite hx) (proper_of_isFinite hy) hne).pack

theorem rounds_add (hx : x.isFinite = true) (hy : y.isFinite = true) (h : |value x + value y| ≤ greatest) :
    Rounds (value x + value y) (x + y) := (result_add hx hy).rounds h

theorem rounds_sub (hx : x.isFinite = true) (hy : y.isFinite = true) (h : |value x - value y| ≤ greatest) :
    Rounds (value x - value y) (x - y) := (result_sub hx hy).rounds h

theorem rounds_mul (hx : x.isFinite = true) (hy : y.isFinite = true) (h : |value x * value y| ≤ greatest) :
    Rounds (value x * value y) (x * y) := (result_mul hx hy).rounds h

theorem rounds_div (hx : x.isFinite = true) (hy : y.isFinite = true) (hne : value y ≠ 0)
    (h : |value x / value y| ≤ greatest) : Rounds (value x / value y) (x / y) := (result_div hx hy hne).rounds h

end

end Double
end Heightfield
