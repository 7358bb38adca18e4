import Heightfield.Proofs.Number.Nearest
/-!
# Bounds of doubles

A bound that a double can be carries over from exact results to rounded ones (`Rounds.bounded`), so doubles can be
computed with as if they were exact, as far as bounds go.
-/
namespace Heightfield
namespace Double

/-- The double is finite, and its magnitude is at most the bound. -/
structure Bounded (b : ℚ) (x : Float) : Prop where
  isFinite : x.isFinite = true
  abs_value_le : |value x| ≤ b

/-- A bound that a double can be. -/
structure Bound (b : ℚ) : Prop where
  representable : Representable b
  le : b ≤ greatest

theorem Rounds.bounded {v b : ℚ} {x : Float} (h : Rounds v x) (hb : Representable b) (hv : |v| ≤ b) : Bounded b x :=
  ⟨h.isFinite, h.faithful.bounded hb hv⟩

theorem abs_value_le_greatest {x : Float} (hx : x.isFinite = true) : |value x| ≤ greatest := by
  have hproper := proper_of_isFinite hx
  unfold value
  generalize x.toModel.unpack = u at hproper
  cases hproper with
  | zero s =>
    show |(0 : ℚ)| ≤ greatest
    rw [abs_zero]
    exact mul_nonneg (by norm_num) (two_zpow_pos _).le
  | @finite s m e hm hc he =>
    have hlt := hc.lt
    have hmantissa : (m : ℚ) ≤ 2 ^ 53 - 1 := by
      have hle : (m : ℚ) + 1 ≤ 2 ^ 53 := by exact_mod_cast hlt
      linarith
    rw [show exact (.finite s m e hm) = signed s (m * 2 ^ e) from rfl, abs_signed s (mantissa_pos hm e).le]
    exact mul_le_mul hmantissa (zpow_le_zpow_right₀ (by norm_num) he) (two_zpow_pos e).le (by norm_num)

theorem bound_mul {m : ℕ} {k : ℤ} (hm : m ≤ 2 ^ 53) (hk : -1074 ≤ k) (h : (m : ℚ) * 2 ^ k ≤ greatest) :
    Bound (m * 2 ^ k) :=
  ⟨⟨m, k, by rw [Nat.abs_cast]; exact_mod_cast hm, hk, by push_cast; rfl⟩, h⟩

theorem bound_natCast {m : ℕ} (hm : m ≤ 2 ^ 53) : Bound m := by
  have h : |(m : ℤ)| ≤ 2 ^ 53 := by rw [Nat.abs_cast]; exact_mod_cast hm
  have hrep := representable_intCast h
  have hle := intCast_le_greatest h
  rw [Int.cast_natCast] at hrep hle
  exact ⟨hrep, (le_abs_self _).trans hle⟩

namespace Bounded

variable {b c d : ℚ} {x y : Float}

theorem mono (h : Bounded b x) (hle : b ≤ c) : Bounded c x := ⟨h.isFinite, h.abs_value_le.trans hle⟩

theorem nonneg (h : Bounded b x) : 0 ≤ b := (abs_nonneg _).trans h.abs_value_le

theorem neg (h : Bounded b x) : Bounded b (-x) := by
  obtain ⟨hfinite, hvalue⟩ := value_neg h.isFinite
  exact ⟨hfinite, by rw [hvalue, abs_neg]; exact h.abs_value_le⟩

theorem add (hx : Bounded b x) (hy : Bounded c y) (hd : Bound d) (hle : b + c ≤ d) : Bounded d (x + y) := by
  have h : |value x + value y| ≤ d := (abs_add_le _ _).trans ((add_le_add hx.abs_value_le hy.abs_value_le).trans hle)
  exact (rounds_add hx.isFinite hy.isFinite (h.trans hd.le)).bounded hd.representable h

theorem sub (hx : Bounded b x) (hy : Bounded c y) (hd : Bound d) (hle : b + c ≤ d) : Bounded d (x - y) := by
  have h : |value x - value y| ≤ d := (abs_sub _ _).trans ((add_le_add hx.abs_value_le hy.abs_value_le).trans hle)
  exact (rounds_sub hx.isFinite hy.isFinite (h.trans hd.le)).bounded hd.representable h

theorem mul (hx : Bounded b x) (hy : Bounded c y) (hd : Bound d) (hle : b * c ≤ d) : Bounded d (x * y) := by
  have h : |value x * value y| ≤ d := by
    rw [abs_mul]
    exact (mul_le_mul hx.abs_value_le hy.abs_value_le (abs_nonneg _) hx.nonneg).trans hle
  exact (rounds_mul hx.isFinite hy.isFinite (h.trans hd.le)).bounded hd.representable h

/-- The divisor is at least `c`. -/
theorem div (hx : Bounded b x) (hy : y.isFinite = true) (hc : 0 < c) (hyc : c ≤ |value y|) (hd : Bound d)
    (hle : b ≤ d * c) : Bounded d (x / y) := by
  have hpos : 0 < |value y| := hc.trans_le hyc
  have hdpos : 0 ≤ d := nonneg_of_mul_nonneg_left (hx.nonneg.trans hle) hc
  have h : |value x / value y| ≤ d := by
    rw [abs_div, div_le_iff₀ hpos]
    exact hx.abs_value_le.trans (hle.trans (mul_le_mul_of_nonneg_left hyc hdpos))
  exact (rounds_div hx.isFinite hy (abs_pos.1 hpos) (h.trans hd.le)).bounded hd.representable h

theorem ofInt {n : ℤ} (hn : |n| ≤ 2 ^ 53) : Bounded |(n : ℚ)| (Scalar.ofInt n) := by
  obtain ⟨hfinite, hvalue⟩ := value_ofInt hn
  exact ⟨hfinite, by rw [hvalue]⟩

theorem ofRatio {n : ℤ} {m : ℕ} (hm : 0 < m) (hd : Bound d) (hle : |(n : ℚ) / m| ≤ d) :
    Bounded d (Scalar.ofRatio n m) :=
  (rounds_ofRatio n hm (hle.trans hd.le)).bounded hd.representable hle

theorem floor {n : ℕ} (hx : Bounded n x) (hn : n ≤ 2 ^ 53) : Bounded n (Scalar.floor x) := by
  obtain ⟨hlow, hhigh⟩ := abs_le.1 hx.abs_value_le
  have hfloor : |⌊value x⌋| ≤ (n : ℤ) := by
    refine abs_le.2 ⟨Int.le_floor.2 (by push_cast; exact hlow), ?_⟩
    exact_mod_cast (Int.floor_le (value x)).trans hhigh
  obtain ⟨hfinite, hvalue⟩ := value_floor hx.isFinite (hfloor.trans (by exact_mod_cast hn))
  exact ⟨hfinite, by rw [hvalue]; exact_mod_cast hfloor⟩

end Bounded

end Double
end Heightfield
