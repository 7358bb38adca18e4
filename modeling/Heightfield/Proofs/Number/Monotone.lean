import Heightfield.Proofs.Number.Bounded
/-!
# Operations in order

Rounding keeps the order of exact results, but for those that are too large to be finite.  So if a greater result is
finite, so is a less one between it and a bound (`Between`), and adding, multiplying and dividing keep that.  What is
finite was computed from finite doubles (`isFinite_of_add` and its companions), but for a quotient whose divisor is not.
-/
namespace Heightfield
namespace Double

open Float.Model (UnpackedFloat Format)
open Float.Model.UnpackedFloat (Sign)

variable {x y : Float}

/-! ## Operands of finite results -/

theorem isFinite_of_pack {u : UnpackedFloat} (h : (Float.Model.pack u).unpack.isFinite = true) : u.isFinite = true := by
  cases u with
  | notANumber => cases h
  | infinity s => cases s <;> cases h
  | zero s => rfl
  | finite => rfl

theorem isFinite_of_add (h : (x + y).isFinite = true) : x.isFinite = true ∧ y.isFinite = true := by
  have hsum : (UnpackedFloat.add Format.binary64 x.toModel.unpack y.toModel.unpack).isFinite = true := isFinite_of_pack h
  show x.toModel.unpack.isFinite = true ∧ y.toModel.unpack.isFinite = true
  generalize x.toModel.unpack = a at hsum
  generalize y.toModel.unpack = b at hsum
  cases a with
  | notANumber => cases hsum
  | infinity s => cases b with
    | infinity t => cases s <;> cases t <;> cases hsum
    | _ => cases hsum
  | zero s => cases b with
    | notANumber | infinity => cases hsum
    | _ => exact ⟨rfl, rfl⟩
  | finite => cases b with
    | notANumber | infinity => cases hsum
    | _ => exact ⟨rfl, rfl⟩

theorem isFinite_of_mul (h : (x * y).isFinite = true) : x.isFinite = true ∧ y.isFinite = true := by
  have hproduct : (UnpackedFloat.mul Format.binary64 x.toModel.unpack y.toModel.unpack).isFinite = true :=
    isFinite_of_pack h
  show x.toModel.unpack.isFinite = true ∧ y.toModel.unpack.isFinite = true
  generalize x.toModel.unpack = a at hproduct
  generalize y.toModel.unpack = b at hproduct
  cases a with
  | notANumber => cases hproduct
  | infinity s => cases b <;> cases hproduct
  | zero s => cases b with
    | notANumber | infinity => cases hproduct
    | _ => exact ⟨rfl, rfl⟩
  | finite => cases b with
    | notANumber | infinity => cases hproduct
    | _ => exact ⟨rfl, rfl⟩

theorem isFinite_of_div (h : (x / y).isFinite = true) :
    x.isFinite = true ∧ (y.isFinite = true → value y ≠ 0) := by
  have hquotient : (UnpackedFloat.div Format.binary64 x.toModel.unpack y.toModel.unpack).isFinite = true :=
    isFinite_of_pack h
  refine ⟨?_, fun hy => ?_⟩
  · show x.toModel.unpack.isFinite = true
    generalize x.toModel.unpack = a at hquotient
    generalize y.toModel.unpack = b at hquotient
    cases a with
    | notANumber => cases hquotient
    | infinity s => cases b <;> cases hquotient
    | _ => rfl
  · have hproper := proper_of_isFinite hy
    show exact y.toModel.unpack ≠ 0
    generalize x.toModel.unpack = a at hquotient
    generalize y.toModel.unpack = b at hquotient hproper
    cases hproper with
    | zero t => cases a <;> cases hquotient
    | @finite t m e hm hc he =>
      intro hzero
      have habs := abs_signed t (mantissa_pos hm e).le
      rw [show signed t (m * 2 ^ e) = 0 from hzero, abs_zero] at habs
      exact (mantissa_pos hm e).ne habs

theorem value_eq_zero (hx : x.isFinite = false) : value x = 0 := by
  have hx : x.toModel.unpack.isFinite = false := hx
  unfold value
  generalize x.toModel.unpack = a at hx
  cases a with
  | finite => cases hx
  | _ => rfl

theorem div_of_not_finite (hx : x.isFinite = true) (hy : y.isFinite = false) :
    (x / y).isFinite = !y.isNaN ∧ value (x / y) = 0 := by
  have hx : x.toModel.unpack.isFinite = true := hx
  have hy : y.toModel.unpack.isFinite = false := hy
  show (Float.Model.pack (UnpackedFloat.div Format.binary64 x.toModel.unpack y.toModel.unpack)).unpack.isFinite =
      !y.toModel.unpack.isNaN ∧
    exact (Float.Model.pack (UnpackedFloat.div Format.binary64 x.toModel.unpack y.toModel.unpack)).unpack = 0
  generalize x.toModel.unpack = a at hx
  generalize y.toModel.unpack = b at hy
  cases b with
  | notANumber =>
    have hnan : UnpackedFloat.div Format.binary64 a .notANumber = .notANumber := by cases a <;> rfl
    rw [hnan]
    exact ⟨rfl, rfl⟩
  | infinity t =>
    obtain ⟨s, hzero⟩ : ∃ s, UnpackedFloat.div Format.binary64 a (.infinity t) = .zero s := by
      cases a with
      | notANumber | infinity => cases hx
      | zero s | finite s => exact ⟨s / t, rfl⟩
    rw [hzero, unpack_pack (.zero s)]
    exact ⟨rfl, rfl⟩
  | _ => cases hy

/-! ## Results -/

theorem representable_value (hx : x.isFinite = true) : Representable (value x) := by
  have hproper := proper_of_isFinite hx
  unfold value
  generalize x.toModel.unpack = u at hproper
  cases hproper with
  | zero s => exact ⟨0, 0, by decide, by decide, by rw [Int.cast_zero, zero_mul]; rfl⟩
  | @finite s m e hm hc he =>
    have hpositive : Representable (m * 2 ^ e) :=
      ⟨m, e, by rw [Nat.abs_cast]; exact_mod_cast hc.lt.le, hc.le, by rw [Int.cast_natCast]⟩
    cases s
    · exact hpositive.neg
    · exact hpositive

/-- A finite double is a multiple of the least one. -/
theorem exists_value_eq (hx : x.isFinite = true) : ∃ j : ℤ, value x = j * 2 ^ (-1074 : ℤ) := by
  obtain ⟨j, k, -, hk, hvalue⟩ := representable_value hx
  obtain ⟨d, rfl⟩ : ∃ d : ℕ, k = d + -1074 := ⟨(k + 1074).toNat, by omega⟩
  refine ⟨j * 2 ^ d, ?_⟩
  rw [hvalue, zpow_add₀ (by norm_num), zpow_natCast, Int.cast_mul, Int.cast_pow, Int.cast_ofNat, mul_assoc]

theorem greatest_nonneg : 0 ≤ greatest := mul_nonneg (by norm_num) (two_zpow_pos _).le

theorem Result.value_eq {v : ℚ} (h : Result v x) (hx : x.isFinite = true) (hv : Representable v) : value x = v :=
  Rounds.value_eq ⟨hx, h.faithful hx⟩ hv

/-! ## Results in order -/

/-- If the second double is finite, so is the first one, and it lies between the bound and the second one. -/
def Between (b : ℚ) (x y : Float) : Prop :=
  y.isFinite = true → x.isFinite = true ∧ b ≤ value x ∧ value x ≤ value y

/-- **Results keep the order of what is rounded.** -/
theorem Result.between {v w b : ℚ} (h : Result v x) (h' : Result w y) (hb : Representable b) (hleast : -greatest ≤ b)
    (hbv : b ≤ v) (hvw : v ≤ w) : Between b x y := fun hy => by
  have hnearest := h'.nearest hy
  cases h with
  | finite hx hr => exact ⟨hx, (hr.faithful b hb).2 hbv, hr.mono hnearest hvw⟩
  | overflow hx hr hlt =>
    have hlow := hleast.trans ((hr.faithful b hb).2 hbv)
    have hhigh := (hr.mono hnearest hvw).trans ((le_abs_self _).trans (abs_value_le_greatest hy))
    exact absurd (abs_le.2 ⟨hlow, hhigh⟩) hlt.not_ge

namespace Between

variable {s : Float}

theorem add (h : Between 0 x y) : Between (value s) (x + s) (y + s) := fun hsum => by
  obtain ⟨hy, hs⟩ := isFinite_of_add hsum
  obtain ⟨hx, hpos, hle⟩ := h hy
  exact (result_add hx hs).between (result_add hy hs) (representable_value hs) (abs_le.1 (abs_value_le_greatest hs)).1
    (le_add_of_nonneg_left hpos) (add_le_add_left hle _) hsum

theorem mul (h : Between 0 x y) (hs : 0 ≤ value s) : Between 0 (x * s) (y * s) := fun hproduct => by
  obtain ⟨hy, hfinite⟩ := isFinite_of_mul hproduct
  obtain ⟨hx, hpos, hle⟩ := h hy
  exact (result_mul hx hfinite).between (result_mul hy hfinite) representable_zero (neg_nonpos.2 greatest_nonneg)
    (mul_nonneg hpos hs) (mul_le_mul_of_nonneg_right hle hs) hproduct

theorem div (h : Between 0 x y) (hs : 0 ≤ value s) : Between 0 (x / s) (y / s) := fun hquotient => by
  obtain ⟨hy, hne⟩ := isFinite_of_div hquotient
  obtain ⟨hx, hpos, hle⟩ := h hy
  cases hfinite : s.isFinite with
  | true =>
    have hne := hne hfinite
    exact (result_div hx hfinite hne).between (result_div hy hfinite hne) representable_zero
      (neg_nonpos.2 greatest_nonneg) (div_nonneg hpos hs) (div_le_div_of_nonneg_right hle hs) hquotient
  | false =>
    obtain ⟨hxs, hxzero⟩ := div_of_not_finite hx hfinite
    obtain ⟨hys, hyzero⟩ := div_of_not_finite hy hfinite
    rw [hxs, ← hys, hxzero, hyzero]
    exact ⟨hquotient, le_rfl, le_rfl⟩

theorem ofNat {i j : ℕ} (h : i ≤ j) : Between 0 (Scalar.ofNat i) (Scalar.ofNat j) :=
  (result_ofInt i).between (result_ofInt j) representable_zero (neg_nonpos.2 greatest_nonneg)
    (by exact_mod_cast Nat.zero_le i) (by exact_mod_cast h)

end Between

theorem between_self : Between 0 x x ↔ 0 ≤ value x := by
  refine ⟨fun h => ?_, fun h hx => ⟨hx, h, le_rfl⟩⟩
  cases hfinite : x.isFinite with
  | true => exact (h hfinite).2.1
  | false => exact (value_eq_zero hfinite).ge

theorem value_sub_nonneg (hx : x.isFinite = true) (hy : y.isFinite = true) (h : value y ≤ value x) :
    0 ≤ value (x - y) := by
  cases hfinite : (x - y).isFinite with
  | true => exact ((result_sub hx hy).faithful hfinite 0 representable_zero).2 (sub_nonneg.2 h)
  | false => exact (value_eq_zero hfinite).ge

theorem value_div_nonneg (hx : 0 ≤ value x) (hy : 0 ≤ value y) : 0 ≤ value (x / y) :=
  between_self.1 ((between_self.2 hx).div hy)

theorem value_ofNat_nonneg (n : ℕ) : 0 ≤ value (Scalar.ofNat n) := between_self.1 (.ofNat le_rfl)

/-! ## Zeros -/

theorem value_zero_mul (hx : value x = 0) (h : (x * y).isFinite = true) : value (x * y) = 0 := by
  obtain ⟨hfinite, hy⟩ := isFinite_of_mul h
  have hresult := result_mul hfinite hy
  rw [hx, zero_mul] at hresult
  exact hresult.value_eq h representable_zero

theorem value_zero_div (hx : value x = 0) (h : (x / y).isFinite = true) : value (x / y) = 0 := by
  obtain ⟨hfinite, hne⟩ := isFinite_of_div h
  cases hy : y.isFinite with
  | true =>
    have hresult := result_div hfinite hy (hne hy)
    rw [hx, zero_div] at hresult
    exact hresult.value_eq h representable_zero
  | false => exact (div_of_not_finite hfinite hy).2

theorem isZero_iff (hx : x.isFinite = true) : Scalar.isZero x = true ↔ value x = 0 := by
  obtain ⟨hzero, hvalue⟩ := value_ofInt (n := 0) (by decide)
  rw [Int.cast_zero] at hvalue
  rw [Scalar.isZero, Bool.and_eq_true, le_iff hx hzero, le_iff hzero hx, hvalue]
  exact antisymm_iff

end Double
end Heightfield
