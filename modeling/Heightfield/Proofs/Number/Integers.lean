import Heightfield.Proofs.Number.Monotone
/-!
# Integers among the doubles

A double is told to be an integer exactly if its value is one (`toInt?_eq_some_iff`), however large it is.  What divides
such an integer is one too (`representable_of_dvd`), though sums and multiples need not be.
-/
namespace Heightfield

namespace Double

variable {x : Float} {a : ℤ} {m n d : ℕ}

/-- The double is the integer. -/
structure IsInt (x : Float) (a : ℤ) : Prop where
  isFinite : x.isFinite = true
  value_eq : value x = a

theorem exists_mul_two_pow (h : Representable m) : ∃ j k : ℕ, j ≤ 2 ^ 53 ∧ m = j * 2 ^ k := by
  obtain ⟨j, k, hj, hk, hvalue⟩ := h
  have hpos := two_zpow_pos k
  have hjpos : (0 : ℚ) ≤ j := nonneg_of_mul_nonneg_left (by rw [← hvalue]; exact Nat.cast_nonneg m) hpos
  obtain ⟨j, rfl⟩ := Int.eq_ofNat_of_zero_le (show 0 ≤ j by exact_mod_cast hjpos)
  rw [Nat.abs_cast] at hj
  rcases le_or_gt 0 k with hk' | hk'
  · obtain ⟨k, rfl⟩ := Int.eq_ofNat_of_zero_le hk'
    exact ⟨j, k, by exact_mod_cast hj, by exact_mod_cast hvalue⟩
  · refine ⟨m, 0, ?_, by rw [pow_zero, mul_one]⟩
    have hle : (m : ℚ) ≤ j := by
      rw [hvalue, Int.cast_natCast]
      exact mul_le_of_le_one_right (Nat.cast_nonneg j) (zpow_le_one_of_nonpos₀ (by norm_num) hk'.le)
    exact (Nat.cast_le.1 hle).trans (by exact_mod_cast hj)

theorem representable_of_dvd (h : Representable m) (hne : m ≠ 0) (hd : d ∣ m) : Representable d := by
  obtain ⟨j, k, hj, rfl⟩ := exists_mul_two_pow h
  obtain ⟨u, w, hu, hw, rfl⟩ := exists_dvd_and_dvd_of_dvd_mul hd
  obtain ⟨i, -, rfl⟩ := (Nat.dvd_prime_pow Nat.prime_two).1 hw
  have hle : u ≤ j := Nat.le_of_dvd (Nat.pos_of_ne_zero (left_ne_zero_of_mul hne)) hu
  exact ⟨u, i, by rw [Nat.abs_cast]; exact_mod_cast hle.trans hj, by omega, by push_cast; rfl⟩

/-- There is a gap between the doubles above `2 ^ 63`. -/
theorem le_of_two_pow_lt (h : Representable m) (hlt : 2 ^ 63 < m) : 2 ^ 63 + 2 ^ 11 ≤ m := by
  obtain ⟨j, k, hj, rfl⟩ := exists_mul_two_pow h
  have hk : 10 < k := not_le.1 fun hk => hlt.not_ge <|
    (Nat.mul_le_mul hj (Nat.pow_le_pow_right (by decide) hk)).trans (by decide)
  have hunit : 2 ^ 11 ∣ j * 2 ^ k := Dvd.dvd.mul_left (pow_dvd_pow 2 hk) j
  omega

theorem isInt_ofInt (h : Representable a) (hle : |(a : ℚ)| ≤ greatest) : IsInt (Scalar.ofInt a) a := by
  have hrounds := (result_ofInt a).rounds hle
  exact ⟨hrounds.isFinite, hrounds.value_eq h⟩

theorem IsInt.representable (h : IsInt x a) : Representable a.natAbs := by
  have hvalue := representable_value h.isFinite
  rw [h.value_eq] at hvalue
  rw [Nat.cast_natAbs, Int.cast_abs]
  rcases abs_choice (a : ℚ) with habs | habs
  · rwa [habs]
  · rw [habs]
    exact hvalue.neg

theorem IsInt.le (h : IsInt x a) : (a.natAbs : ℚ) ≤ greatest := by
  rw [Nat.cast_natAbs, Int.cast_abs, ← h.value_eq]
  exact abs_value_le_greatest h.isFinite

/-! ## Telling integers -/

theorem isInt_floor (hx : x.isFinite = true) : IsInt (Scalar.ofInt ⌊value x⌋) ⌊value x⌋ := by
  obtain ⟨j, k, hj, hk, hvalue⟩ := representable_value hx
  rcases le_or_gt 0 k with hpos | hneg
  · obtain ⟨k, rfl⟩ := Int.eq_ofNat_of_zero_le hpos
    have hint : value x = (j * 2 ^ k : ℤ) := by rw [hvalue]; push_cast; rfl
    have hfloor : ((⌊value x⌋ : ℤ) : ℚ) = value x := by rw [hint, Int.floor_intCast]
    refine isInt_ofInt ?_ ?_
    · rw [hfloor]
      exact representable_value hx
    · rw [hfloor]
      exact abs_value_le_greatest hx
  · have hle : |value x| ≤ 2 ^ 53 := by
      rw [hvalue, abs_mul, abs_of_pos (two_zpow_pos k)]
      calc |(j : ℚ)| * 2 ^ k ≤ |(j : ℚ)| :=
            mul_le_of_le_one_right (abs_nonneg _) (zpow_le_one_of_nonpos₀ (by norm_num) hneg.le)
        _ ≤ 2 ^ 53 := by exact_mod_cast hj
    obtain ⟨hlow, hhigh⟩ := abs_le.1 hle
    have hfloor : |⌊value x⌋| ≤ 2 ^ 53 := by
      refine abs_le.2 ⟨Int.le_floor.2 (by push_cast; exact hlow), ?_⟩
      exact_mod_cast (Int.floor_le (value x)).trans hhigh
    exact isInt_ofInt (representable_intCast hfloor) (intCast_le_greatest hfloor)

theorem floor?_eq_none (hx : x.isFinite = false) : Scalar.floor? x = none := by
  have hfield : x.toBits.toNat / 2 ^ 52 % 2048 = 2047 := by
    by_contra hne
    have hunpack : x.toModel.unpack = _ := unpack_eq_ofMantissa rfl hne
    have hfinite : x.toModel.unpack.isFinite = true := by rw [hunpack, isFinite_ofMantissa]
    rw [show x.toModel.unpack.isFinite = false from hx] at hfinite
    cases hfinite
  have hshift : (x.toBits.toNat >>> 52) % 2048 = 2047 := by rw [Nat.shiftRight_eq_div_pow, hfield]
  show (Binary64.ofFloat x).floor? = none
  unfold Binary64.ofFloat
  simp only [hshift, if_true]
  split <;> rfl

/-- **A double is told to be an integer exactly if it is one.** -/
theorem toInt?_eq_some_iff : Scalar.toInt? x = some a ↔ IsInt x a := by
  cases hx : x.isFinite with
  | true =>
    have hfloor := isInt_floor hx
    have hle : Scalar.le x (Scalar.ofInt ⌊value x⌋) = true ↔ value x ≤ ⌊value x⌋ := by
      rw [le_iff hx hfloor.isFinite, hfloor.value_eq]
    rw [Scalar.toInt?, floor?_eq hx, Option.bind_some]
    constructor
    · intro h
      split at h
      · rename_i hcase
        obtain rfl := Option.some_inj.1 h
        exact ⟨hx, le_antisymm (hle.1 hcase) (Int.floor_le _)⟩
      · cases h
    · rintro ⟨-, hvalue⟩
      have ha : ⌊value x⌋ = a := by rw [hvalue, Int.floor_intCast]
      rw [if_pos (hle.2 (by rw [ha, hvalue])), ha]
  | false =>
    rw [Scalar.toInt?, floor?_eq_none hx]
    exact ⟨nofun, fun h => by rw [h.isFinite] at hx; cases hx⟩

end Double
end Heightfield
