import Heightfield.Proofs.Number.Monotone
import Heightfield.Proofs.Surface.Sampling
import Heightfield.Number.Double
/-!
# Samples between the ends of an axis

Rounding keeps the order of samples, so they stand between the ends as soon as the last but one does
(`Interval.spans_axisSamples_iff`).  It does if the way is finite and its steps are of full precision
(`Interval.spans_of_steady`): three roundings do not make up for the part of a step that is left before the end.  Two
ends may be too far from each other, though, for the way to be finite; and a step among the least doubles may be so much
too long that samples pass the end.
-/
namespace Heightfield

open Double (value Between Result Rounds Representable greatest two_zpow_pos)

/-! ## Samples in order -/

section
variable {start stop : Float}

theorem between_axisSample (hstart : start.isFinite = true) (hstop : stop.isFinite = true)
    (hle : value start ≤ value stop) (parts : ℕ) {j k : ℕ} (hjk : j ≤ k) :
    Between (value start) (axisSample start stop parts j) (axisSample start stop parts k) := by
  have hway : 0 ≤ value (stop - start) := Double.value_sub_nonneg hstop hstart hle
  have hparts : 0 ≤ value (Scalar.ofNat parts) := Double.value_ofNat_nonneg parts
  unfold axisSample
  dsimp only
  split
  · exact (((Between.ofNat hjk).div hparts).mul hway).add
  · exact ((Between.ofNat hjk).mul (Double.value_div_nonneg hway hparts)).add

theorem value_axisSample_zero {parts : ℕ} (h : (axisSample start stop parts 0).isFinite = true) :
    value (axisSample start stop parts 0) = value start := by
  have hzero : value (Scalar.ofNat 0) = 0 := (Double.value_ofInt (n := 0) (by decide)).2.trans Int.cast_zero
  have hadd : ∀ {x : Float}, ((x.isFinite = true) → value x = 0) → (x + start).isFinite = true →
      value (x + start) = value start := fun {x} hx hsum => by
    obtain ⟨hfinite, hstart⟩ := Double.isFinite_of_add hsum
    have hresult := Double.result_add hfinite hstart
    rw [hx hfinite, zero_add] at hresult
    exact hresult.value_eq hsum (Double.representable_value hstart)
  revert h
  unfold axisSample
  dsimp only
  split
  · refine hadd fun h => Double.value_zero_mul ?_ h
    exact Double.value_zero_div hzero (Double.isFinite_of_mul h).1
  · exact hadd fun h => Double.value_zero_mul hzero h

theorem axisSample_of_step_ne_zero {parts : ℕ} (hfinite : ((stop - start) / Scalar.ofNat parts).isFinite = true)
    (hne : value ((stop - start) / Scalar.ofNat parts) ≠ 0) (j : ℕ) :
    axisSample start stop parts j = Scalar.ofNat j * ((stop - start) / Scalar.ofNat parts) + start :=
  if_neg (mt (Double.isZero_iff hfinite).1 hne)

theorem axisSample_of_step_eq_zero {parts : ℕ} (hfinite : ((stop - start) / Scalar.ofNat parts).isFinite = true)
    (hzero : value ((stop - start) / Scalar.ofNat parts) = 0) (j : ℕ) :
    axisSample start stop parts j = Scalar.ofNat j / Scalar.ofNat parts * (stop - start) + start :=
  if_pos ((Double.isZero_iff hfinite).2 hzero)

/-- A finite sample was reached by a finite way. -/
theorem isFinite_way {parts k : ℕ} (h : (axisSample start stop parts k).isFinite = true) :
    (stop - start).isFinite = true := by
  revert h
  unfold axisSample
  dsimp only
  split
  · exact fun h => (Double.isFinite_of_mul (Double.isFinite_of_add h).1).2
  · exact fun h => (Double.isFinite_of_div (Double.isFinite_of_mul (Double.isFinite_of_add h).1).2).1

end

namespace Interval

variable {i : Interval Float} {n : ℕ}

theorem lower_le_upper (i : Interval Float) : value i.lower ≤ value i.upper :=
  not_lt.1 fun h => by
    have hlt := (Double.lt_iff i.upper_finite i.lower_finite).2 h
    rw [i.ordered] at hlt
    cases hlt

theorem value_way_nonneg (i : Interval Float) : 0 ≤ value (i.upper - i.lower) :=
  Double.value_sub_nonneg i.upper_finite i.lower_finite i.lower_le_upper

/-- The double is finite and not beyond an end. -/
structure Contains (i : Interval Float) (x : Float) : Prop where
  isFinite : x.isFinite = true
  lower_le : value i.lower ≤ value x
  le_upper : value x ≤ value i.upper

/-- As many doubles as asked for, in order, none beyond an end, from the lower end to the upper one. -/
structure Spans (i : Interval Float) (n : ℕ) (xs : List Float) : Prop where
  length_eq : xs.length = n
  contains : ∀ x ∈ xs, i.Contains x
  ordered : xs.Pairwise fun x y => value x ≤ value y
  first : xs.head?.map value = some (value i.lower)
  last : 2 ≤ n → xs.getLast? = some i.upper

theorem contains_lower (i : Interval Float) : i.Contains i.lower := ⟨i.lower_finite, le_rfl, i.lower_le_upper⟩

theorem contains_upper (i : Interval Float) : i.Contains i.upper := ⟨i.upper_finite, i.lower_le_upper, le_rfl⟩

theorem spans_singleton (i : Interval Float) : i.Spans 1 [i.lower] where
  length_eq := rfl
  contains x hx := List.mem_singleton.1 hx ▸ i.contains_lower
  ordered := List.pairwise_singleton _ _
  first := rfl
  last h := absurd h (by decide)

theorem axisSamples_add_two (start stop : Float) (k : ℕ) :
    axisSamples start stop (k + 2) = (List.range (k + 1)).map (axisSample start stop (k + 1)) ++ [stop] :=
  if_neg (by omega)

/-- **Samples stand between the ends if the last but one does.** -/
theorem spans_of_contains {k : ℕ} (h : i.Contains (axisSample i.lower i.upper (k + 1) k)) :
    i.Spans (k + 2) (axisSamples i.lower i.upper (k + 2)) := by
  have hbetween : ∀ {a b : ℕ}, a ≤ b → Between (value i.lower) (axisSample i.lower i.upper (k + 1) a)
      (axisSample i.lower i.upper (k + 1) b) := between_axisSample i.lower_finite i.upper_finite i.lower_le_upper _
  have hcontains : ∀ {a}, a ≤ k → i.Contains (axisSample i.lower i.upper (k + 1) a) := fun ha => by
    obtain ⟨hfinite, hlow, hle⟩ := hbetween ha h.isFinite
    exact ⟨hfinite, hlow, hle.trans h.le_upper⟩
  rw [axisSamples_add_two]
  refine ⟨by simp, fun x hx => ?_, ?_, ?_, fun _ => List.getLast?_concat⟩
  · rcases List.mem_append.1 hx with hx | hx
    · obtain ⟨a, ha, rfl⟩ := List.mem_map.1 hx
      exact hcontains (Nat.le_of_lt_succ (List.mem_range.1 ha))
    · exact List.mem_singleton.1 hx ▸ i.contains_upper
  · refine List.pairwise_append.2 ⟨?_, List.pairwise_singleton _ _, fun x hx y hy => ?_⟩
    · refine List.pairwise_map.2 ((List.pairwise_lt_range).imp_of_mem fun {a b} _ hb hab => ?_)
      exact (hbetween hab.le (hcontains (Nat.le_of_lt_succ (List.mem_range.1 hb))).isFinite).2.2
    · obtain ⟨a, ha, rfl⟩ := List.mem_map.1 hx
      exact List.mem_singleton.1 hy ▸ (hcontains (Nat.le_of_lt_succ (List.mem_range.1 ha))).le_upper
  · rw [List.range_succ_eq_map, List.map_cons, List.cons_append, List.head?_cons, Option.map_some,
      value_axisSample_zero (hcontains (Nat.zero_le k)).isFinite]

/-- **Samples span an interval** exactly if the last but one is in it. -/
theorem spans_axisSamples_iff (i : Interval Float) (hn : 1 ≤ n) : i.Spans n (axisSamples i.lower i.upper n) ↔
    (2 ≤ n → i.Contains (axisSample i.lower i.upper (n - 1) (n - 2))) := by
  rcases Nat.lt_or_ge n 2 with hlt | hge
  · obtain rfl : n = 1 := by omega
    exact ⟨fun _ h => absurd h (by decide), fun _ => i.spans_singleton⟩
  · obtain ⟨k, rfl⟩ : ∃ k, n = k + 2 := ⟨n - 2, by omega⟩
    refine ⟨fun h _ => h.contains _ ?_, fun h => spans_of_contains (h hge)⟩
    rw [axisSamples_add_two]
    exact List.mem_append_left _ (List.mem_map.2 ⟨k, List.mem_range.2 (Nat.lt_succ_self k), rfl⟩)

/-! ## Steps of full precision -/

/-- The way is finite, and its steps are zero or of full precision. -/
structure Steady (i : Interval Float) (n : ℕ) : Prop where
  few : n ≤ 2 ^ 51
  way : (i.upper - i.lower).isFinite = true
  step : value ((i.upper - i.lower) / Scalar.ofNat (n - 1)) = 0 ∨
    2 ^ (-1022 : ℤ) ≤ value ((i.upper - i.lower) / Scalar.ofNat (n - 1))

/-- A part of the exact way leads from the lower end to a double between the ends. -/
theorem contains_add {x : Float} (hx : x.isFinite = true) (hpos : 0 ≤ value x)
    (hle : value x ≤ value i.upper - value i.lower) : i.Contains (x + i.lower) := by
  have hlow : value i.lower ≤ value x + value i.lower := le_add_of_nonneg_left hpos
  have hhigh : value x + value i.lower ≤ value i.upper := by linarith
  have hleast := (abs_le.1 (Double.abs_value_le_greatest i.lower_finite)).1
  have hgreatest := (abs_le.1 (Double.abs_value_le_greatest i.upper_finite)).2
  have hrounds := Double.rounds_add hx i.lower_finite (abs_le.2 ⟨hleast.trans hlow, hhigh.trans hgreatest⟩)
  exact ⟨hrounds.isFinite, (hrounds.faithful _ (Double.representable_value i.lower_finite)).2 hlow,
    (hrounds.faithful _ (Double.representable_value i.upper_finite)).1 hhigh⟩

/-- All steps but one are less than the way from which the step was rounded. -/
theorem mul_step_le {k : ℕ} (hk : k + 1 ≤ 2 ^ 51) {way step : ℚ} (hpos : 0 ≤ step)
    (hstep : (step - step / 2 ^ 53) * (k + 1) ≤ way) : k * step ≤ way := by
  have hcast : (k : ℚ) + 1 ≤ 2 ^ 51 := by exact_mod_cast hk
  have hpart : step / 2 ^ 53 * (k + 1) ≤ step := calc
    step / 2 ^ 53 * (k + 1) ≤ step / 2 ^ 53 * 2 ^ 51 := mul_le_mul_of_nonneg_left hcast (by positivity)
    _ ≤ step := by linarith
  calc k * step ≤ (step - step / 2 ^ 53) * (k + 1) := by linarith
    _ ≤ way := hstep

/-- **Three roundings do not make up for a step**: the way, the step and all steps but one are rounded. -/
theorem le_of_rounded {k : ℕ} (hpos : 0 < k) (hk : k + 1 ≤ 2 ^ 51) {exact way step reached : ℚ} (hreached : 0 ≤ reached)
    (hway : way - way / 2 ^ 53 ≤ exact) (hstep : (step - step / 2 ^ 53) * (k + 1) ≤ way)
    (hproduct : reached - reached / 2 ^ 53 ≤ k * step) : reached ≤ exact := by
  have hcast : (k : ℚ) + 1 ≤ 2 ^ 51 := by exact_mod_cast hk
  have hkpos : (0 : ℚ) < k := Nat.cast_pos.2 hpos
  have hless : (k : ℚ) ≤ (1 - 1 / 2 ^ 53) ^ 3 * (k + 1) := by
    norm_num
    linarith
  refine le_of_mul_le_mul_left ?_ hkpos
  calc k * reached ≤ (1 - 1 / 2 ^ 53) ^ 3 * (k + 1) * reached := mul_le_mul_of_nonneg_right hless hreached
    _ = (1 - 1 / 2 ^ 53) ^ 2 * (k + 1) * (reached - reached / 2 ^ 53) := by ring
    _ ≤ (1 - 1 / 2 ^ 53) ^ 2 * (k + 1) * (k * step) := mul_le_mul_of_nonneg_left hproduct (by positivity)
    _ = (1 - 1 / 2 ^ 53) * k * ((step - step / 2 ^ 53) * (k + 1)) := by ring
    _ ≤ (1 - 1 / 2 ^ 53) * k * way :=
      mul_le_mul_of_nonneg_left hstep (mul_nonneg (by norm_num) hkpos.le)
    _ = k * (way - way / 2 ^ 53) := by ring
    _ ≤ k * exact := mul_le_mul_of_nonneg_left hway hkpos.le

section
variable {k : ℕ}

theorem value_ofNat_of_le (hk : k ≤ 2 ^ 51) :
    (Scalar.ofNat k : Float).isFinite = true ∧ value (Scalar.ofNat k) = k := by
  have h := Double.value_ofInt (n := k) (by rw [Nat.abs_cast]; exact_mod_cast hk.trans (by decide))
  rwa [Int.cast_natCast] at h

variable (hk : k + 1 ≤ 2 ^ 51) (hway : (i.upper - i.lower).isFinite = true)
include hk hway

theorem result_step : ((i.upper - i.lower) / Scalar.ofNat (k + 1)).isFinite = true ∧
    Result (value (i.upper - i.lower) / (k + 1)) ((i.upper - i.lower) / Scalar.ofNat (k + 1)) := by
  obtain ⟨hparts, hvalue⟩ := value_ofNat_of_le hk
  have hone : (1 : ℚ) ≤ k + 1 := le_add_of_nonneg_left (Nat.cast_nonneg k)
  rw [Nat.cast_add, Nat.cast_one] at hvalue
  rw [← hvalue] at hone ⊢
  have hresult := Double.result_div hway hparts (zero_lt_one.trans_le hone).ne'
  refine ⟨(hresult.rounds ?_).isFinite, hresult⟩
  rw [abs_div, abs_of_nonneg (zero_le_one.trans hone)]
  exact (div_le_self (abs_nonneg _) hone).trans (Double.abs_value_le_greatest hway)

/-- A step of full precision is not much longer than its part of the way. -/
theorem step_mul_parts_le (hnormal : 2 ^ (-1022 : ℤ) ≤ value ((i.upper - i.lower) / Scalar.ofNat (k + 1))) :
    (value ((i.upper - i.lower) / Scalar.ofNat (k + 1)) - value ((i.upper - i.lower) / Scalar.ofNat (k + 1)) / 2 ^ 53) *
      (k + 1) ≤ value (i.upper - i.lower) := by
  obtain ⟨hfinite, hresult⟩ := result_step hk hway
  have hparts : (0 : ℚ) < k + 1 := Nat.cast_add_one_pos k
  have herror := (hresult.nearest hfinite).abs_sub_le (div_nonneg i.value_way_nonneg hparts.le) hnormal
  rw [← le_div_iff₀ hparts]
  linarith [(abs_le.1 herror).1]

/-- Steps of full precision do not pass the end. -/
theorem contains_of_normal_step (hnormal : 2 ^ (-1022 : ℤ) ≤ value ((i.upper - i.lower) / Scalar.ofNat (k + 1))) :
    i.Contains (axisSample i.lower i.upper (k + 1) k) := by
  obtain ⟨hfinite, -⟩ := result_step hk hway
  have hstep := step_mul_parts_le hk hway hnormal
  have hsample := axisSample_of_step_ne_zero hfinite ((two_zpow_pos _).trans_le hnormal).ne' k
  generalize (i.upper - i.lower) / Scalar.ofNat (k + 1) = step at hfinite hnormal hstep hsample
  have hspos : 0 < value step := (two_zpow_pos _).trans_le hnormal
  have hpos : 0 ≤ (k : ℚ) * value step := mul_nonneg (Nat.cast_nonneg k) hspos.le
  have hle := mul_step_le hk hspos.le hstep
  obtain ⟨hkfinite, hkvalue⟩ := value_ofNat_of_le (Nat.le_of_succ_le hk)
  have hproduct := Double.result_mul hkfinite hfinite
  rw [hkvalue] at hproduct
  -- all steps but one are not longer than the way, so their product is finite
  have hreached := hproduct.rounds <| by
    rw [abs_of_nonneg hpos]
    exact hle.trans ((le_abs_self _).trans (Double.abs_value_le_greatest hway))
  have hreachedpos := (hreached.faithful 0 Double.representable_zero).2 hpos
  rw [hsample]
  refine contains_add hreached.isFinite hreachedpos ?_
  rcases Nat.eq_zero_or_pos k with rfl | hkpos
  · rw [Double.value_zero_mul (by rw [hkvalue, Nat.cast_zero]) hreached.isFinite]
    exact sub_nonneg.2 i.lower_le_upper
  · have hmore : value step ≤ k * value step := le_mul_of_one_le_left hspos.le (by exact_mod_cast hkpos)
    have hleast : Representable (2 ^ (-1022 : ℤ)) := ⟨1, -1022, by decide, by decide, by rw [Int.cast_one, one_mul]⟩
    have hproducterror := (hproduct.nearest hreached.isFinite).abs_sub_le hpos
      ((hreached.faithful _ hleast).2 (hnormal.trans hmore))
    have hwayerror := ((Double.result_sub i.upper_finite i.lower_finite).nearest hway).abs_sub_le
      (sub_nonneg.2 i.lower_le_upper) (hnormal.trans (hmore.trans hle))
    exact le_of_rounded hkpos hk hreachedpos (by linarith [(abs_le.1 hwayerror).1]) hstep
      (by linarith [(abs_le.1 hproducterror).1])

omit hk in
theorem value_way_of_lt (hlt : value (i.upper - i.lower) < 2 ^ 52 * 2 ^ (-1074 : ℤ)) :
    value (i.upper - i.lower) = value i.upper - value i.lower := by
  have hresult := Double.result_sub i.upper_finite i.lower_finite
  have hpos : (0 : ℚ) ≤ value i.upper - value i.lower := sub_nonneg.2 i.lower_le_upper
  have hunit := two_zpow_pos (-1074)
  have hshort : value i.upper - value i.lower < 2 ^ 52 * 2 ^ (-1074 : ℤ) := by
    refine not_le.1 fun hle => hlt.not_ge ((hresult.faithful hway _ ⟨2 ^ 52, -1074, by decide, le_rfl, ?_⟩).2 hle)
    rw [Int.cast_pow, Int.cast_ofNat]
  obtain ⟨a, ha⟩ := Double.exists_value_eq i.upper_finite
  obtain ⟨b, hb⟩ := Double.exists_value_eq i.lower_finite
  have hdifference : value i.upper - value i.lower = ((a - b : ℤ) : ℚ) * 2 ^ (-1074 : ℤ) := by
    rw [ha, hb, Int.cast_sub, sub_mul]
  refine hresult.value_eq hway ⟨a - b, -1074, ?_, le_rfl, hdifference⟩
  rw [hdifference] at hpos hshort
  have hlow : (0 : ℚ) ≤ (a - b : ℤ) := nonneg_of_mul_nonneg_left hpos hunit
  have hhigh : ((a - b : ℤ) : ℚ) < 2 ^ 52 := lt_of_mul_lt_mul_right hshort hunit.le
  have hlow' : 0 ≤ a - b := by exact_mod_cast hlow
  have hhigh' : a - b < 2 ^ 52 := by exact_mod_cast hhigh
  rw [abs_of_nonneg hlow']
  exact hhigh'.le.trans (by decide)

/-- A way whose steps are zero is short. -/
theorem value_way_of_zero_step (hzero : value ((i.upper - i.lower) / Scalar.ofNat (k + 1)) = 0) :
    value (i.upper - i.lower) = value i.upper - value i.lower := by
  obtain ⟨hfinite, hresult⟩ := result_step hk hway
  have hparts : (0 : ℚ) < k + 1 := Nat.cast_add_one_pos k
  have hleast : value (i.upper - i.lower) / (k + 1) < 2 ^ (-1074 : ℤ) := by
    refine not_le.1 fun hle => (two_zpow_pos (-1074)).not_ge ?_
    rw [← hzero]
    exact (hresult.faithful hfinite _ ⟨1, -1074, by decide, le_rfl, by rw [Int.cast_one, one_mul]⟩).2 hle
  have hcast : (k : ℚ) + 1 ≤ 2 ^ 52 := by exact_mod_cast hk.trans (by decide)
  rw [div_lt_iff₀ hparts, mul_comm] at hleast
  exact value_way_of_lt hway (hleast.trans_le (mul_le_mul_of_nonneg_right hcast (two_zpow_pos _).le))

omit hway in
/-- All parts but one are a share of at most one. -/
theorem share_le_one : (Scalar.ofNat k / Scalar.ofNat (k + 1) : Float).isFinite = true ∧
    0 ≤ value (Scalar.ofNat k / Scalar.ofNat (k + 1)) ∧ value (Scalar.ofNat k / Scalar.ofNat (k + 1)) ≤ 1 := by
  obtain ⟨hkfinite, hkvalue⟩ := value_ofNat_of_le (Nat.le_of_succ_le hk)
  obtain ⟨hpfinite, hpvalue⟩ := value_ofNat_of_le hk
  have hparts : (0 : ℚ) < k + 1 := Nat.cast_add_one_pos k
  have hresult := Double.result_div hkfinite hpfinite (by rw [hpvalue]; exact_mod_cast hparts.ne')
  rw [hkvalue, hpvalue, Nat.cast_add, Nat.cast_one] at hresult
  have hpos : (0 : ℚ) ≤ k / (k + 1) := div_nonneg (Nat.cast_nonneg k) hparts.le
  have hle : (k : ℚ) / (k + 1) ≤ 1 := (div_le_one hparts).2 (lt_add_one _).le
  have hone : Double.Bound 1 := by exact_mod_cast Double.bound_natCast (m := 1) (by decide)
  have hrounds := hresult.rounds (by rw [abs_of_nonneg hpos]; exact hle.trans hone.le)
  exact ⟨hrounds.isFinite, (hrounds.faithful 0 Double.representable_zero).2 hpos,
    (hrounds.faithful 1 hone.representable).1 hle⟩

/-- A way whose steps are zero is taken in proportion. -/
theorem contains_of_zero_step (hzero : value ((i.upper - i.lower) / Scalar.ofNat (k + 1)) = 0) :
    i.Contains (axisSample i.lower i.upper (k + 1) k) := by
  have hexact := value_way_of_zero_step hk hway hzero
  obtain ⟨hfinite, hshare, hone⟩ := share_le_one hk
  have hwaypos := i.value_way_nonneg
  rw [axisSample_of_step_eq_zero (result_step hk hway).1 hzero k]
  generalize (Scalar.ofNat k / Scalar.ofNat (k + 1) : Float) = share at hfinite hshare hone
  have hpos : 0 ≤ value share * value (i.upper - i.lower) := mul_nonneg hshare hwaypos
  have hle : value share * value (i.upper - i.lower) ≤ value (i.upper - i.lower) := mul_le_of_le_one_left hwaypos hone
  have hproduct := Double.rounds_mul hfinite hway <| by
    rw [abs_of_nonneg hpos]
    exact hle.trans ((le_abs_self _).trans (Double.abs_value_le_greatest hway))
  refine contains_add hproduct.isFinite ((hproduct.faithful 0 Double.representable_zero).2 hpos) ?_
  rw [← hexact]
  exact (hproduct.faithful _ (Double.representable_value hway)).1 hle

end

/-! ## Which samples span an interval -/

/-- **Steady samples span an interval.** -/
theorem spans_of_steady (hn : 1 ≤ n) (h : i.Steady n) : i.Spans n (axisSamples i.lower i.upper n) := by
  refine (spans_axisSamples_iff i hn).2 fun hn => ?_
  obtain ⟨k, rfl⟩ : ∃ k, n = k + 2 := ⟨n - 2, by omega⟩
  have hk : k + 1 ≤ 2 ^ 51 := Nat.le_of_succ_le h.few
  exact h.step.elim (contains_of_zero_step hk h.way) (contains_of_normal_step hk h.way)

/-- **Ends that are too far from each other are not spanned.** -/
theorem not_spans_of_overflow (hn : 2 ≤ n) (h : (i.upper - i.lower).isFinite = false) :
    ¬i.Spans n (axisSamples i.lower i.upper n) := fun hspans => by
  have hway := isFinite_way ((spans_axisSamples_iff i (Nat.le_of_succ_le hn)).1 hspans hn).isFinite
  rw [h] at hway
  cases hway

/-- Whether samples span an interval is decided by the last but one; they do if they are steady, and do not if the way
is not finite. -/
structure Decides (i : Interval Float) (n : ℕ) (xs : List Float) : Prop where
  spans_iff : i.Spans n xs ↔ (2 ≤ n → i.Contains (axisSample i.lower i.upper (n - 1) (n - 2)))
  of_steady : i.Steady n → i.Spans n xs
  of_overflow : 2 ≤ n → (i.upper - i.lower).isFinite = false → ¬i.Spans n xs

theorem decides_axisSamples (i : Interval Float) (hn : 1 ≤ n) : i.Decides n (axisSamples i.lower i.upper n) :=
  ⟨spans_axisSamples_iff i hn, spans_of_steady hn, not_spans_of_overflow⟩

end Interval

/-- **The axes of a grid span its domain**, but for ways that are not finite and for steps among the least doubles that
lead beyond the end. -/
theorem Grid.axes_span (f : Formula) (domain : Domain Float) (n : Resolution) (clip : Option (Clip Float))
    (whole : Bool) : domain.x.Decides n (sample f domain n clip whole).xs ∧
      domain.y.Decides n (sample f domain n clip whole).ys := by
  rw [xs_sample, ys_sample]
  exact ⟨domain.x.decides_axisSamples n.2, domain.y.decides_axisSamples n.2⟩

/-- The interval from zero to one. -/
def unitInterval : Interval Float where
  lower := 0.0
  upper := 1.0
  lower_finite := by decide +kernel
  upper_finite := by decide +kernel
  ordered := by decide +kernel

theorem steady_unitInterval : unitInterval.Steady 3 := ⟨by decide, by decide +kernel, Or.inr (by decide +kernel)⟩

theorem axes_span_unitSquare : unitInterval.Steady 3 ∧
    unitInterval.Spans 3
      (Grid.sample ⟨"x", .real, .var "x"⟩ ⟨unitInterval, unitInterval⟩ ⟨3, by decide⟩ none true).xs :=
  ⟨steady_unitInterval,
    (Grid.axes_span ⟨"x", .real, .var "x"⟩ ⟨unitInterval, unitInterval⟩ ⟨3, by decide⟩ none true).1.of_steady
      steady_unitInterval⟩

/-- Ends whose distance is above the greatest double. -/
def farEnds : Interval Float where
  lower := -1.7e308
  upper := 1.7e308
  lower_finite := by decide +kernel
  upper_finite := by decide +kernel
  ordered := by decide +kernel

/-- Zero and three times the least double, in five steps of one each. -/
def nearEnds : Interval Float where
  lower := 0.0
  upper := 1.5e-323
  lower_finite := by decide +kernel
  upper_finite := by decide +kernel
  ordered := by decide +kernel

/-- **Neither ends that are too far from each other are spanned nor some that are too near.** -/
theorem not_spans_strained :
    ¬farEnds.Spans 6 (Grid.sample ⟨"x", .real, .var "x"⟩ ⟨farEnds, nearEnds⟩ ⟨6, by decide⟩ none true).xs ∧
      ¬nearEnds.Spans 6 (Grid.sample ⟨"x", .real, .var "x"⟩ ⟨farEnds, nearEnds⟩ ⟨6, by decide⟩ none true).ys := by
  rw [Grid.xs_sample, Grid.ys_sample]
  refine ⟨Interval.not_spans_of_overflow (by decide) (by decide +kernel), fun h => ?_⟩
  have hlast := ((Interval.spans_axisSamples_iff nearEnds (by decide)).1 h (by decide)).le_upper
  revert hlast
  decide +kernel

end Heightfield
