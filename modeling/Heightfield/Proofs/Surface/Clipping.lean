import Heightfield.Proofs.Surface.Positions
import Heightfield.Proofs.Surface.Selection
/-!
# A clip range moves heights and nothing else

A surface sampled with a clip range is the surface without it, with every height moved into the range
(`Grid.clampsTo_sample`).  Moving into a range keeps the order, so it goes through everything that is found by comparing:
the bounds of the heights, and the heights that limits are chosen from.
-/
namespace Heightfield

open Double (value)
open Formula (Value)

/-! ## Numbers moved into a range -/

/-- The number moved into the clip range. -/
def clampValue (c : Clip Float) (q : ℚ) : ℚ := min (max q (value c.lower)) (value c.upper)

theorem monotone_clampValue (c : Clip Float) : Monotone (clampValue c) :=
  (monotone_id.max monotone_const).min monotone_const

/-- Two finite doubles; the second is the first moved into the clip range. -/
structure Clamps (c : Clip Float) (v w : Float) : Prop where
  isFinite : v.isFinite = true
  isFinite_clamped : w.isFinite = true
  value_eq : value w = clampValue c (value v)

section
variable {x y v : Float}

theorem value_max (hx : x.isFinite = true) (hy : y.isFinite = true) :
    (Scalar.max x y).isFinite = true ∧ value (Scalar.max x y) = max (value x) (value y) := by
  rcases max_cases hx hy with ⟨h, hle⟩ | ⟨h, hle⟩
  · rw [h, max_eq_left hle]
    exact ⟨hx, rfl⟩
  · rw [h, max_eq_right hle]
    exact ⟨hy, rfl⟩

theorem value_min (hx : x.isFinite = true) (hy : y.isFinite = true) :
    (Scalar.min x y).isFinite = true ∧ value (Scalar.min x y) = min (value x) (value y) := by
  rcases min_cases hx hy with ⟨h, hle⟩ | ⟨h, hle⟩
  · rw [h, min_eq_left hle]
    exact ⟨hx, rfl⟩
  · rw [h, min_eq_right hle]
    exact ⟨hy, rfl⟩

theorem clamps_clamp (c : Clip Float) (hv : v.isFinite = true) : Clamps c v (Scalar.clamp c.lower c.upper v) := by
  obtain ⟨hmax, hvalue⟩ := value_max hv c.lower_finite
  obtain ⟨hmin, hvalue'⟩ := value_min hmax c.upper_finite
  exact ⟨hv, hmin, by rw [Scalar.clamp, hvalue', hvalue, clampValue]⟩

theorem apply_of_isFinite (c : Clip Float) (hv : v.isFinite = true) : c.apply v = Scalar.clamp c.lower c.upper v := if_pos hv

theorem apply_of_isNaN (c : Clip Float) (hv : v.isNaN = true) : c.apply v = Scalar.nan := if_neg fun hfinite => by
  rw [Double.isNaN_eq_false hfinite] at hv
  cases hv

theorem isFinite_apply (c : Clip Float) (v : Float) : (c.apply v).isFinite = v.isFinite :=
  isFinite_clippedHeight (some c) v

end

/-! ## Heights -/

section
variable (c : Clip Float) (rows : List (List Float))

theorem finiteCells_clipped :
    finiteCells (rows.map (·.map c.apply)) = (finiteCells rows).map (Scalar.clamp c.lower c.upper) := by
  have hfinite : Float.isFinite ∘ c.apply = Float.isFinite := funext (isFinite_apply c)
  rw [finiteCells, ← List.map_flatten, List.filter_map, hfinite]
  exact List.map_congr_left fun v hv => apply_of_isFinite c (isFinite_of_mem_finiteCells hv)

theorem map_value_finiteCells_clipped : (finiteCells (rows.map (·.map c.apply))).map value =
    ((finiteCells rows).map value).map (clampValue c) := by
  rw [finiteCells_clipped, List.map_map, List.map_map]
  exact List.map_congr_left fun v hv => (clamps_clamp c (isFinite_of_mem_finiteCells hv)).value_eq

theorem map_value_sortedHeights : (Limits.sortedHeights rows).map value = sorted ((finiteCells rows).map value) := by
  refine List.map_mergeSort fun a ha b hb => ?_
  rw [Bool.eq_iff_iff, decide_eq_true_iff]
  exact Double.le_iff (isFinite_of_mem_finiteCells ha) (isFinite_of_mem_finiteCells hb)

theorem map_value_sortedHeights_clipped : (Limits.sortedHeights (rows.map (·.map c.apply))).map value =
    ((Limits.sortedHeights rows).map value).map (clampValue c) := by
  rw [map_value_sortedHeights, map_value_finiteCells_clipped, sorted_map_of_monotone (monotone_clampValue c),
    map_value_sortedHeights]

theorem isFinite_of_mem_sortedHeights {v : Float} (h : v ∈ Limits.sortedHeights rows) : v.isFinite = true :=
  isFinite_of_mem_finiteCells ((List.mergeSort_perm _ _).mem_iff.1 h)

theorem length_sortedHeights : (Limits.sortedHeights rows).length = (finiteCells rows).length := List.length_mergeSort _

/-! ### Bounds -/

theorem le_value_of_le {v w : Float} (hv : v.isFinite = true) (hw : w.isFinite = true) (h : v ≤ w) : value v ≤ value w :=
  (Double.le_iff hv hw).1 (decide_eq_true h)

theorem isLeast_finiteBounds (hne : finiteCells rows ≠ []) :
    IsLeast {q | q ∈ (finiteCells rows).map value} (value (finiteBounds rows).1) ∧
      IsGreatest {q | q ∈ (finiteCells rows).map value} (value (finiteBounds rows).2) := by
  obtain ⟨hlow, hhigh, hbetween⟩ := (finiteBounds_isRange rows).resolve_left fun h => hne h.1
  have hfinite : ∀ {v}, v ∈ finiteCells rows → v.isFinite = true := isFinite_of_mem_finiteCells
  refine ⟨⟨List.mem_map_of_mem hlow, fun q hq => ?_⟩, ⟨List.mem_map_of_mem hhigh, fun q hq => ?_⟩⟩
  · obtain ⟨v, hv, rfl⟩ := List.mem_map.1 hq
    exact le_value_of_le (hfinite hlow) (hfinite hv) (hbetween v hv).1
  · obtain ⟨v, hv, rfl⟩ := List.mem_map.1 hq
    exact le_value_of_le (hfinite hv) (hfinite hhigh) (hbetween v hv).2

/-- **The bounds of clipped heights are the bounds, clamped.** -/
theorem clamps_finiteBounds (hne : finiteCells rows ≠ []) :
    Clamps c (finiteBounds rows).1 (finiteBounds (rows.map (·.map c.apply))).1 ∧
      Clamps c (finiteBounds rows).2 (finiteBounds (rows.map (·.map c.apply))).2 := by
  obtain ⟨hleast, hgreatest⟩ := isLeast_finiteBounds rows hne
  have hne' : finiteCells (rows.map (·.map c.apply)) ≠ [] := by
    rw [finiteCells_clipped]
    exact mt List.map_eq_nil_iff.1 hne
  obtain ⟨hleast', hgreatest'⟩ := isLeast_finiteBounds (rows.map (·.map c.apply)) hne'
  -- a monotone map takes the least of a set to the least of its image
  have himage : {q | q ∈ (finiteCells (rows.map (·.map c.apply))).map value} =
      clampValue c '' {q | q ∈ (finiteCells rows).map value} := by
    ext q
    rw [map_value_finiteCells_clipped]
    exact List.mem_map
  rw [himage] at hleast' hgreatest'
  have hfinite := isFinite_finiteBounds rows
  have hfinite' := isFinite_finiteBounds (rows.map (·.map c.apply))
  exact ⟨⟨hfinite.1, hfinite'.1, hleast'.unique ((monotone_clampValue c).map_isLeast hleast)⟩,
    ⟨hfinite.2, hfinite'.2, hgreatest'.unique ((monotone_clampValue c).map_isGreatest hgreatest)⟩⟩

/-! ### Selected heights -/

theorem exists_getElem?_clipped {i : ℕ} {a : Float} (h : (Limits.sortedHeights rows)[i]? = some a) :
    ∃ a', (Limits.sortedHeights (rows.map (·.map c.apply)))[i]? = some a' ∧ Clamps c a a' := by
  have hvalue := congrArg (·[i]?) (map_value_sortedHeights_clipped c rows)
  simp only [List.getElem?_map, h, Option.map_some] at hvalue
  obtain ⟨a', ha', hclamp⟩ := Option.map_eq_some_iff.1 hvalue
  exact ⟨a', ha', isFinite_of_mem_sortedHeights rows (List.mem_of_getElem? h),
    isFinite_of_mem_sortedHeights _ (List.mem_of_getElem? ha'), hclamp⟩

/-- **Either the heights selected are clamped, or none are selected** because a position overflows, with a clip range and
without. -/
theorem clamps_selected (hne : finiteCells rows ≠ []) (percentile : Float) :
    (∃ a b a' b', Limits.Selects rows percentile a b ∧ Limits.Selects (rows.map (·.map c.apply)) percentile a' b' ∧
      Clamps c a a' ∧ Clamps c b b') ∨
    ¬Limits.Placed (finiteCells rows).length percentile ∧ ∃ e, Limits.ofHeights rows percentile = .error e ∧
      Limits.ofHeights (rows.map (·.map c.apply)) percentile = .error e := by
  have hlength : (Limits.sortedHeights (rows.map (·.map c.apply))).length = (Limits.sortedHeights rows).length := by
    rw [length_sortedHeights, length_sortedHeights, finiteCells_clipped, List.length_map]
  have hn : (Limits.sortedHeights rows).length ≠ 0 := by
    rw [length_sortedHeights]
    exact mt List.eq_nil_of_length_eq_zero hne
  -- the positions depend on the number of heights, which is the same
  have herror : ∀ {e}, (Limits.lowerIndex (Limits.sortedHeights rows).length percentile = .error e ∨
      ∃ i, Limits.lowerIndex (Limits.sortedHeights rows).length percentile = .ok i ∧
        Limits.upperIndex (Limits.sortedHeights rows).length percentile = .error e) →
      ¬Limits.Placed (finiteCells rows).length percentile ∧ ∃ e, Limits.ofHeights rows percentile = .error e ∧
        Limits.ofHeights (rows.map (·.map c.apply)) percentile = .error e := fun {e} h => by
    refine ⟨fun hplaced => ?_, e, Limits.ofHeights_of_error hn h, Limits.ofHeights_of_error (hlength ▸ hn) (hlength ▸ h)⟩
    obtain ⟨i, j, hi, hj⟩ := Limits.exists_indexes hplaced
    rw [length_sortedHeights, hi, hj] at h
    rcases h with h | ⟨_, -, h⟩ <;> cases h
  cases hi : Limits.lowerIndex (Limits.sortedHeights rows).length percentile with
  | error e => exact Or.inr (herror (Or.inl hi))
  | ok i =>
    cases hj : Limits.upperIndex (Limits.sortedHeights rows).length percentile with
    | error e => exact Or.inr (herror (Or.inr ⟨i, hi, hj⟩))
    | ok j =>
      obtain ⟨a, b, i, j, hi, hj, ha, hb⟩ := Limits.exists_selects hn hi hj
      obtain ⟨a', ha', hclampsa⟩ := exists_getElem?_clipped c rows ha
      obtain ⟨b', hb', hclampsb⟩ := exists_getElem?_clipped c rows hb
      have hselects' : Limits.Selects (rows.map (·.map c.apply)) percentile a' b' :=
        ⟨i, j, by rw [hlength, hi], by rw [hlength, hj], ha', hb'⟩
      exact Or.inl ⟨a, b, a', b', ⟨i, j, hi, hj, ha, hb⟩, hselects', hclampsa, hclampsb⟩

end

/-! ## Surfaces -/

theorem isFinite_or_isNaN_realOutcome (v : Option (Value Float)) :
    (Value.realOutcome v).isFinite = true ∨ (Value.realOutcome v).isNaN = true := by
  have hnan : (Scalar.nan : Float).isNaN = true := rfl
  have hscalar : ∀ x : Float, (Value.finiteOrNaN x).isFinite = true ∨ (Value.finiteOrNaN x).isNaN = true := fun x => by
    unfold Value.finiteOrNaN
    split
    · rename_i h
      exact Or.inl h
    · exact Or.inr hnan
  match v with
  | some (.int _) | some (.word _) | some (.real _ _) => exact hscalar _
  | some (.complex _ _) => exact Or.inr hnan
  | none => exact Or.inr hnan

theorem isFinite_or_isNaN_complexOutcome (v : Option (Value Float)) :
    (Value.complexOutcome v).re.isFinite = true ∨ (Value.complexOutcome v).re.isNaN = true := by
  have hreal : ∀ x : Float, (Value.finiteReal x).re.isFinite = true ∨ (Value.finiteReal x).re.isNaN = true := fun x => by
    unfold Value.finiteReal
    split
    · rename_i h
      exact Or.inl h
    · exact Or.inr rfl
  match v with
  | some (.int _) | some (.word _) | some (.real _ _) => exact hreal _
  | some (.complex _ z) =>
    show (Value.finiteComplex z).re.isFinite = true ∨ (Value.finiteComplex z).re.isNaN = true
    unfold Value.finiteComplex
    split
    · rename_i h
      exact Or.inl (Bool.and_eq_true_iff.1 h).1
    · exact Or.inr rfl
  | none => exact Or.inr rfl

namespace Grid

variable (f : Formula) (domain : Domain Float) (n : Resolution) (c : Clip Float) (whole : Bool)

theorem height_sample_clip : (sample f domain n (some c) whole).height =
    (sample f domain n none whole).height.map (·.map c.apply) := by
  unfold sample
  dsimp only
  cases Sweep.run whole f (axisSamples domain.x.lower domain.x.upper n) (axisSamples domain.y.lower domain.y.upper n) <;> rfl

theorem imaginary_sample_clip : (sample f domain n (some c) whole).imaginary = (sample f domain n none whole).imaginary := by
  unfold sample
  dsimp only
  cases Sweep.run whole f (axisSamples domain.x.lower domain.x.upper n) (axisSamples domain.y.lower domain.y.upper n) <;> rfl

theorem isFinite_or_isNaN_height : ∀ row ∈ (sample f domain n none whole).height, ∀ v ∈ row,
    v.isFinite = true ∨ v.isNaN = true := by
  have htable : ∀ {k : Float → Float → Float}, (∀ x y, (k x y).isFinite = true ∨ (k x y).isNaN = true) →
      ∀ row ∈ tabulate (axes domain n).1 (axes domain n).2 k, ∀ v ∈ row, v.isFinite = true ∨ v.isNaN = true :=
    fun hk row hrow v hv => by
      obtain ⟨y, -, rfl⟩ := List.mem_map.1 hrow
      obtain ⟨x, -, rfl⟩ := List.mem_map.1 hv
      exact hk x y
  cases hmode : f.mode with
  | real =>
    rw [sample_of_real f domain n none whole hmode]
    exact htable fun x y => isFinite_or_isNaN_realOutcome _
  | complex =>
    rw [sample_of_complex f domain n none whole hmode]
    exact htable fun x y => isFinite_or_isNaN_complexOutcome _

/-- The grid `g'` is `g` with its heights moved into the clip range, and nothing else. -/
structure ClampsTo (c : Clip Float) (g g' : Grid Float) : Prop where
  xs_eq : g'.xs = g.xs
  ys_eq : g'.ys = g.ys
  imaginary_eq : g'.imaginary = g.imaginary
  imaginaryBounds_eq : g'.imaginary.map finiteBounds = g.imaginary.map finiteBounds
  /-- A height is a number in both or in neither. -/
  heights : List.Forall₂ (List.Forall₂ fun v w => v.isNaN = true ∧ w.isNaN = true ∨ Clamps c v w) g.height g'.height
  bounds : finiteCells g.height ≠ [] → Clamps c (finiteBounds g.height).1 (finiteBounds g'.height).1 ∧
    Clamps c (finiteBounds g.height).2 (finiteBounds g'.height).2
  noBounds : finiteCells g.height = [] → finiteBounds g'.height = (0.0, 0.0)
  total_eq : g'.statistics.total = g.statistics.total
  valid_eq : g'.statistics.valid = g.statistics.valid
  imaginaryStatistics_eq : g'.statistics.imaginary = g.statistics.imaginary
  /-- The heights selected for limits are clamped too; there are none in either grid where a position overflows. -/
  selected : finiteCells g.height ≠ [] → ∀ percentile, (∃ a b a' b', Limits.Selects g.height percentile a b ∧
      Limits.Selects g'.height percentile a' b' ∧ Clamps c a a' ∧ Clamps c b b') ∨
    ¬Limits.Placed (finiteCells g.height).length percentile ∧ ∃ e, g.limits percentile = .error e ∧
      g'.limits percentile = .error e

/-- **Clipping only clamps heights.** -/
theorem clampsTo_sample : ClampsTo c (sample f domain n none whole) (sample f domain n (some c) whole) := by
  have hheight := height_sample_clip f domain n c whole
  have himaginary := imaginary_sample_clip f domain n c whole
  obtain ⟨-, hstatistics, htotal, hvalid⟩ := (even_sample f domain n none whole).statistics
  obtain ⟨-, hstatistics', htotal', hvalid'⟩ := (even_sample f domain n (some c) whole).statistics
  exact {
    xs_eq := by rw [xs_sample, xs_sample]
    ys_eq := by rw [ys_sample, ys_sample]
    imaginary_eq := himaginary
    imaginaryBounds_eq := by rw [himaginary]
    heights := by
      rw [hheight, List.forall₂_map_right_iff, List.forall₂_same]
      intro row hrow
      rw [List.forall₂_map_right_iff, List.forall₂_same]
      intro v hv
      rcases isFinite_or_isNaN_height f domain n whole row hrow v hv with hfinite | hnan
      · right
        rw [apply_of_isFinite c hfinite]
        exact clamps_clamp c hfinite
      · left
        rw [apply_of_isNaN c hnan]
        exact ⟨hnan, rfl⟩
    bounds := by
      rw [hheight]
      exact clamps_finiteBounds c _
    noBounds := fun hnil => by
      have hnil' : finiteCells (sample f domain n (some c) whole).height = [] := by
        rw [hheight, finiteCells_clipped, hnil, List.map_nil]
      rcases finiteBounds_isRange (sample f domain n (some c) whole).height with ⟨-, hlow, hhigh⟩ | ⟨hlow, -⟩
      · exact Prod.ext hlow hhigh
      · rw [hnil'] at hlow
        exact absurd hlow List.not_mem_nil
    total_eq := by rw [htotal, htotal']
    valid_eq := by rw [hvalid, hvalid', hheight, finiteCells_clipped, List.length_map]
    imaginaryStatistics_eq := by rw [hstatistics, hstatistics', himaginary]
    selected := fun hne percentile => by
      rw [limits, limits, hheight]
      exact clamps_selected c _ hne percentile }

end Grid

end Heightfield
