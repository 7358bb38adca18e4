import Heightfield.Number.Double
import Heightfield.Proofs.Number.Value
import Heightfield.Proofs.Surface.Sampling
import Heightfield.Surface.Limits
import Heightfield.Surface.Statistics
/-!
# The channels of a surface

The heights of a sampled surface and its imaginary parts are finite in the same cells (`imaginary_sample`), so what is
counted in one channel holds of both.  The bounds of a channel are its least and its greatest finite number
(`finiteBounds_isRange`), and clipped heights lie in the clip range (`clipped_sample`).
-/
namespace Heightfield

open Double (value)
open Formula (Value)

/-- The finite numbers of a table, row by row. -/
def finiteCells (rows : List (List Float)) : List Float := rows.flatten.filter Float.isFinite

/-- The least and the greatest number of a list, or two zeros when there is none. -/
def IsRange (vs : List Float) (low high : Float) : Prop :=
  vs = [] ∧ low = 0.0 ∧ high = 0.0 ∨ low ∈ vs ∧ high ∈ vs ∧ ∀ v ∈ vs, low ≤ v ∧ v ≤ high

theorem isFinite_of_mem_finiteCells {rows : List (List Float)} {v : Float} (h : v ∈ finiteCells rows) :
    v.isFinite = true :=
  (List.mem_filter.1 h).2

/-! ## The least and the greatest -/

section
variable {x y v : Float}

theorem le_of_value_le (hx : x.isFinite = true) (hy : y.isFinite = true) (h : value x ≤ value y) : x ≤ y :=
  of_decide_eq_true ((Double.le_iff hx hy).2 h)

theorem min_cases (hx : x.isFinite = true) (hy : y.isFinite = true) :
    Scalar.min x y = x ∧ value x ≤ value y ∨ Scalar.min x y = y ∧ value y ≤ value x := by
  have hle := Double.le_iff hx hy
  unfold Scalar.min
  rw [if_neg (by rw [show Scalar.isNaN x = x.isNaN from rfl, Double.isNaN_eq_false hx]; decide),
    if_neg (by rw [show Scalar.isNaN y = y.isNaN from rfl, Double.isNaN_eq_false hy]; decide)]
  split
  · rename_i h
    exact Or.inl ⟨rfl, hle.1 h⟩
  · rename_i h
    exact Or.inr ⟨rfl, (not_le.1 (mt hle.2 h)).le⟩

theorem max_cases (hx : x.isFinite = true) (hy : y.isFinite = true) :
    Scalar.max x y = x ∧ value y ≤ value x ∨ Scalar.max x y = y ∧ value x ≤ value y := by
  have hle := Double.le_iff hy hx
  unfold Scalar.max
  rw [if_neg (by rw [show Scalar.isNaN x = x.isNaN from rfl, Double.isNaN_eq_false hx]; decide),
    if_neg (by rw [show Scalar.isNaN y = y.isNaN from rfl, Double.isNaN_eq_false hy]; decide)]
  split
  · rename_i h
    exact Or.inl ⟨rfl, hle.1 h⟩
  · rename_i h
    exact Or.inr ⟨rfl, (not_le.1 (mt hle.2 h)).le⟩

theorem clamp_mem (c : Clip Float) (hv : v.isFinite = true) :
    (Scalar.clamp c.lower c.upper v).isFinite = true ∧ c.lower ≤ Scalar.clamp c.lower c.upper v ∧
      Scalar.clamp c.lower c.upper v ≤ c.upper := by
  have hl : c.lower.isFinite = true := c.lower_finite
  have hu : c.upper.isFinite = true := c.upper_finite
  have hordered : value c.lower ≤ value c.upper := not_lt.1 fun h => by
    rw [← Double.lt_iff hu hl, c.ordered] at h
    cases h
  have hmax : (Scalar.max v c.lower).isFinite = true ∧ value c.lower ≤ value (Scalar.max v c.lower) := by
    rcases max_cases hv hl with ⟨h, hle⟩ | ⟨h, -⟩
    · rw [h]
      exact ⟨hv, hle⟩
    · rw [h]
      exact ⟨hl, le_rfl⟩
  rcases min_cases hmax.1 hu with ⟨h, hle⟩ | ⟨h, -⟩
  · rw [Scalar.clamp, h]
    exact ⟨hmax.1, le_of_value_le hl hmax.1 hmax.2, le_of_value_le hmax.1 hu hle⟩
  · rw [Scalar.clamp, h]
    exact ⟨hu, le_of_value_le hl hu hordered, le_of_value_le hu hu le_rfl⟩

end

/-- The extreme number of a list is found by keeping the better of two. -/
theorem foldl_extreme {op : Float → Float → Float} {r : ℚ → ℚ → Prop} (hrefl : ∀ p, r p p)
    (htrans : ∀ {p q s}, r p q → r q s → r p s) (hop : ∀ {x y : Float}, x.isFinite = true → y.isFinite = true →
      op x y = x ∧ r (value x) (value y) ∨ op x y = y ∧ r (value y) (value x)) :
    ∀ (vs : List Float) (v : Float), (∀ x ∈ v :: vs, x.isFinite = true) →
      vs.foldl op v ∈ v :: vs ∧ ∀ x ∈ v :: vs, r (value (vs.foldl op v)) (value x)
  | [], v, _ => ⟨List.mem_singleton_self v, fun x hx => by rw [List.mem_singleton.1 hx]; exact hrefl _⟩
  | w :: vs, v, hfinite => by
    obtain ⟨hv, hw, hrest⟩ : v.isFinite = true ∧ w.isFinite = true ∧ ∀ x ∈ vs, x.isFinite = true := by
      simpa only [List.forall_mem_cons] using hfinite
    rw [List.foldl_cons]
    rcases hop hv hw with ⟨h, hle⟩ | ⟨h, hle⟩
    · rw [h]
      obtain ⟨hmem, hbest⟩ := foldl_extreme hrefl htrans hop vs v (List.forall_mem_cons.2 ⟨hv, hrest⟩)
      obtain ⟨hbestv, hbestvs⟩ := List.forall_mem_cons.1 hbest
      refine ⟨List.mem_cons.2 ((List.mem_cons.1 hmem).imp_right (List.mem_cons_of_mem w)), ?_⟩
      exact List.forall_mem_cons.2 ⟨hbestv, List.forall_mem_cons.2 ⟨htrans hbestv hle, hbestvs⟩⟩
    · rw [h]
      obtain ⟨hmem, hbest⟩ := foldl_extreme hrefl htrans hop vs w (List.forall_mem_cons.2 ⟨hw, hrest⟩)
      obtain ⟨hbestw, -⟩ := List.forall_mem_cons.1 hbest
      exact ⟨List.mem_cons_of_mem v hmem, List.forall_mem_cons.2 ⟨htrans hbestw hle, hbest⟩⟩

/-- **The bounds of a channel are its least and its greatest finite number**, or zeros without any. -/
theorem finiteBounds_isRange (rows : List (List Float)) :
    IsRange (finiteCells rows) (finiteBounds rows).1 (finiteBounds rows).2 := by
  have hfinite : ∀ v ∈ finiteCells rows, v.isFinite = true := fun v => isFinite_of_mem_finiteCells
  unfold finiteBounds
  rw [show rows.flatten.filter Scalar.isFinite = finiteCells rows from rfl]
  cases hcells : finiteCells rows with
  | nil => exact Or.inl ⟨rfl, rfl, rfl⟩
  | cons v vs =>
    rw [hcells] at hfinite
    obtain ⟨hlow, hleast⟩ := foldl_extreme le_refl le_trans min_cases vs v hfinite
    obtain ⟨hhigh, hgreatest⟩ := foldl_extreme (r := (· ≥ ·)) le_refl ge_trans max_cases vs v hfinite
    exact Or.inr ⟨hlow, hhigh, fun x hx => ⟨le_of_value_le (hfinite _ hlow) (hfinite x hx) (hleast x hx),
      le_of_value_le (hfinite x hx) (hfinite _ hhigh) (hgreatest x hx)⟩⟩

theorem isFinite_finiteBounds (rows : List (List Float)) :
    (finiteBounds rows).1.isFinite = true ∧ (finiteBounds rows).2.isFinite = true := by
  rcases finiteBounds_isRange rows with ⟨-, hlow, hhigh⟩ | ⟨hlow, hhigh, -⟩
  · rw [hlow, hhigh]
    exact ⟨rfl, rfl⟩
  · exact ⟨isFinite_of_mem_finiteCells hlow, isFinite_of_mem_finiteCells hhigh⟩

/-! ## Cells -/

/-- Either both parts of an outcome are finite, or none is a number. -/
theorem isFinite_complexOutcome (v : Option (Value Float)) :
    (Value.complexOutcome v).re.isFinite = (Value.complexOutcome v).im.isFinite := by
  have hreal : ∀ x : Float, (Value.finiteReal x).re.isFinite = (Value.finiteReal x).im.isFinite := fun x => by
    unfold Value.finiteReal
    split
    · rename_i h
      show x.isFinite = (0.0 : Float).isFinite
      exact h
    · rfl
  match v with
  | some (.int _) | some (.word _) | some (.real _ _) => exact hreal _
  | some (.complex _ z) =>
    show (Value.finiteComplex z).re.isFinite = (Value.finiteComplex z).im.isFinite
    unfold Value.finiteComplex
    split
    · rename_i h
      obtain ⟨hre, him⟩ := Bool.and_eq_true_iff.1 h
      exact hre.trans him.symm
    · rfl
  | none => rfl

theorem isFinite_clippedHeight (clip : Option (Clip Float)) (v : Float) :
    (Grid.clippedHeight clip v).isFinite = v.isFinite := by
  cases clip with
  | none => rfl
  | some c =>
    unfold Grid.clippedHeight
    dsimp only
    split
    · rename_i h
      exact (clamp_mem c h).1.trans h.symm
    · rename_i h
      exact (Bool.eq_false_iff.2 h).symm

theorem clippedHeight_mem (c : Clip Float) {v : Float} (h : (Grid.clippedHeight (some c) v).isFinite = true) :
    c.lower ≤ Grid.clippedHeight (some c) v ∧ Grid.clippedHeight (some c) v ≤ c.upper := by
  rw [isFinite_clippedHeight] at h
  have hclamp : Grid.clippedHeight (some c) v = Scalar.clamp c.lower c.upper v := if_pos h
  rw [hclamp]
  exact (clamp_mem c h).2

theorem exists_of_mem_finiteCells {xs ys : List Float} {f : Float → Float → Float} {v : Float}
    (h : v ∈ finiteCells (tabulate xs ys f)) : ∃ x y, v = f x y := by
  obtain ⟨row, hrow, hv⟩ := List.mem_flatten.1 (List.mem_filter.1 h).1
  obtain ⟨y, -, rfl⟩ := List.mem_map.1 hrow
  obtain ⟨x, -, rfl⟩ := List.mem_map.1 hv
  exact ⟨x, y, rfl⟩

namespace Grid

variable (f : Formula) (domain : Domain Float) (n : Resolution) (clip : Option (Clip Float)) (whole : Bool)

/-- **There is an imaginary channel just over the complex plane**, and it is finite where the heights are. -/
theorem imaginary_sample : ((sample f domain n clip whole).imaginary = none ↔ f.mode = .real) ∧
    ∀ rows ∈ (sample f domain n clip whole).imaginary,
      rows.map (·.map Float.isFinite) = (sample f domain n clip whole).height.map (·.map Float.isFinite) := by
  cases hm : f.mode with
  | real =>
    rw [sample_of_real f domain n clip whole hm]
    exact ⟨⟨fun _ => rfl, fun _ => rfl⟩, nofun⟩
  | complex =>
    rw [sample_of_complex f domain n clip whole hm]
    refine ⟨⟨nofun, nofun⟩, fun rows hrows => ?_⟩
    obtain rfl := Option.mem_some.1 hrows
    rw [map_tabulate, map_tabulate]
    refine tabulate_congr fun x _ y _ => ?_
    rw [isFinite_clippedHeight, isFinite_complexOutcome]

/-- **Clipped heights lie in the clip range.** -/
theorem clipped_sample (c : Clip Float) :
    ∀ v ∈ finiteCells (sample f domain n (some c) whole).height, c.lower ≤ v ∧ v ≤ c.upper := by
  intro v hv
  have hfinite := isFinite_of_mem_finiteCells hv
  cases hm : f.mode with
  | real =>
    rw [sample_of_real f domain n _ whole hm] at hv
    obtain ⟨x, y, rfl⟩ := exists_of_mem_finiteCells hv
    exact clippedHeight_mem c hfinite
  | complex =>
    rw [sample_of_complex f domain n _ whole hm] at hv
    obtain ⟨x, y, rfl⟩ := exists_of_mem_finiteCells hv
    exact clippedHeight_mem c hfinite

end Grid

/-! ## Counts -/

theorem length_flatten_square {β : Type} {n : ℕ} {rows : List (List β)} (h : Grid.Square n rows) :
    rows.flatten.length = n * n := by
  rw [List.length_flatten, List.map_congr_left h.2, List.map_const', List.sum_replicate_nat, h.1]

/-- Of numbers whose parts are finite together, those with finite parts have the finite parts. -/
theorem filter_zipWith : ∀ {res ims : List Float}, res.map Float.isFinite = ims.map Float.isFinite →
    ((List.zipWith Complex.mk res ims).filter Complex.isFinite).map Complex.re = res.filter Float.isFinite ∧
      ((List.zipWith Complex.mk res ims).filter Complex.isFinite).map Complex.im = ims.filter Float.isFinite
  | [], [], _ => ⟨rfl, rfl⟩
  | [], _ :: _, h => by cases h
  | _ :: _, [], h => by cases h
  | a :: res, b :: ims, h => by
    obtain ⟨hab, hrest⟩ := List.cons.inj h
    obtain ⟨hre, him⟩ := filter_zipWith hrest
    have hfinite : Complex.isFinite (⟨a, b⟩ : Complex Float) = a.isFinite := by
      show (a.isFinite && b.isFinite) = _
      rw [← hab, Bool.and_self]
    rw [List.zipWith_cons_cons, List.filter_cons, List.filter_cons, List.filter_cons, hfinite, ← hab]
    cases a.isFinite
    · exact ⟨hre, him⟩
    · exact ⟨congrArg (a :: ·) hre, congrArg (b :: ·) him⟩

/-- All channels of the grid are square, and finite in the same cells. -/
structure Grid.Even (g : Grid Float) (n : ℕ) : Prop where
  square : Grid.Square n g.height
  imaginary : ∀ rows ∈ g.imaginary,
    Grid.Square n rows ∧ rows.map (·.map Float.isFinite) = g.height.map (·.map Float.isFinite)

theorem Grid.even_sample (f : Formula) (domain : Domain Float) (n : Resolution) (clip : Option (Clip Float))
    (whole : Bool) : (sample f domain n clip whole).Even n :=
  ⟨(square_sample f domain n clip whole).1, fun rows h => ⟨(square_sample f domain n clip whole).2 rows h,
    (imaginary_sample f domain n clip whole).2 rows h⟩⟩

/-- **The statistics are those of the finite cells of each channel.** -/
theorem Grid.Even.statistics {g : Grid Float} {n : ℕ} (h : g.Even n) :
    g.statistics.height = .ofValues (finiteCells g.height) ∧
      g.statistics.imaginary = g.imaginary.map (fun rows => .ofValues (finiteCells rows)) ∧
      g.statistics.total = n * n ∧ g.statistics.valid = (finiteCells g.height).length := by
  unfold Grid.statistics
  cases hg : g.imaginary with
  | none => exact ⟨rfl, rfl, length_flatten_square h.square, rfl⟩
  | some rows =>
    obtain ⟨hsquare, hfinite⟩ := h.imaginary rows hg
    have hflat : g.height.flatten.map Float.isFinite = rows.flatten.map Float.isFinite := by
      rw [List.map_flatten, List.map_flatten, hfinite]
    obtain ⟨hre, him⟩ := filter_zipWith hflat
    refine ⟨congrArg Channel.ofValues hre, congrArg (fun vs => some (Channel.ofValues vs)) him, ?_, ?_⟩
    · show (List.zipWith Complex.mk g.height.flatten rows.flatten).length = _
      rw [List.length_zipWith, length_flatten_square h.square, length_flatten_square hsquare, Nat.min_self]
    · show ((List.zipWith Complex.mk g.height.flatten rows.flatten).filter Complex.isFinite).length = _
      rw [← List.length_map Complex.re, hre]
      rfl

/-- Without a finite height the limits do not depend on anything. -/
theorem Limits.ofHeights_of_finiteCells_eq_nil {rows : List (List Float)} (h : finiteCells rows = [])
    (percentile : Float) : Limits.ofHeights rows percentile = .ok fallback := by
  have hsorted : sortedHeights rows = [] := by
    show (finiteCells rows).mergeSort Scalar.le = []
    rw [h, List.mergeSort_nil]
  unfold Limits.ofHeights
  rw [hsorted]
  rfl

theorem Limits.ofHeights_of_indexes {rows : List (List Float)} {heights : List Float} {percentile : Float} {i j : ℕ}
    (hsorted : sortedHeights rows = heights) (hne : heights ≠ []) (hi : lowerIndex heights.length percentile = .ok i)
    (hj : upperIndex heights.length percentile = .ok j) :
    ofHeights rows percentile =
      .ok (padded (heights[i]?.getD (Scalar.ofInt 0)) (heights[j]?.getD (Scalar.ofInt 0))) := by
  unfold ofHeights
  simp only [hsorted, List.size_toArray, hi, hj, if_neg (mt List.eq_nil_of_length_eq_zero hne), List.getElem?_toArray]
  rfl

end Heightfield
