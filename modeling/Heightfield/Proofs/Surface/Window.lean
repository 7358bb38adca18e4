import Mathlib.Data.Rat.Floor
import Mathlib.Tactic.Linarith
import Heightfield.Proofs.Number.Exact
import Heightfield.Proofs.Surface.Selection
/-!
# The window of a percentage

With exact scalars the heights kept for a percentage lie between two positions that mirror each other
(`Limits.exists_indexes_number`), so a window holds its percentage of the heights (`le_countP_between`), and a greater
percentage has the wider window.  Limits are found from the sorted heights, so they do not depend on where the heights
stand, and move with them under affine maps (`Grid.exists_isTrimmed`).
-/
namespace Heightfield

open Exact (number)

section
variable {K : Type}

/-! ## Finite heights -/

def Exact.toNumber? : Exact K → Option K
  | number a => some a
  | _ => none

/-- The finite heights, row by row. -/
def numbers (rows : List (List (Exact K))) : List K := rows.flatten.filterMap Exact.toNumber?

theorem numbers_map {f : Exact K → Exact K} {k : K → K} (h : ∀ v, (f v).toNumber? = v.toNumber?.map k)
    (rows : List (List (Exact K))) : numbers (rows.map (·.map f)) = (numbers rows).map k := by
  rw [numbers, numbers, ← List.map_flatten, List.filterMap_map, List.map_filterMap]
  exact List.filterMap_congr fun v _ => h v

variable [Field K] [LinearOrder K] [FloorRing K]

theorem filter_isFinite_eq (vs : List (Exact K)) : vs.filter Scalar.isFinite = (vs.filterMap Exact.toNumber?).map number := by
  induction vs with
  | nil => rfl
  | cons v vs ih =>
    cases v with
    | number a => exact congrArg (number a :: ·) ih
    | infinite => exact ih
    | notANumber => exact ih

theorem Limits.sortedHeights_eq (rows : List (List (Exact K))) : sortedHeights rows = (sorted (numbers rows)).map number := by
  rw [sortedHeights, filter_isFinite_eq]
  exact (List.map_mergeSort fun a _ b _ => (Exact.le_number a b).symm).symm

namespace Limits

/-! ## Limits of numbers -/

theorem padded_number (a b : K) :
    padded (number a) (number b) = ⟨number (a - (b - a) / 10), number (b + (b - a) / 10)⟩ := by
  have hpadding : (padding : Exact K) = number (1 / 10) := congrArg number (by norm_num)
  simp only [padded, hpadding, Exact.number_sub, Exact.number_mul, Exact.number_add, mul_one_div]

section
variable {rows : List (List (Exact K))} {p a b : K} {i j : ℕ}

theorem selects_number (hlower : lowerIndex (numbers rows).length (number p) = .ok i)
    (hupper : upperIndex (numbers rows).length (number p) = .ok j) (ha : (sorted (numbers rows))[i]? = some a)
    (hb : (sorted (numbers rows))[j]? = some b) : Selects rows (number p) (number a) (number b) := by
  have hlength : (sortedHeights rows).length = (numbers rows).length := by
    rw [sortedHeights_eq, List.length_map, length_sorted]
  refine ⟨i, j, by rw [hlength, hlower], by rw [hlength, hupper], ?_, ?_⟩
  · rw [sortedHeights_eq, List.getElem?_map, ha]
    rfl
  · rw [sortedHeights_eq, List.getElem?_map, hb]
    rfl

theorem ofHeights_number (hlower : lowerIndex (numbers rows).length (number p) = .ok i)
    (hupper : upperIndex (numbers rows).length (number p) = .ok j) (ha : (sorted (numbers rows))[i]? = some a)
    (hb : (sorted (numbers rows))[j]? = some b) :
    ofHeights rows (number p) = .ok ⟨number (a - (b - a) / 10), number (b + (b - a) / 10)⟩ := by
  rw [(selects_number hlower hupper ha hb).ofHeights_eq, padded_number]

end

theorem ofHeights_eq_of_perm {rows rows' : List (List (Exact K))} (h : (numbers rows').Perm (numbers rows)) (x : Exact K) :
    ofHeights rows' x = ofHeights rows x := by
  unfold ofHeights
  rw [sortedHeights_eq, sortedHeights_eq, sorted_eq_of_perm h]

/-! ## Positions -/

theorem lowerIndex_number (n : ℕ) (p : K) : lowerIndex n (number p) = .ok (clampIndex n ⌊n * (100 - p) / 200⌋) := by
  have hne : ((200 : ℤ) : K) ≠ 0 := by norm_num
  have hfloor : ∀ x : K, Scalar.floor? (number x) = some ⌊x⌋ := fun _ => rfl
  simp only [lowerIndex, Exact.ofNat_eq, Exact.ofInt_eq, Exact.number_sub, Exact.number_mul, Exact.number_div hne, hfloor, position,
    Except.map]
  norm_num

variable [IsStrictOrderedRing K] {n : ℕ} {p : K}

theorem upperIndex_number (n : ℕ) (p : K) : upperIndex n (number p) = .ok (clampIndex n (⌈n * (100 + p) / 200⌉ - 1)) := by
  have hne : ((200 : ℤ) : K) ≠ 0 := by norm_num
  have hceil : ∀ x : K, Scalar.ceil? (number x) = some ⌈x⌉ := fun x => by
    rw [← neg_neg ⌈x⌉, ← Int.floor_neg]
    rfl
  simp only [upperIndex, Exact.ofNat_eq, Exact.ofInt_eq, Exact.number_add, Exact.number_mul, Exact.number_div hne, hceil, position,
    Except.map]
  norm_num

/-- Both positions are rounded, one down and the other up, and mirror each other all the same. -/
theorem ceil_eq_sub_floor (n : ℕ) (p : K) : ⌈n * (100 + p) / 200⌉ = (n : ℤ) - ⌊n * (100 - p) / 200⌋ := by
  have hmirror : (n : K) * (100 + p) / 200 = -((n : K) * (100 - p) / 200 - n) := by ring
  rw [hmirror, Int.ceil_neg, Int.floor_sub_natCast]
  ring

theorem clampIndex_eq {k : ℤ} {i : ℕ} (hk : k = i) (hi : i < n) : clampIndex n k = i := by
  unfold clampIndex
  omega

/-- **The positions for a percentage** mirror each other, the first before the middle. -/
theorem exists_indexes_number (hn : n ≠ 0) (hp : 0 < p) (hle : p ≤ 100) : ∃ i : ℕ,
    (i : ℤ) = ⌊n * (100 - p) / 200⌋ ∧ 2 * i < n ∧ lowerIndex n (number p) = .ok i ∧
      upperIndex n (number p) = .ok (n - 1 - i) := by
  have hpos : (0 : K) < n := Nat.cast_pos.2 (Nat.pos_of_ne_zero hn)
  have hnonneg : 0 ≤ ⌊(n : K) * (100 - p) / 200⌋ := Int.floor_nonneg.2 (by
    have hdifference : 0 ≤ 100 - p := sub_nonneg.2 hle
    positivity)
  obtain ⟨i, hi⟩ := Int.eq_ofNat_of_zero_le hnonneg
  have hmiddle : 2 * i < n := by
    -- less than half is cut off at either end, since the percentage is not zero
    have hfloor := Int.floor_le ((n : K) * (100 - p) / 200)
    rw [hi, Int.cast_natCast, le_div_iff₀ (by norm_num)] at hfloor
    have hlt : (2 * i : K) < n := by nlinarith
    exact_mod_cast hlt
  refine ⟨i, hi.symm, hmiddle, ?_, ?_⟩
  · rw [lowerIndex_number, clampIndex_eq hi (by omega)]
  · rw [upperIndex_number, ceil_eq_sub_floor, clampIndex_eq (i := n - 1 - i) (by omega) (by omega)]

end Limits

end

/-! ## The window of a grid -/

section
variable {K : Type} [Field K] [LinearOrder K] [FloorRing K]

namespace Grid

/-- The limits of the grid are those of a trimmed window: the position of the first height kept is `i`, the first and
the last height kept are `a` and `b`, and the limits `l` and `u`. -/
structure IsTrimmed (g : Grid (Exact K)) (p : K) (i : ℕ) (a b l u : K) : Prop where
  /-- The share that is left out is cut off in halves. -/
  index_eq : (i : ℤ) = ⌊(numbers g.height).length * (100 - p) / 200⌋
  lowerIndex_eq : Limits.lowerIndex (numbers g.height).length (number p) = .ok i
  /-- The positions mirror each other. -/
  upperIndex_eq : Limits.upperIndex (numbers g.height).length (number p) = .ok ((numbers g.height).length - 1 - i)
  index_le : i ≤ (numbers g.height).length - 1 - i
  selects : Limits.Selects g.height (number p) (number a) (number b)
  /-- The window holds its percentage of the heights. -/
  covers : (numbers g.height).length * p / 100 ≤ (numbers g.height).countP fun v => decide (a ≤ v ∧ v ≤ b)
  limits_eq : g.limits (number p) = .ok ⟨number l, number u⟩
  /-- The limits enclose the window. -/
  lower_le : l ≤ a
  le : a ≤ b
  le_upper : b ≤ u
  /-- The limits for a greater percentage enclose these. -/
  nested : ∀ q, p ≤ q → q ≤ 100 → ∃ l' u', g.limits (number q) = .ok ⟨number l', number u'⟩ ∧ l' ≤ l ∧ u ≤ u'
  /-- A hundred per cent are all heights, and the limits lie a tenth of their range outside. -/
  all : p = 100 → ∃ least greatest, IsLeast {v | v ∈ numbers g.height} least ∧
    IsGreatest {v | v ∈ numbers g.height} greatest ∧ l = least - (greatest - least) / 10 ∧
      u = greatest + (greatest - least) / 10
  /-- The limits move with the heights, and change sides if these are turned over. -/
  affine : ∀ c d (g' : Grid (Exact K)), g'.height = g.height.map (·.map fun v => number c * v + number d) →
    g'.limits (number p) =
      .ok (if c < 0 then ⟨number (c * u + d), number (c * l + d)⟩ else ⟨number (c * l + d), number (c * u + d)⟩)
  /-- It does not matter where the heights stand, and what stands among them. -/
  arranged : ∀ g' : Grid (Exact K), (numbers g'.height).Perm (numbers g.height) → ∀ x, g'.limits x = g.limits x

variable [IsStrictOrderedRing K] {g : Grid (Exact K)} {p : K}

/-- The heights that are kept, and the limits. -/
theorem exists_window (hne : numbers g.height ≠ []) (hp : 0 < p) (hle : p ≤ 100) : ∃ (i : ℕ) (a b : K),
    (i : ℤ) = ⌊(numbers g.height).length * (100 - p) / 200⌋ ∧ 2 * i < (numbers g.height).length ∧
    Limits.lowerIndex (numbers g.height).length (number p) = .ok i ∧
    Limits.upperIndex (numbers g.height).length (number p) = .ok ((numbers g.height).length - 1 - i) ∧
    (sorted (numbers g.height))[i]? = some a ∧ (sorted (numbers g.height))[(numbers g.height).length - 1 - i]? = some b := by
  obtain ⟨i, hindex, hmiddle, hlower, hupper⟩ :=
    Limits.exists_indexes_number (mt List.eq_nil_of_length_eq_zero hne) hp hle
  have hlength := length_sorted (numbers g.height)
  have hi : i < (sorted (numbers g.height)).length := by omega
  have hj : (numbers g.height).length - 1 - i < (sorted (numbers g.height)).length := by omega
  exact ⟨i, _, _, hindex, hmiddle, hlower, hupper, List.getElem?_eq_getElem hi, List.getElem?_eq_getElem hj⟩

omit [IsStrictOrderedRing K] in
theorem toNumber?_affine (c d : K) (v : Exact K) :
    (number c * v + number d).toNumber? = v.toNumber?.map (fun a => c * a + d) := by
  cases v with
  | number a => rfl
  | infinite s =>
    show Exact.toNumber? ((if c = 0 then Exact.notANumber else Exact.infinite _) + number d) = none
    split_ifs <;> rfl
  | notANumber => rfl

/-- **Limits move with the heights.** -/
theorem ofHeights_affine {rows rows' : List (List (Exact K))} {c d : K} (h : numbers rows' = (numbers rows).map fun v => c * v + d)
    {i : ℕ} {a b : K} (hi : i < (numbers rows).length)
    (hlower : Limits.lowerIndex (numbers rows).length (number p) = .ok i)
    (hupper : Limits.upperIndex (numbers rows).length (number p) = .ok ((numbers rows).length - 1 - i))
    (ha : (sorted (numbers rows))[i]? = some a) (hb : (sorted (numbers rows))[(numbers rows).length - 1 - i]? = some b) :
    Limits.ofHeights rows' (number p) =
      .ok (if c < 0 then ⟨number (c * (b + (b - a) / 10) + d), number (c * (a - (b - a) / 10) + d)⟩
        else ⟨number (c * (a - (b - a) / 10) + d), number (c * (b + (b - a) / 10) + d)⟩) := by
  have hlength : (numbers rows').length = (numbers rows).length := by rw [h, List.length_map]
  rw [← hlength] at hlower
  have hupper' : Limits.upperIndex (numbers rows').length (number p) = .ok ((numbers rows).length - 1 - i) := by
    rw [hlength, hupper]
  by_cases hc : c < 0
  · have hanti : Antitone fun v => c * v + d := fun v w hvw => by nlinarith
    have hback : (numbers rows).length - 1 - ((numbers rows).length - 1 - i) = i := by omega
    have hfirst := getElem?_sorted_map_of_antitone hanti hi
    have hopposite : (numbers rows).length - 1 - i < (numbers rows).length := by omega
    have hlast := getElem?_sorted_map_of_antitone hanti hopposite
    rw [← h, hb] at hfirst
    rw [← h, hback, ha] at hlast
    have hl : c * b + d - (c * a + d - (c * b + d)) / 10 = c * (b + (b - a) / 10) + d := by ring
    have hu : c * a + d + (c * a + d - (c * b + d)) / 10 = c * (a - (b - a) / 10) + d := by ring
    rw [if_pos hc, Limits.ofHeights_number hlower hupper' hfirst hlast, hl, hu]
  · have hmono : Monotone fun v => c * v + d := fun v w hvw => by nlinarith
    have hmap : ∀ k, (sorted (numbers rows'))[k]? = ((sorted (numbers rows))[k]?).map fun v => c * v + d := fun k => by
      rw [h, sorted_map_of_monotone hmono, List.getElem?_map]
    have hfirst := hmap i
    have hlast := hmap ((numbers rows).length - 1 - i)
    rw [ha] at hfirst
    rw [hb] at hlast
    have hl : c * a + d - (c * b + d - (c * a + d)) / 10 = c * (a - (b - a) / 10) + d := by ring
    have hu : c * b + d + (c * b + d - (c * a + d)) / 10 = c * (b + (b - a) / 10) + d := by ring
    rw [if_neg hc, Limits.ofHeights_number hlower hupper' hfirst hlast, hl, hu]

/-- **The limits for a percentage are those of a trimmed window.** -/
theorem exists_isTrimmed (hne : numbers g.height ≠ []) (hp : 0 < p) (hle : p ≤ 100) :
    ∃ i a b l u, g.IsTrimmed p i a b l u := by
  obtain ⟨i, a, b, hindex, hmiddle, hlower, hupper, ha, hb⟩ := exists_window hne hp hle
  have hab : a ≤ b := le_of_getElem?_sorted ha hb (by omega)
  have hmargin : 0 ≤ (b - a) / 10 := div_nonneg (sub_nonneg.2 hab) (by norm_num)
  refine ⟨i, a, b, a - (b - a) / 10, b + (b - a) / 10, ?_⟩
  exact {
    index_eq := hindex
    lowerIndex_eq := hlower
    upperIndex_eq := hupper
    index_le := by omega
    selects := Limits.selects_number hlower hupper ha hb
    covers := by
      have hcount := le_countP_between ha hb
      have hfloor := Int.floor_le ((numbers g.height).length * (100 - p) / 200)
      rw [← hindex, Int.cast_natCast] at hfloor
      have hkept : ((numbers g.height).length : K) ≤
          ((numbers g.height).countP fun v => decide (a ≤ v ∧ v ≤ b) : ℕ) + 2 * i := by
        exact_mod_cast (by omega)
      linarith
    limits_eq := Limits.ofHeights_number hlower hupper ha hb
    lower_le := by linarith
    le := hab
    le_upper := by linarith
    nested := fun q hpq hq => by
      obtain ⟨i', a', b', hindex', hmiddle', hlower', hupper', ha', hb'⟩ := exists_window hne (hp.trans_le hpq) hq
      have hii : (i' : ℤ) ≤ i := by
        rw [hindex, hindex']
        refine Int.floor_le_floor ?_
        gcongr
      have hlow : a' ≤ a := le_of_getElem?_sorted ha' ha (by omega)
      have hhigh : b ≤ b' := le_of_getElem?_sorted hb hb' (by omega)
      exact ⟨_, _, Limits.ofHeights_number hlower' hupper' ha' hb', by linarith, by linarith⟩
    all := by
      rintro rfl
      obtain rfl : i = 0 := by
        rw [sub_self, mul_zero, zero_div, Int.floor_zero] at hindex
        exact_mod_cast hindex
      obtain ⟨hleast, hgreatest⟩ := isLeast_isGreatest_sorted ha hb
      exact ⟨a, b, hleast, hgreatest, rfl, rfl⟩
    affine := fun c d g' hg' => by
      rw [Grid.limits, hg']
      exact ofHeights_affine (numbers_map (toNumber?_affine c d) _) (by omega) hlower hupper ha hb
    arranged := fun g' hperm x => Limits.ofHeights_eq_of_perm hperm x }

end Grid

end

/-- Three heights and a cell without one. -/
def threeHeights : Grid (Exact ℚ) where
  xs := [number 0, number 1]
  ys := [number 0, number 1]
  height := [[number 3, .notANumber], [number 1, number 2]]
  imaginary := none

theorem exists_isTrimmed_threeHeights : numbers threeHeights.height ≠ [] ∧ (0 : ℚ) < 50 ∧ (50 : ℚ) ≤ 100 ∧
    ∃ i a b l u, threeHeights.IsTrimmed 50 i a b l u := by
  have hne : numbers threeHeights.height ≠ [] := List.cons_ne_nil _ _
  exact ⟨hne, by norm_num, by norm_num, Grid.exists_isTrimmed hne (by norm_num) (by norm_num)⟩

end Heightfield
