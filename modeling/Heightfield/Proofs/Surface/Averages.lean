import Mathlib.Algebra.Order.BigOperators.Group.List
import Heightfield.Proofs.Surface.Window
import Heightfield.Surface.Statistics
/-!
# Averages of the valid cells

With exact scalars a sum does not depend on how it is formed (`Sums.balancedSum`), so a mean is the sum of the numbers
over their count.  A median is half way between the two heights in the middle of the order, which are one for an odd
number, so at least half of the numbers lie on either side of it (`exists_median`).  Both see the numbers of the valid
cells only, in no order (`Grid.summarised`).
-/
namespace Heightfield

open Exact (number)

/-! ## Sums -/

section
variable {K : Type} [Field K]

/-- The scalars are numbers, and this is their sum. -/
def Sums (xs : List (Exact K)) (s : K) : Prop := ∃ vs : List K, xs = vs.map number ∧ s = vs.sum

namespace Sums

variable {x : Exact K} {xs ys : List (Exact K)} {a s t : K}

theorem nil : Sums ([] : List (Exact K)) 0 := ⟨[], rfl, List.sum_nil.symm⟩

theorem cons (h : Sums xs s) : Sums (number a :: xs) (a + s) := by
  obtain ⟨vs, rfl, rfl⟩ := h
  exact ⟨a :: vs, rfl, List.sum_cons.symm⟩

theorem of_cons (h : Sums (x :: xs) s) : ∃ a t, x = number a ∧ Sums xs t ∧ s = a + t := by
  obtain ⟨vs, hvs, rfl⟩ := h
  obtain ⟨a, ws, rfl, rfl, rfl⟩ := List.map_eq_cons_iff.1 hvs.symm
  exact ⟨a, ws.sum, rfl, ⟨ws, rfl, rfl⟩, List.sum_cons⟩

theorem split (h : Sums xs s) (k : ℕ) : ∃ t u, Sums (xs.take k) t ∧ Sums (xs.drop k) u ∧ s = t + u := by
  obtain ⟨vs, rfl, rfl⟩ := h
  exact ⟨(vs.take k).sum, (vs.drop k).sum, ⟨_, List.map_take.symm, rfl⟩, ⟨_, List.map_drop.symm, rfl⟩,
    (List.sum_take_add_sum_drop vs k).symm⟩

variable [LinearOrder K] [FloorRing K]

theorem foldl : ∀ {xs : List (Exact K)} {s : K} (a : K), Sums xs s → xs.foldl (· + ·) (number a) = number (a + s)
  | [], _, a, h => by
    obtain ⟨vs, hvs, rfl⟩ := h
    rw [List.map_eq_nil_iff.1 hvs.symm, List.sum_nil, add_zero]
    rfl
  | x :: xs, _, a, h => by
    obtain ⟨b, t, rfl, ht, rfl⟩ := h.of_cons
    rw [List.foldl_cons, Exact.number_add, ht.foldl, add_assoc]

theorem sumInOrder (h : Sums xs s) : Heightfield.sumInOrder xs = number s := by
  have hzero : -(Scalar.ofInt 0 : Exact K) = number 0 := by rw [Exact.ofInt_eq, Exact.neg_number, Int.cast_zero, neg_zero]
  rw [Heightfield.sumInOrder, hzero, h.foldl, zero_add]

theorem addNeighbours (h : Sums xs s) : Sums (Heightfield.addNeighbours xs) s := by
  induction xs using addNeighbours.induct generalizing s with
  | case1 x y xs ih =>
    obtain ⟨a, t, rfl, ht, rfl⟩ := h.of_cons
    obtain ⟨b, u, rfl, hu, rfl⟩ := ht.of_cons
    rw [Heightfield.addNeighbours, ← add_assoc]
    exact (ih hu).cons
  | case2 xs hshort =>
    rw [Heightfield.addNeighbours]
    · exact h
    · exact hshort

theorem zipWith : ∀ {xs ys : List (Exact K)} {s t : K}, Sums xs s → Sums ys t → xs.length = ys.length →
    Sums (List.zipWith (· + ·) xs ys) (s + t)
  | [], [], _, _, hs, ht, _ => by
    obtain ⟨vs, hvs, rfl⟩ := hs
    obtain ⟨ws, hws, rfl⟩ := ht
    rw [List.map_eq_nil_iff.1 hvs.symm, List.map_eq_nil_iff.1 hws.symm, List.sum_nil, add_zero]
    exact nil
  | x :: xs, y :: ys, _, _, hs, ht, h => by
    obtain ⟨a, s, rfl, hxs, rfl⟩ := hs.of_cons
    obtain ⟨b, t, rfl, hys, rfl⟩ := ht.of_cons
    rw [List.zipWith_cons_cons, add_add_add_comm]
    exact (zipWith hxs hys (Nat.succ.inj h)).cons

theorem sumBlocks (sums xs : List (Exact K)) : ∀ {s t : K}, sums.length = 8 → Sums sums s → Sums xs t →
    Heightfield.sumBlocks sums xs = number (s + t) := by
  induction sums, xs using sumBlocks.induct with
  | case1 sums a b c d e f g h xs ih =>
    intro s t hlength hsums hxs
    obtain ⟨block, rest, hblock, hrest, rfl⟩ := hxs.split 8
    have hzip := hsums.zipWith hblock hlength
    have hlength' : (List.zipWith (· + ·) sums [a, b, c, d, e, f, g, h]).length = 8 := by
      rw [List.length_zipWith, hlength]
      rfl
    rw [Heightfield.sumBlocks, ← add_assoc]
    exact ih hlength' hzip hrest
  | case2 sums xs hshort =>
    intro s t hlength hsums hxs
    rw [Heightfield.sumBlocks]
    · rw [hsums.addNeighbours.addNeighbours.addNeighbours.sumInOrder]
      exact hxs.foldl s
    · exact hshort

/-- **A sum that is formed in halves and blocks is the sum.** -/
theorem balancedSum (xs : List (Exact K)) : ∀ {s : K}, Sums xs s → Heightfield.balancedSum xs = number s := by
  induction xs using balancedSum.induct with
  | case1 xs hshort =>
    intro s h
    rw [Heightfield.balancedSum, if_pos hshort, h.sumInOrder]
  | case2 xs hlong hblock =>
    intro s h
    obtain ⟨t, u, ht, hu, rfl⟩ := h.split 8
    have htake : (xs.take 8).length = 8 := by rw [List.length_take]; omega
    rw [Heightfield.balancedSum, if_neg hlong, if_pos hblock, sumBlocks _ _ htake ht hu]
  | case3 xs hlong hblock ihtake ihdrop =>
    intro s h
    obtain ⟨t, u, ht, hu, rfl⟩ := h.split (halfOf xs.length)
    rw [Heightfield.balancedSum, if_neg hlong, if_neg hblock, ihtake ht, ihdrop hu, Exact.number_add]

end Sums

end

/-! ## Means and medians -/

section
variable {K : Type} [Field K] [LinearOrder K] [FloorRing K] {vs ws : List K}

theorem mean_number (vs : List K) : mean (vs.map number) = number (vs.sum / vs.length) := by
  cases hvs : vs with
  | nil => rw [List.sum_nil, zero_div, ← Int.cast_zero, ← Exact.ofInt_eq]; rfl
  | cons v ws =>
    have hne : ((v :: ws).length : K) ≠ 0 := Nat.cast_ne_zero.2 (Nat.succ_ne_zero _)
    have hsum : balancedSum ((v :: ws).map number) = number (v :: ws).sum := Sums.balancedSum _ ⟨_, rfl, rfl⟩
    rw [mean, if_neg (by simp), hsum, List.length_map, Exact.ofNat_eq, Exact.number_div hne]

theorem mergeSort_number (vs : List K) : (vs.map number).mergeSort Scalar.le = (sorted vs).map number :=
  (List.map_mergeSort fun a _ b _ => (Exact.le_number a b).symm).symm

variable [IsStrictOrderedRing K]

/-- The median is half way between two numbers, which are one if their count is odd. -/
theorem exists_median (hne : vs ≠ []) : ∃ a b, (sorted vs)[(vs.length - 1) / 2]? = some a ∧
    (sorted vs)[vs.length / 2]? = some b ∧ median (vs.map number) = number ((a + b) / 2) := by
  have hpos : 0 < vs.length := List.length_pos_iff.2 hne
  have hlength := length_sorted vs
  have hlow : (vs.length - 1) / 2 < (sorted vs).length := by omega
  have hhigh : vs.length / 2 < (sorted vs).length := by omega
  refine ⟨_, _, List.getElem?_eq_getElem hlow, List.getElem?_eq_getElem hhigh, ?_⟩
  unfold median
  dsimp only
  simp only [mergeSort_number, List.size_toArray, List.length_map, hlength, List.extract_toArray,
    List.extract_eq_take_drop, ← List.map_drop, ← List.map_take]
  split
  · rename_i hodd
    have hsame : (vs.length - 1) / 2 = vs.length / 2 := by omega
    have hone : ((sorted vs).drop (vs.length / 2)).take (vs.length / 2 + 1 - vs.length / 2) =
        [(sorted vs)[vs.length / 2]] := by
      rw [Nat.add_sub_cancel_left, List.drop_eq_getElem_cons hhigh, List.take_succ_cons, List.take_zero]
    have htwo : (2 : K) ≠ 0 := (zero_lt_two : (0 : K) < 2).ne'
    rw [hone, mean_number]
    simp only [hsame, List.sum_singleton, List.length_singleton, Nat.cast_one, div_one, ← two_mul,
      mul_div_cancel_left₀ _ htwo]
  · rename_i heven
    have hnext : vs.length / 2 - 1 + 1 = vs.length / 2 := by omega
    have hsame : (vs.length - 1) / 2 = vs.length / 2 - 1 := by omega
    have hcount : vs.length / 2 + 1 - (vs.length / 2 - 1) = 2 := by omega
    have htwo : ((sorted vs).drop (vs.length / 2 - 1)).take (vs.length / 2 + 1 - (vs.length / 2 - 1)) =
        [(sorted vs)[vs.length / 2 - 1], (sorted vs)[vs.length / 2]] := by
      rw [hcount, List.drop_eq_getElem_cons (by omega), List.drop_eq_getElem_cons (by omega)]
      simp only [hnext, List.take_succ_cons, List.take_zero]
    rw [htwo, mean_number]
    simp only [hsame, List.sum_cons, List.sum_nil, add_zero, List.length_cons, List.length_nil]
    norm_num

omit [IsStrictOrderedRing K] in
theorem ofValues_eq_of_perm (h : ws.Perm vs) : Channel.ofValues (ws.map number) = Channel.ofValues (vs.map number) := by
  have hmean : mean (ws.map number) = mean (vs.map number) := by
    rw [mean_number, mean_number, h.sum_eq, h.length_eq]
  have hmedian : median (ws.map number) = median (vs.map number) := by
    unfold median
    rw [mergeSort_number, mergeSort_number, sorted_eq_of_perm h]
  rw [Channel.ofValues, Channel.ofValues, hmean, hmedian]

/-! ## Averages -/

/-- The mean and the median of numbers.  They are within the range of the numbers, and at least half of these lie on
either side of the median. -/
structure IsAverage (vs : List K) (mean median : K) : Prop where
  mean_eq : mean = vs.sum / vs.length
  between : ∃ least greatest, IsLeast {v | v ∈ vs} least ∧ IsGreatest {v | v ∈ vs} greatest ∧
    mean ∈ Set.Icc least greatest ∧ median ∈ Set.Icc least greatest
  half_le : vs.length ≤ 2 * vs.countP fun v => decide (v ≤ median)
  half_ge : vs.length ≤ 2 * vs.countP fun v => decide (median ≤ v)

omit [FloorRing K] in
theorem mean_mem_Icc {least greatest : K} (hne : vs ≠ []) (hleast : IsLeast {v | v ∈ vs} least)
    (hgreatest : IsGreatest {v | v ∈ vs} greatest) : vs.sum / vs.length ∈ Set.Icc least greatest := by
  have hpos : (0 : K) < vs.length := Nat.cast_pos.2 (List.length_pos_iff.2 hne)
  have hlow := List.card_nsmul_le_sum vs least fun v hv => hleast.2 hv
  have hhigh := List.sum_le_card_nsmul vs greatest fun v hv => hgreatest.2 hv
  rw [nsmul_eq_mul, mul_comm] at hlow hhigh
  exact ⟨(le_div_iff₀ hpos).2 hlow, (div_le_iff₀ hpos).2 hhigh⟩

theorem exists_isAverage (hne : vs ≠ []) : ∃ mean median,
    Channel.ofValues (vs.map number) = ⟨number mean, number median⟩ ∧ IsAverage vs mean median := by
  obtain ⟨a, b, ha, hb, hmedian⟩ := exists_median hne
  have hpos : 0 < vs.length := List.length_pos_iff.2 hne
  have hlength := length_sorted vs
  have hfirst : (sorted vs)[0]? = some (sorted vs)[0] := List.getElem?_eq_getElem (by omega)
  have hlast : (sorted vs)[vs.length - 1]? = some (sorted vs)[vs.length - 1] := List.getElem?_eq_getElem (by omega)
  obtain ⟨hleast, hgreatest⟩ := isLeast_isGreatest_sorted hfirst hlast
  have hab : a ≤ b := le_of_getElem?_sorted ha hb (by omega)
  have hfirsta := le_of_getElem?_sorted hfirst ha (Nat.zero_le _)
  have hlastb := le_of_getElem?_sorted hb hlast (by omega)
  refine ⟨_, (a + b) / 2, by rw [Channel.ofValues, mean_number, hmedian], ?_⟩
  exact {
    mean_eq := rfl
    between := ⟨_, _, hleast, hgreatest, mean_mem_Icc hne hleast hgreatest, by linarith, by linarith⟩
    half_le := by
      have hcount := le_countP_between hfirst ha
      have hmono : (vs.countP fun v => decide ((sorted vs)[0] ≤ v ∧ v ≤ a)) ≤ vs.countP fun v => decide (v ≤ (a + b) / 2) :=
        List.countP_mono_left fun v _ h => decide_eq_true (by linarith [(of_decide_eq_true h).2])
      omega
    half_ge := by
      have hcount := le_countP_between hb hlast
      have hmono : (vs.countP fun v => decide (b ≤ v ∧ v ≤ (sorted vs)[vs.length - 1])) ≤
          vs.countP fun v => decide ((a + b) / 2 ≤ v) :=
        List.countP_mono_left fun v _ h => decide_eq_true (by linarith [(of_decide_eq_true h).1])
      omega }

/-- The channel holds the averages of the numbers, and zeros when there are none. -/
def Channel.Summarises (c : Channel (Exact K)) (vs : List K) : Prop :=
  vs = [] ∧ c = ⟨number 0, number 0⟩ ∨ ∃ mean median, c = ⟨number mean, number median⟩ ∧ IsAverage vs mean median

theorem summarises_ofValues (vs : List K) : (Channel.ofValues (vs.map number)).Summarises vs := by
  cases vs with
  | nil =>
    have hzero : (Scalar.ofInt 0 : Exact K) = number 0 := by rw [Exact.ofInt_eq, Int.cast_zero]
    have hmedian : median ([] : List (Exact K)) = Scalar.ofInt 0 := by
      simp [median, mean]
    exact Or.inl ⟨rfl, by rw [List.map_nil, Channel.ofValues, hmedian, hzero.symm]; rfl⟩
  | cons v vs => exact Or.inr (exists_isAverage (List.cons_ne_nil v vs))

end

/-! ## Cells -/

section
variable {K : Type} [Field K] [LinearOrder K] [FloorRing K]

def Complex.toNumbers? : Complex (Exact K) → Option (Complex K)
  | ⟨number a, number b⟩ => some ⟨a, b⟩
  | _ => none

/-- The cells of a grid over the complex plane, row by row. -/
def planeCells {α : Type} (rows imaginary : List (List α)) : List (Complex α) :=
  List.zipWith Complex.mk rows.flatten imaginary.flatten

/-- The cells that are finite in both parts. -/
def planeNumbers (rows imaginary : List (List (Exact K))) : List (Complex K) :=
  (planeCells rows imaginary).filterMap Complex.toNumbers?

/-- Cells that are alike, or neither is finite in both parts. -/
def Alike (z w : Complex (Exact K)) : Prop := z = w ∨ z.isFinite = false ∧ w.isFinite = false

theorem toNumbers?_eq_none : ∀ {z : Complex (Exact K)}, z.isFinite = false → z.toNumbers? = none
  | ⟨number _, number _⟩, h => nomatch h
  | ⟨number _, .infinite _⟩, _ | ⟨number _, .notANumber⟩, _ | ⟨.infinite _, _⟩, _ | ⟨.notANumber, _⟩, _ => rfl

theorem filter_isFinite_plane (zs : List (Complex (Exact K))) : zs.filter Complex.isFinite =
    (zs.filterMap Complex.toNumbers?).map fun z => ⟨number z.re, number z.im⟩ := by
  induction zs with
  | nil => rfl
  | cons z zs ih =>
    cases hz : z.isFinite with
    | false => rw [List.filter_cons_of_neg (by rw [hz]; decide), List.filterMap_cons_none (toNumbers?_eq_none hz), ih]
    | true =>
      obtain ⟨x, y⟩ := z
      obtain ⟨hx, hy⟩ := Bool.and_eq_true_iff.1 hz
      cases x <;> cases hx
      cases y <;> cases hy
      rw [List.filter_cons_of_pos hz, ih]
      rfl

/-! ## Statistics of a grid -/

theorem Statistics.eq_of {α : Type} {s t : Statistics α} (hheight : s.height = t.height)
    (himaginary : s.imaginary = t.imaginary) (htotal : s.total = t.total) (hvalid : s.valid = t.valid) : s = t := by
  cases s
  cases t
  cases hheight
  cases himaginary
  cases htotal
  cases hvalid
  rfl

theorem Statistics.valid_add_invalid {α : Type} (s : Statistics α) : s.valid + s.invalid = s.total :=
  Nat.add_sub_cancel' s.valid_le

namespace Grid

variable {g : Grid (Exact K)} {rows : List (List (Exact K))}

theorem statistics_real (h : g.imaginary = none) : g.statistics = .ofHeights g.height.flatten := by
  rw [statistics, h]

theorem statistics_plane (h : g.imaginary = some rows) : g.statistics = .ofNumbers (planeCells g.height rows) := by
  rw [statistics, h]
  rfl

theorem parts_real (h : g.imaginary = none) : g.statistics.height = .ofValues ((numbers g.height).map number) ∧
    g.statistics.imaginary = none ∧ g.statistics.total = g.height.flatten.length ∧
      g.statistics.valid = (numbers g.height).length := by
  rw [statistics_real h]
  refine ⟨congrArg Channel.ofValues (filter_isFinite_eq _), rfl, rfl, ?_⟩
  rw [← List.length_map number, numbers, ← filter_isFinite_eq]
  rfl

theorem parts_plane (h : g.imaginary = some rows) :
    g.statistics.height = .ofValues (((planeNumbers g.height rows).map Complex.re).map number) ∧
      g.statistics.imaginary = some (.ofValues (((planeNumbers g.height rows).map Complex.im).map number)) ∧
      g.statistics.total = (planeCells g.height rows).length ∧
      g.statistics.valid = (planeNumbers g.height rows).length := by
  have hfilter := filter_isFinite_plane (planeCells g.height rows)
  have hre := congrArg (List.map Complex.re) hfilter
  have him := congrArg (List.map Complex.im) hfilter
  rw [List.map_map] at hre him
  rw [statistics_plane h, List.map_map, List.map_map]
  refine ⟨congrArg Channel.ofValues hre, congrArg (fun vs => some (Channel.ofValues vs)) him, rfl, ?_⟩
  exact (congrArg List.length hfilter).trans (List.length_map _)

/-- The statistics of a real grid summarise its finite heights, and depend on nothing else but how many cells there
are. -/
structure RealSummary (g : Grid (Exact K)) : Prop where
  height : g.statistics.height.Summarises (numbers g.height)
  imaginary : g.statistics.imaginary = none
  total : g.statistics.total = g.height.flatten.length
  valid : g.statistics.valid = (numbers g.height).length
  count : g.statistics.valid + g.statistics.invalid = g.statistics.total
  determined : ∀ g' : Grid (Exact K), g'.imaginary = none → (numbers g'.height).Perm (numbers g.height) →
    g'.height.flatten.length = g.height.flatten.length → g'.statistics = g.statistics
  rearranged : ∀ g' : Grid (Exact K), g'.imaginary = none → g'.height.flatten.Perm g.height.flatten →
    g'.statistics = g.statistics

/-- The statistics of a grid over the complex plane summarise each channel of the cells that are finite in both, and
depend on nothing else but how many cells there are. -/
structure PlaneSummary (g : Grid (Exact K)) (rows : List (List (Exact K))) : Prop where
  height : g.statistics.height.Summarises ((planeNumbers g.height rows).map Complex.re)
  imaginary : ∃ c, g.statistics.imaginary = some c ∧ c.Summarises ((planeNumbers g.height rows).map Complex.im)
  total : g.statistics.total = (planeCells g.height rows).length
  valid : g.statistics.valid = (planeNumbers g.height rows).length
  count : g.statistics.valid + g.statistics.invalid = g.statistics.total
  determined : ∀ (g' : Grid (Exact K)) rows', g'.imaginary = some rows' →
    (planeNumbers g'.height rows').Perm (planeNumbers g.height rows) →
    (planeCells g'.height rows').length = (planeCells g.height rows).length → g'.statistics = g.statistics
  /-- Cells may change their places, and those that are not finite in both parts may change. -/
  rearranged : ∀ (g' : Grid (Exact K)) rows' cells, g'.imaginary = some rows' →
    (planeCells g'.height rows').Perm cells → List.Forall₂ Alike cells (planeCells g.height rows) →
    g'.statistics = g.statistics

theorem statistics_eq_of_perm_real {g g' : Grid (Exact K)} (h : g.imaginary = none) (h' : g'.imaginary = none)
    (hperm : (numbers g'.height).Perm (numbers g.height)) (hlength : g'.height.flatten.length = g.height.flatten.length) :
    g'.statistics = g.statistics := by
  obtain ⟨hheight, himaginary, htotal, hvalid⟩ := parts_real h
  obtain ⟨hheight', himaginary', htotal', hvalid'⟩ := parts_real h'
  refine Statistics.eq_of ?_ ?_ ?_ ?_
  · rw [hheight, hheight', ofValues_eq_of_perm hperm]
  · rw [himaginary, himaginary']
  · rw [htotal, htotal', hlength]
  · rw [hvalid, hvalid', hperm.length_eq]

theorem statistics_eq_of_perm_plane {g g' : Grid (Exact K)} {rows rows' : List (List (Exact K))}
    (h : g.imaginary = some rows) (h' : g'.imaginary = some rows')
    (hperm : (planeNumbers g'.height rows').Perm (planeNumbers g.height rows))
    (hlength : (planeCells g'.height rows').length = (planeCells g.height rows).length) :
    g'.statistics = g.statistics := by
  obtain ⟨hheight, himaginary, htotal, hvalid⟩ := parts_plane h
  obtain ⟨hheight', himaginary', htotal', hvalid'⟩ := parts_plane h'
  refine Statistics.eq_of ?_ ?_ ?_ ?_
  · rw [hheight, hheight', ofValues_eq_of_perm (hperm.map Complex.re)]
  · rw [himaginary, himaginary', ofValues_eq_of_perm (hperm.map Complex.im)]
  · rw [htotal, htotal', hlength]
  · rw [hvalid, hvalid', hperm.length_eq]

theorem filterMap_eq_of_alike {zs ws : List (Complex (Exact K))} (h : List.Forall₂ Alike zs ws) :
    zs.filterMap Complex.toNumbers? = ws.filterMap Complex.toNumbers? := by
  induction h with
  | nil => rfl
  | cons halike _ ih =>
    rcases halike with rfl | ⟨hz, hw⟩
    · rw [List.filterMap_cons, List.filterMap_cons, ih]
    · rw [List.filterMap_cons_none (toNumbers?_eq_none hz), List.filterMap_cons_none (toNumbers?_eq_none hw), ih]

variable [IsStrictOrderedRing K]

theorem realSummary (h : g.imaginary = none) : g.RealSummary := by
  obtain ⟨hheight, himaginary, htotal, hvalid⟩ := parts_real h
  exact {
    height := by rw [hheight]; exact summarises_ofValues _
    imaginary := himaginary
    total := htotal
    valid := hvalid
    count := Statistics.valid_add_invalid _
    determined := fun g' h' hperm hlength => statistics_eq_of_perm_real h h' hperm hlength
    rearranged := fun g' h' hperm => statistics_eq_of_perm_real h h' (hperm.filterMap _) hperm.length_eq }

theorem planeSummary (h : g.imaginary = some rows) : g.PlaneSummary rows := by
  obtain ⟨hheight, himaginary, htotal, hvalid⟩ := parts_plane h
  exact {
    height := by rw [hheight]; exact summarises_ofValues _
    imaginary := ⟨_, himaginary, summarises_ofValues _⟩
    total := htotal
    valid := hvalid
    count := Statistics.valid_add_invalid _
    determined := fun g' rows' h' hperm hlength => statistics_eq_of_perm_plane h h' hperm hlength
    rearranged := fun g' rows' cells h' hperm halike => by
      refine statistics_eq_of_perm_plane h h' ?_ (hperm.length_eq.trans halike.length_eq)
      rw [planeNumbers, planeNumbers, ← filterMap_eq_of_alike halike]
      exact hperm.filterMap _ }

/-- **Statistics summarise the valid cells**, and nothing else. -/
theorem summarised (g : Grid (Exact K)) : match g.imaginary with
    | none => g.RealSummary
    | some rows => g.PlaneSummary rows := by
  split
  · rename_i h
    exact realSummary h
  · rename_i rows h
    exact planeSummary h

end Grid

end

/-- Two cells with numbers, and between them one for each part in which a cell is not finite. -/
def patchy : Grid (Exact ℚ) where
  xs := [number 0, number 1, number 2, number 3]
  ys := [number 0]
  height := [[number 3, number 1, .infinite true, number 7]]
  imaginary := some [[number 1, .notANumber, number 2, number 5]]

theorem summarised_patchy : patchy.PlaneSummary [[number 1, .notANumber, number 2, number 5]] ∧
    planeNumbers patchy.height [[number 1, .notANumber, number 2, number 5]] = [⟨3, 1⟩, ⟨7, 5⟩] :=
  ⟨Grid.summarised patchy, rfl⟩

end Heightfield
