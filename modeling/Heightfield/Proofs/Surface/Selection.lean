import Mathlib.Data.List.Sort
import Mathlib.Order.Bounds.Basic
import Heightfield.Surface.Limits
/-!
# The heights that limits are chosen from

Limits lie about two of the sorted heights (`Limits.Selects`).  A map that keeps the order goes through sorting
(`sorted_map_of_monotone`), one that reverses the order reverses the sorted list too (`sorted_map_of_antitone`).
-/
namespace Heightfield

/-! ## Sorted lists -/

section
variable {K L : Type} [LinearOrder K] [LinearOrder L]

def sorted (vs : List K) : List K := vs.mergeSort (· ≤ ·)

theorem sorted_perm (vs : List K) : (sorted vs).Perm vs := vs.mergeSort_perm _

theorem sortedLE_sorted (vs : List K) : (sorted vs).SortedLE := List.sortedLE_mergeSort

theorem length_sorted (vs : List K) : (sorted vs).length = vs.length := (sorted_perm vs).length_eq

theorem sorted_eq_of_perm {vs ws : List K} (h : vs.Perm ws) : sorted vs = sorted ws :=
  ((sorted_perm vs).trans (h.trans (sorted_perm ws).symm)).eq_of_sortedLE (sortedLE_sorted vs) (sortedLE_sorted ws)

theorem le_of_getElem?_sorted {vs : List K} {i j : ℕ} {a b : K} (ha : (sorted vs)[i]? = some a) (hb : (sorted vs)[j]? = some b)
    (hij : i ≤ j) : a ≤ b := by
  obtain ⟨hi, rfl⟩ := List.getElem?_eq_some_iff.1 ha
  obtain ⟨hj, rfl⟩ := List.getElem?_eq_some_iff.1 hb
  exact (sortedLE_sorted vs).getElem_le_getElem_of_le hij

theorem isLeast_isGreatest_sorted {vs : List K} {a b : K} (ha : (sorted vs)[0]? = some a)
    (hb : (sorted vs)[vs.length - 1]? = some b) : IsLeast {v | v ∈ vs} a ∧ IsGreatest {v | v ∈ vs} b := by
  have hmem : ∀ {v}, v ∈ sorted vs ↔ v ∈ vs := (sorted_perm vs).mem_iff
  have hbetween : ∀ v ∈ vs, a ≤ v ∧ v ≤ b := by
    intro v hv
    obtain ⟨k, hk⟩ := List.mem_iff_getElem?.1 (hmem.2 hv)
    obtain ⟨hlt, -⟩ := List.getElem?_eq_some_iff.1 hk
    rw [length_sorted] at hlt
    exact ⟨le_of_getElem?_sorted ha hk (Nat.zero_le k), le_of_getElem?_sorted hk hb (by omega)⟩
  exact ⟨⟨hmem.1 (List.mem_of_getElem? ha), fun v hv => (hbetween v hv).1⟩,
    ⟨hmem.1 (List.mem_of_getElem? hb), fun v hv => (hbetween v hv).2⟩⟩

/-- As many as stand from one position to another lie between the values there. -/
theorem le_countP_between {vs : List K} {i j : ℕ} {a b : K} (ha : (sorted vs)[i]? = some a) (hb : (sorted vs)[j]? = some b) :
    j + 1 - i ≤ vs.countP fun v => decide (a ≤ v ∧ v ≤ b) := by
  obtain ⟨hj, -⟩ := List.getElem?_eq_some_iff.1 hb
  have hbetween : ∀ v ∈ ((sorted vs).drop i).take (j + 1 - i), decide (a ≤ v ∧ v ≤ b) = true := by
    intro v hv
    obtain ⟨k, hk⟩ := List.mem_iff_getElem?.1 hv
    obtain ⟨hlt, -⟩ := List.getElem?_eq_some_iff.1 hk
    rw [List.length_take, List.length_drop] at hlt
    rw [List.getElem?_take_of_lt (by omega), List.getElem?_drop] at hk
    exact decide_eq_true ⟨le_of_getElem?_sorted ha hk (by omega), le_of_getElem?_sorted hk hb (by omega)⟩
  have hlength : (((sorted vs).drop i).take (j + 1 - i)).length = j + 1 - i := by
    rw [List.length_take, List.length_drop]
    omega
  calc j + 1 - i = (((sorted vs).drop i).take (j + 1 - i)).countP fun v => decide (a ≤ v ∧ v ≤ b) := by
        rw [List.countP_eq_length.2 hbetween, hlength]
    _ ≤ (sorted vs).countP fun v => decide (a ≤ v ∧ v ≤ b) :=
        ((List.take_sublist _ _).trans (List.drop_sublist _ _)).countP_le
    _ = vs.countP fun v => decide (a ≤ v ∧ v ≤ b) := (sorted_perm vs).countP_eq _

theorem sorted_map_perm (f : K → L) (vs : List K) : (sorted (vs.map f)).Perm ((sorted vs).map f) :=
  (sorted_perm _).trans ((sorted_perm vs).map f).symm

/-- **Sorting goes through a map that keeps the order.** -/
theorem sorted_map_of_monotone {f : K → L} (hf : Monotone f) (vs : List K) : sorted (vs.map f) = (sorted vs).map f := by
  have hmap : ((sorted vs).map f).Pairwise (· ≤ ·) := (sortedLE_sorted vs).pairwise.map f fun _ _ h => hf h
  exact (sorted_map_perm f vs).eq_of_sortedLE (sortedLE_sorted _) hmap.sortedLE

theorem sorted_map_of_antitone {f : K → L} (hf : Antitone f) (vs : List K) :
    sorted (vs.map f) = ((sorted vs).map f).reverse := by
  have hmap : ((sorted vs).map f).Pairwise (· ≥ ·) := (sortedLE_sorted vs).pairwise.map f fun _ _ h => hf h
  exact (sorted_map_perm f vs).eq_reverse_of_sortedLE_of_sortedGE (sortedLE_sorted _) hmap.sortedGE

/-- Where the order is turned over, each position holds what the one opposite did. -/
theorem getElem?_sorted_map_of_antitone {f : K → L} (hf : Antitone f) {vs : List K} {k : ℕ} (hk : k < vs.length) :
    (sorted (vs.map f))[k]? = ((sorted vs)[vs.length - 1 - k]?).map f := by
  have hlength : ((sorted vs).map f).length = vs.length := by rw [List.length_map, length_sorted]
  rw [sorted_map_of_antitone hf, List.getElem?_reverse (by rwa [hlength]), hlength, List.getElem?_map]

end

/-! ## The selected heights -/

namespace Limits

variable {α : Type} [Scalar α] {rows : List (List α)} {percentile : α} {n i : ℕ}

/-- The heights at the two positions for a percentile. -/
def Selects (rows : List (List α)) (percentile a b : α) : Prop :=
  ∃ i j, lowerIndex (sortedHeights rows).length percentile = .ok i ∧
    upperIndex (sortedHeights rows).length percentile = .ok j ∧
    (sortedHeights rows)[i]? = some a ∧ (sortedHeights rows)[j]? = some b

/-- **The limits are the selected heights, padded.** -/
theorem Selects.ofHeights_eq {a b : α} (h : Selects rows percentile a b) : ofHeights rows percentile = .ok (padded a b) := by
  obtain ⟨i, j, hi, hj, ha, hb⟩ := h
  have hne : (sortedHeights rows).length ≠ 0 := by
    intro hnil
    rw [List.eq_nil_of_length_eq_zero hnil, List.getElem?_nil] at ha
    cases ha
  unfold ofHeights
  simp only [List.size_toArray, if_neg hne, hi, hj, List.getElem?_toArray]
  show Except.ok (padded ((sortedHeights rows)[i]?.getD _) ((sortedHeights rows)[j]?.getD _)) = _
  rw [ha, hb, Option.getD_some, Option.getD_some]

theorem ofHeights_of_error {e : LimitsError} (hn : (sortedHeights rows).length ≠ 0)
    (h : lowerIndex (sortedHeights rows).length percentile = .error e ∨
      ∃ i, lowerIndex (sortedHeights rows).length percentile = .ok i ∧
        upperIndex (sortedHeights rows).length percentile = .error e) : ofHeights rows percentile = .error e := by
  unfold ofHeights
  simp only [List.size_toArray, if_neg hn]
  rcases h with h | ⟨i, hi, h⟩
  · rw [h]
    rfl
  · rw [hi, h]
    rfl

theorem clampIndex_lt (hn : n ≠ 0) (k : ℤ) : clampIndex n k < n := by
  unfold clampIndex
  omega

theorem lt_of_map_clampIndex {e : Except LimitsError ℤ} {k : ℤ → ℤ} (hn : n ≠ 0)
    (h : e.map (fun m => clampIndex n (k m)) = .ok i) : i < n := by
  cases e with
  | error => cases h
  | ok m =>
    cases h
    exact clampIndex_lt hn _

/-- **Two heights are selected wherever the positions are numbers.** -/
theorem exists_selects {i j : ℕ} (hn : (sortedHeights rows).length ≠ 0)
    (hi : lowerIndex (sortedHeights rows).length percentile = .ok i)
    (hj : upperIndex (sortedHeights rows).length percentile = .ok j) : ∃ a b, Selects rows percentile a b := by
  have hilt : i < (sortedHeights rows).length := lt_of_map_clampIndex (k := id) hn hi
  have hjlt : j < (sortedHeights rows).length := lt_of_map_clampIndex (k := (· - 1)) hn hj
  exact ⟨_, _, i, j, hi, hj, List.getElem?_eq_getElem hilt, List.getElem?_eq_getElem hjlt⟩

end Limits

end Heightfield
