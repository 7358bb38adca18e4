import Heightfield.Proofs.Number.Bounded
import Heightfield.Proofs.Surface.Channels
/-!
# The positions of limits

Limits are chosen from the sorted heights at two positions, which are computed before they are moved into range.  They are
numbers, and limits can be chosen, unless they overflow (`Limits.exists_ofHeights`), and they do not for percentages
(`Limits.placed_of_bounded`).
-/
namespace Heightfield

open Double (value Bounded Bound)

namespace Limits

/-- The positions of the limits of `n` heights do not overflow. -/
def Placed (n : ℕ) (percentile : Float) : Prop :=
  (Scalar.ofNat n * (Scalar.ofInt 100 - percentile)).isFinite = true ∧
    (Scalar.ofNat n * (Scalar.ofInt 100 + percentile)).isFinite = true

instance (n : ℕ) (percentile : Float) : Decidable (Placed n percentile) := inferInstanceAs (Decidable (_ ∧ _))

variable {n : ℕ} {percentile x : Float}

theorem isFinite_position (hx : x.isFinite = true) : (x / Scalar.ofInt 200).isFinite = true := by
  obtain ⟨hfinite, hvalue⟩ := Double.value_ofInt (n := 200) (by norm_num)
  have hne : value (Scalar.ofInt 200) ≠ 0 := by rw [hvalue]; norm_num
  refine (Double.rounds_div hx hfinite hne ?_).isFinite
  rw [hvalue, abs_div]
  refine (div_le_self (abs_nonneg _) (by norm_num)).trans (Double.abs_value_le_greatest hx)

theorem exists_indexes (h : Placed n percentile) :
    ∃ i j, lowerIndex n percentile = .ok i ∧ upperIndex n percentile = .ok j := by
  have hfloor := Double.floor?_eq (isFinite_position h.1)
  obtain ⟨hneg, -⟩ := Double.value_neg (isFinite_position h.2)
  have hceil := Double.floor?_eq hneg
  generalize ⌊value _⌋ = k at hfloor
  generalize ⌊value _⌋ = l at hceil
  have hlower : lowerIndex n percentile = .ok (clampIndex n k) := by
    simp only [lowerIndex, hfloor, position, Except.map]
  have hupper : upperIndex n percentile = .ok (clampIndex n (-l - 1)) := by
    simp only [upperIndex, Scalar.ceil?, hceil, Option.map_some, position, Except.map]
  exact ⟨_, _, hlower, hupper⟩

/-- **Limits can be chosen unless their positions overflow.** -/
theorem exists_ofHeights {rows : List (List Float)} (h : Placed (finiteCells rows).length percentile) :
    ∃ l, ofHeights rows percentile = .ok l := by
  have hlength : (sortedHeights rows).toArray.size = (finiteCells rows).length := by
    rw [List.size_toArray, sortedHeights, List.length_mergeSort]
    rfl
  unfold ofHeights
  dsimp only
  split
  · exact ⟨_, rfl⟩
  · obtain ⟨i, j, hlower, hupper⟩ := exists_indexes h
    rw [hlength, hlower, hupper]
    exact ⟨_, rfl⟩

theorem ofHeights_eq_error {rows : List (List Float)} {e : LimitsError} (hne : (finiteCells rows).length ≠ 0)
    (h : lowerIndex (finiteCells rows).length percentile = .error e) : ofHeights rows percentile = .error e := by
  have hlength : (sortedHeights rows).toArray.size = (finiteCells rows).length := by
    rw [List.size_toArray, sortedHeights, List.length_mergeSort]
    rfl
  unfold ofHeights
  dsimp only
  rw [hlength, if_neg hne, h]
  rfl

/-- A single height needs only its own positions. -/
theorem exists_ofHeights_of_length_le {rows : List (List Float)} (hlength : (finiteCells rows).length ≤ 1)
    (h : Placed 1 percentile) : ∃ l, ofHeights rows percentile = .ok l := by
  rcases Nat.le_one_iff_eq_zero_or_eq_one.1 hlength with hzero | hone
  · exact ⟨_, ofHeights_of_finiteCells_eq_nil (List.eq_nil_of_length_eq_zero hzero) percentile⟩
  · exact exists_ofHeights (hone ▸ h)

/-- **Positions for percentages do not overflow**, however many heights there are. -/
theorem placed_of_bounded (hn : n ≤ 2 ^ 40) (h : Bounded 100 percentile) : Placed n percentile := by
  have hcount : Bounded n (Scalar.ofNat n) := by
    have hofInt := Bounded.ofInt (n := n) (by rw [Nat.abs_cast]; exact_mod_cast hn.trans (by decide))
    rwa [Int.cast_natCast, Nat.abs_cast] at hofInt
  have hhundred : Bounded 100 (Scalar.ofInt 100) := (Bounded.ofInt (n := 100) (by decide)).mono (by norm_num)
  have hbound : Bound ((200 : ℕ) : ℚ) := Double.bound_natCast (by decide)
  have hbound' : Bound ((n * 200 : ℕ) : ℚ) := Double.bound_natCast (by omega)
  have hdifference := hhundred.sub h hbound (by norm_num)
  have hsum := hhundred.add h hbound (by norm_num)
  exact ⟨(hcount.mul hdifference hbound' (by push_cast; rfl)).isFinite, (hcount.mul hsum hbound' (by push_cast; rfl)).isFinite⟩

end Limits

end Heightfield
