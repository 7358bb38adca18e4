import Heightfield.Proofs.Surface.Window
/-!
# The order of limits

For a percentage above zero the limits are in order, since they enclose a window (`Grid.IsTrimmed`).  The window for
zero per cent is the middle of the heights.  Of an odd number that is one height; of an even number the two positions
have passed each other, and limits about two heights that differ are reversed (`Grid.exists_limits_le_iff`).
-/
namespace Heightfield

open Exact (number)

section
variable {K : Type} [LinearOrder K] {g : Grid (Exact K)}

namespace Grid

/-- The number of heights is even, and the two in the middle differ. -/
def Splits (g : Grid (Exact K)) : Prop :=
  ∃ m a b, (numbers g.height).length = 2 * (m + 1) ∧ (sorted (numbers g.height))[m]? = some a ∧
    (sorted (numbers g.height))[m + 1]? = some b ∧ a ≠ b

theorem not_splits_of_odd {m : ℕ} (hlength : (numbers g.height).length = 2 * m + 1) : ¬g.Splits := by
  rintro ⟨k, -, -, hk, -⟩
  omega

theorem splits_iff {m : ℕ} {a b : K} (hlength : (numbers g.height).length = 2 * (m + 1))
    (ha : (sorted (numbers g.height))[m]? = some a) (hb : (sorted (numbers g.height))[m + 1]? = some b) :
    g.Splits ↔ a ≠ b := by
  refine ⟨?_, fun hne => ⟨m, a, b, hlength, ha, hb, hne⟩⟩
  rintro ⟨k, a', b', hk, ha', hb', hne⟩
  obtain rfl : k = m := by omega
  rw [ha] at ha'
  rw [hb] at hb'
  cases ha'
  cases hb'
  exact hne

end Grid

end

section
variable {K : Type} [Field K] [LinearOrder K] [FloorRing K] [IsStrictOrderedRing K]

namespace Limits

/-! ## Positions for zero per cent -/

theorem floor_half (n : ℕ) : ⌊(n : K) * (100 - 0) / 200⌋ = (n / 2 : ℕ) := by
  have hhalf : (n : K) * (100 - 0) / 200 = n / 2 := by ring
  have hsplit : (n : K) = 2 * (n / 2 : ℕ) + (n % 2 : ℕ) := by exact_mod_cast (Nat.div_add_mod n 2).symm
  have hmod : ((n % 2 : ℕ) : K) ≤ 1 := by exact_mod_cast Nat.le_of_lt_succ (Nat.mod_lt n two_pos)
  have hmod' : (0 : K) ≤ (n % 2 : ℕ) := Nat.cast_nonneg _
  rw [hhalf, Int.floor_eq_iff, Int.cast_natCast, le_div_iff₀ two_pos, div_lt_iff₀ two_pos]
  constructor <;> linarith

theorem lowerIndex_zero {n : ℕ} (hn : n ≠ 0) : lowerIndex n (number (0 : K)) = .ok (n / 2) := by
  rw [lowerIndex_number, floor_half, clampIndex_eq rfl (by omega)]

/-- The last position is the middle, rounded the other way. -/
theorem upperIndex_zero {n : ℕ} (hn : n ≠ 0) : upperIndex n (number (0 : K)) = .ok ((n - 1) / 2) := by
  have hceil : ⌈(n : K) * (100 + 0) / 200⌉ = (n : ℤ) - (n / 2 : ℕ) := by rw [ceil_eq_sub_floor, floor_half]
  rw [upperIndex_number, hceil, clampIndex_eq (i := (n - 1) / 2) (by omega) (by omega)]

end Limits

namespace Grid

variable {g : Grid (Exact K)} {p : K}

/-! ## Limits for zero per cent -/

/-- The limits about the one height in the middle. -/
theorem exists_limits_zero_of_odd {m : ℕ} (hlength : (numbers g.height).length = 2 * m + 1) :
    ∃ a, g.limits (number 0) = .ok ⟨number a, number a⟩ := by
  have hn : (numbers g.height).length ≠ 0 := by omega
  have hm : m < (sorted (numbers g.height)).length := by rw [length_sorted]; omega
  have hlower := Limits.lowerIndex_zero (K := K) hn
  have hupper := Limits.upperIndex_zero (K := K) hn
  rw [show (numbers g.height).length / 2 = m by omega] at hlower
  rw [show ((numbers g.height).length - 1) / 2 = m by omega] at hupper
  refine ⟨(sorted (numbers g.height))[m], ?_⟩
  rw [limits, Limits.ofHeights_number hlower hupper (List.getElem?_eq_getElem hm) (List.getElem?_eq_getElem hm), sub_self,
    zero_div, sub_zero, add_zero]

/-- The limits about the two heights in the middle, the greater one first. -/
theorem exists_limits_zero_of_even {m : ℕ} (hlength : (numbers g.height).length = 2 * (m + 1)) :
    ∃ a b, (sorted (numbers g.height))[m]? = some a ∧ (sorted (numbers g.height))[m + 1]? = some b ∧ a ≤ b ∧
      g.limits (number 0) = .ok ⟨number (b + (b - a) / 10), number (a - (b - a) / 10)⟩ := by
  have hn : (numbers g.height).length ≠ 0 := by omega
  have hm : m + 1 < (sorted (numbers g.height)).length := by rw [length_sorted]; omega
  have ha := List.getElem?_eq_getElem (Nat.lt_of_succ_lt hm)
  have hb := List.getElem?_eq_getElem hm
  have hlower := Limits.lowerIndex_zero (K := K) hn
  have hupper := Limits.upperIndex_zero (K := K) hn
  rw [show (numbers g.height).length / 2 = m + 1 by omega] at hlower
  rw [show ((numbers g.height).length - 1) / 2 = m by omega] at hupper
  refine ⟨_, _, ha, hb, le_of_getElem?_sorted ha hb (Nat.le_succ m), ?_⟩
  rw [limits, Limits.ofHeights_number hlower hupper hb ha, ← neg_sub (sorted (numbers g.height))[m + 1], neg_div,
    sub_neg_eq_add, ← sub_eq_add_neg]

/-- **Limits are in order**, but for zero per cent of an even number of heights whose middle two differ. -/
theorem exists_limits_le_iff (hne : numbers g.height ≠ []) (hp : 0 ≤ p) (hle : p ≤ 100) :
    ∃ l u, g.limits (number p) = .ok ⟨number l, number u⟩ ∧ (l ≤ u ↔ ¬(p = 0 ∧ g.Splits)) := by
  rcases hp.eq_or_lt with rfl | hpos
  · rcases Nat.even_or_odd' (numbers g.height).length with ⟨m, heven | hodd⟩
    · obtain ⟨k, rfl⟩ : ∃ k, m = k + 1 := Nat.exists_eq_succ_of_ne_zero fun hm =>
        hne (List.eq_nil_of_length_eq_zero (by rw [heven, hm]))
      obtain ⟨a, b, ha, hb, hab, hlimits⟩ := exists_limits_zero_of_even heven
      refine ⟨_, _, hlimits, ?_⟩
      rw [splits_iff heven ha hb]
      constructor
      · rintro hlu ⟨-, hdiffer⟩
        have hlt : a < b := lt_of_le_of_ne hab hdiffer
        linarith
      · intro hsame
        obtain rfl : a = b := not_not.1 fun hdiffer => hsame ⟨rfl, hdiffer⟩
        rw [sub_self, zero_div, add_zero, sub_zero]
    · obtain ⟨a, hlimits⟩ := exists_limits_zero_of_odd hodd
      exact ⟨a, a, hlimits, fun _ h => not_splits_of_odd hodd h.2, fun _ => le_rfl⟩
  · obtain ⟨i, a, b, l, u, h⟩ := exists_isTrimmed (g := g) hne hpos hle
    exact ⟨l, u, h.limits_eq, fun _ hzero => hpos.ne' hzero.1, fun _ => h.lower_le.trans (h.le.trans h.le_upper)⟩

end Grid

end

/-- Three heights, and a cell without one. -/
def valley : Grid (Exact ℚ) where
  xs := [number 0, number 1]
  ys := [number 0, number 1]
  height := [[number 2, number 1], [.notANumber, number 2]]
  imaginary := none

theorem exists_limits_le_iff_valley : numbers valley.height ≠ [] ∧ (0 : ℚ) ≤ 0 ∧ (0 : ℚ) ≤ 100 ∧
    ∃ l u, valley.limits (number 0) = .ok ⟨number l, number u⟩ ∧ (l ≤ u ↔ ¬((0 : ℚ) = 0 ∧ valley.Splits)) := by
  have hne : numbers valley.height ≠ [] := List.cons_ne_nil _ _
  exact ⟨hne, le_rfl, by norm_num, Grid.exists_limits_le_iff hne le_rfl (by norm_num)⟩

/-- Two heights that differ. -/
def twoHeights : Grid (Exact ℚ) where
  xs := [number 0, number 1]
  ys := [number 0]
  height := [[number 1, number 2]]
  imaginary := none

/-- **Limits for zero per cent are reversed.** -/
theorem limits_twoHeights_reversed : numbers twoHeights.height ≠ [] ∧
    twoHeights.limits (number 0) = .ok ⟨number (21 / 10), number (9 / 10)⟩ ∧ (9 / 10 : ℚ) < 21 / 10 := by
  have hsorted : sorted (numbers twoHeights.height) = [1, 2] := List.mergeSort_of_pairwise (by decide)
  obtain ⟨a, b, ha, hb, -, hlimits⟩ := Grid.exists_limits_zero_of_even (g := twoHeights) (m := 0) rfl
  rw [hsorted] at ha hb
  cases ha
  cases hb
  refine ⟨List.cons_ne_nil _ _, ?_, by norm_num⟩
  rw [hlimits]
  norm_num

end Heightfield
