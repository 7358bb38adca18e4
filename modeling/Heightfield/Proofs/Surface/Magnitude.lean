import Heightfield.Proofs.Number.Bounded
import Heightfield.Proofs.Surface.Channels
/-!
# The magnitude of statistics and limits

Magnitudes are counted in units `2 ^ k`.  As long as the units of all summands are few enough for a double (`Room`), a sum
has at most the units of its summands, in whatever order it is formed (`Units.balancedSum`).  So a mean and a median have
no more than the values they are taken from, limits at most twice as many (`Units.mean`, `Units.median`,
`Units.ofHeights`), and all of them are finite.
-/
namespace Heightfield

open Double (value Bounded Bound greatest)

/-- Up to `M` units `2 ^ k` are counted exactly, and are not above the greatest double. -/
structure Room (k : ℤ) (M : ℕ) : Prop where
  least : -1074 ≤ k
  bits : M ≤ 2 ^ 53
  le : (M : ℚ) * 2 ^ k ≤ greatest

/-- The double is finite, and of at most `m` units `2 ^ k`. -/
def Units (k : ℤ) (m : ℕ) (x : Float) : Prop := Bounded (m * 2 ^ k) x

namespace Units

variable {k : ℤ} {M m n w : ℕ} {x y : Float}

theorem bound (room : Room k M) (hm : m ≤ M) : Bound (m * 2 ^ k) :=
  Double.bound_mul (hm.trans room.bits) room.least
    ((mul_le_mul_of_nonneg_right (by exact_mod_cast hm) (Double.two_zpow_pos k).le).trans room.le)

theorem mono (h : Units k m x) (hmn : m ≤ n) : Units k n x :=
  Bounded.mono h (mul_le_mul_of_nonneg_right (by exact_mod_cast hmn) (Double.two_zpow_pos k).le)

theorem zero : Units k 0 (Scalar.ofInt 0) := (Bounded.ofInt (n := 0) (by decide)).mono (by simp)

/-! ## Sums -/

theorem add (room : Room k M) (hx : Units k m x) (hy : Units k n y) (h : m + n ≤ M) : Units k (m + n) (x + y) :=
  Bounded.add hx hy (bound room h) (by push_cast; rw [add_mul])

theorem sub (room : Room k M) (hx : Units k m x) (hy : Units k n y) (h : m + n ≤ M) : Units k (m + n) (x - y) :=
  Bounded.sub hx hy (bound room h) (by push_cast; rw [add_mul])

theorem foldl (room : Room k M) : ∀ {vs : List Float} {x : Float} {m : ℕ}, Units k m x → (∀ v ∈ vs, Units k w v) →
    m + w * vs.length ≤ M → Units k (m + w * vs.length) (vs.foldl (· + ·) x)
  | [], _, _, hx, _, _ => hx
  | v :: vs, x, m, hx, hvs, h => by
    obtain ⟨hv, hvs⟩ := List.forall_mem_cons.1 hvs
    rw [List.length_cons, Nat.mul_succ] at h
    rw [List.length_cons, Nat.mul_succ, Nat.add_comm _ w, ← Nat.add_assoc]
    exact foldl room (add room hx hv (by omega)) hvs (by omega)

theorem zipWith (room : Room k M) (h : m + n ≤ M) : ∀ {xs ys : List Float}, (∀ x ∈ xs, Units k m x) →
    (∀ y ∈ ys, Units k n y) → ∀ z ∈ List.zipWith (· + ·) xs ys, Units k (m + n) z
  | [], _, _, _, _, hz => by cases hz
  | _ :: _, [], _, _, _, hz => by cases hz
  | x :: xs, y :: ys, hxs, hys, z, hz => by
    obtain ⟨hx, hxs⟩ := List.forall_mem_cons.1 hxs
    obtain ⟨hy, hys⟩ := List.forall_mem_cons.1 hys
    rcases List.mem_cons.1 hz with rfl | hz
    · exact add room hx hy h
    · exact zipWith room h hxs hys z hz

theorem sumInOrder (room : Room k M) {vs : List Float} (hvs : ∀ v ∈ vs, Units k w v) (h : w * vs.length ≤ M) :
    Units k (w * vs.length) (sumInOrder vs) := by
  have hsum := foldl room (Bounded.neg zero) hvs (by omega)
  rwa [Nat.zero_add] at hsum

theorem sumOfEight (room : Room k M) {sums : List Float} (hlength : sums.length = 8) (hsums : ∀ v ∈ sums, Units k w v)
    (h : 8 * w ≤ M) :
    Units k (8 * w) (Heightfield.sumInOrder (addNeighbours (addNeighbours (addNeighbours sums)))) := by
  match sums, hlength with
  | [s₁, s₂, s₃, s₄, s₅, s₆, s₇, s₈], _ =>
    simp only [List.forall_mem_cons] at hsums
    obtain ⟨h₁, h₂, h₃, h₄, h₅, h₆, h₇, h₈, -⟩ := hsums
    have hleft := add room (add room h₁ h₂ (by omega)) (add room h₃ h₄ (by omega)) (by omega)
    have hright := add room (add room h₅ h₆ (by omega)) (add room h₇ h₈ (by omega)) (by omega)
    have hall := sumInOrder room (List.forall_mem_singleton.2 (add room hleft hright (by omega)))
      (by rw [List.length_singleton]; omega)
    exact mono hall (by rw [List.length_singleton]; omega)

theorem sumBlocks (room : Room k M) (sums vs : List Float) : ∀ {w : ℕ}, sums.length = 8 → (∀ v ∈ sums, Units k w v) →
    (∀ v ∈ vs, Units k 1 v) → 8 * w + vs.length ≤ M → Units k (8 * w + vs.length) (sumBlocks sums vs) := by
  induction sums, vs using sumBlocks.induct with
  | case1 sums a b c d e f g h vs ih =>
    intro w hlength hsums hvs hroom
    have hblock : ∀ v ∈ [a, b, c, d, e, f, g, h], Units k 1 v := fun v hv => hvs v (List.mem_append_left vs hv)
    have hrest : ∀ v ∈ vs, Units k 1 v := fun v hv => hvs v (List.mem_append_right [a, b, c, d, e, f, g, h] hv)
    have hsize : (a :: b :: c :: d :: e :: f :: g :: h :: vs).length = vs.length + 8 := rfl
    rw [hsize] at hroom ⊢
    have hw : w + 1 ≤ M := by omega
    have hadded := zipWith room hw hsums hblock
    have hlength' : (List.zipWith (· + ·) sums [a, b, c, d, e, f, g, h]).length = 8 := by
      rw [List.length_zipWith, hlength]
      rfl
    rw [Heightfield.sumBlocks]
    exact mono (ih hlength' hadded hrest (by omega)) (by omega)
  | case2 sums vs hshort =>
    intro w hlength hsums hvs hroom
    rw [Heightfield.sumBlocks]
    · have hsum := foldl room (sumOfEight room hlength hsums (by omega)) hvs (by omega)
      rwa [Nat.one_mul] at hsum
    · exact hshort

/-- **A sum has at most the units of its summands**, formed in halves and in blocks. -/
theorem balancedSum (room : Room k M) (vs : List Float) (hvs : ∀ v ∈ vs, Units k 1 v) (h : vs.length ≤ M) :
    Units k vs.length (balancedSum vs) := by
  induction vs using balancedSum.induct with
  | case1 vs hshort =>
    rw [Heightfield.balancedSum, if_pos hshort]
    have hsum := sumInOrder room hvs (by omega)
    rwa [Nat.one_mul] at hsum
  | case2 vs hlong hblock =>
    rw [Heightfield.balancedSum, if_neg hlong, if_pos hblock]
    have htake : (vs.take 8).length = 8 := by rw [List.length_take]; omega
    have hsum := sumBlocks room (vs.take 8) (vs.drop 8) htake (fun v hv => hvs v (List.mem_of_mem_take hv))
      (fun v hv => hvs v (List.mem_of_mem_drop hv)) (by rw [List.length_drop]; omega)
    exact mono hsum (by rw [List.length_drop]; omega)
  | case3 vs hlong hblock ihtake ihdrop =>
    rw [Heightfield.balancedSum, if_neg hlong, if_neg hblock]
    have hsplit := congrArg List.length (List.take_append_drop (halfOf vs.length) vs)
    rw [List.length_append] at hsplit
    have hsum := add room (ihtake (fun v hv => hvs v (List.mem_of_mem_take hv)) (by omega))
      (ihdrop (fun v hv => hvs v (List.mem_of_mem_drop hv)) (by omega)) (by omega)
    rwa [hsplit] at hsum

/-! ## Means and medians -/

theorem mean (room : Room k M) {vs : List Float} (hvs : ∀ v ∈ vs, Units k 1 v) (h : vs.length ≤ M) (hM : 1 ≤ M) :
    Units k 1 (mean vs) := by
  cases hempty : vs.isEmpty with
  | true =>
    rw [Heightfield.mean, if_pos hempty]
    exact mono zero (Nat.zero_le 1)
  | false =>
    rw [Heightfield.mean, if_neg (by rw [hempty]; decide)]
    have hpos : 0 < vs.length := List.length_pos_iff.2 (List.isEmpty_eq_false_iff.1 hempty)
    have hbits : |(vs.length : ℤ)| ≤ 2 ^ 53 := by rw [Nat.abs_cast]; exact_mod_cast h.trans room.bits
    obtain ⟨hfinite, hvalue⟩ := Double.value_ofInt hbits
    have hcast : (0 : ℚ) < vs.length := Nat.cast_pos.2 hpos
    refine Bounded.div (balancedSum room vs hvs h) hfinite hcast ?_ (bound room hM) ?_
    · rw [show (Scalar.ofNat vs.length : Float) = Scalar.ofInt vs.length from rfl, hvalue, Int.cast_natCast]
      exact le_abs_self _
    · rw [Nat.cast_one, one_mul, mul_comm]

theorem median (room : Room k M) {vs : List Float} (hvs : ∀ v ∈ vs, Units k 1 v) (h : vs.length ≤ M) (hM : 1 ≤ M) :
    Units k 1 (median vs) := by
  have hpart : ∀ i j, (∀ v ∈ ((vs.mergeSort Scalar.le).toArray.extract i j).toList, Units k 1 v) ∧
      ((vs.mergeSort Scalar.le).toArray.extract i j).toList.length ≤ M := fun i j => by
    rw [List.extract_toArray, List.extract_eq_take_drop]
    have hlength := List.length_take_le' (j - i) ((vs.mergeSort Scalar.le).drop i)
    rw [List.length_drop, List.length_mergeSort] at hlength
    exact ⟨fun v hv => hvs v (List.mem_mergeSort.1 (List.mem_of_mem_drop (List.mem_of_mem_take hv))),
      hlength.trans ((Nat.sub_le _ _).trans h)⟩
  unfold Heightfield.median
  dsimp only
  split
  · exact mean room (hpart _ _).1 (hpart _ _).2 hM
  · exact mean room (hpart _ _).1 (hpart _ _).2 hM

/-! ## Limits -/

theorem padding : Bounded ((1 : ℕ) * 2 ^ (-1 : ℤ)) (Limits.padding : Float) := by
  refine Bounded.ofRatio (n := 1) (by decide) (Double.bound_mul (by decide) (by decide) ?_) (by norm_num)
  refine le_trans ?_ (le_trans (Double.intCast_le_greatest (n := 1) (by decide)) le_rfl)
  norm_num

theorem padded (room : Room k M) (hM : 2 ≤ M) (hx : Units k 1 x) (hy : Units k 1 y) :
    Units k 2 (Limits.padded x y).lower ∧ Units k 2 (Limits.padded x y).upper := by
  have hmargin : Units k 1 ((y - x) * Limits.padding) := by
    refine Bounded.mul (sub room hy hx hM) padding (bound room (by omega)) ?_
    rw [zpow_neg_one]
    push_cast
    linarith
  exact ⟨sub room hx hmargin hM, add room hy hmargin hM⟩

theorem ofHeights (room : Room k M) (hM : 2 ≤ M) {rows : List (List Float)} (hrows : ∀ v ∈ finiteCells rows, Units k 1 v)
    {percentile : Float} {l : Limits Float} (h : Limits.ofHeights rows percentile = .ok l) :
    l = .fallback ∨ Units k 2 l.lower ∧ Units k 2 l.upper := by
  have hheight : ∀ i : ℕ, Units k 1 ((Limits.sortedHeights rows).toArray[i]?.getD (Scalar.ofInt 0)) := fun i => by
    rw [List.getElem?_toArray]
    cases hi : (Limits.sortedHeights rows)[i]? with
    | none => exact mono zero (Nat.zero_le 1)
    | some v => exact hrows v (List.mem_mergeSort.1 (List.mem_of_getElem? hi))
  unfold Limits.ofHeights at h
  dsimp only at h
  split at h
  · cases h
    exact Or.inl rfl
  · cases hlower : Limits.lowerIndex (Limits.sortedHeights rows).toArray.size percentile with
    | error e =>
      rw [hlower] at h
      cases h
    | ok i =>
      cases hupper : Limits.upperIndex (Limits.sortedHeights rows).toArray.size percentile with
      | error e =>
        rw [hlower, hupper] at h
        cases h
      | ok j =>
        rw [hlower, hupper] at h
        cases h
        exact Or.inr (padded room hM (hheight i) (hheight j))

end Units

end Heightfield
