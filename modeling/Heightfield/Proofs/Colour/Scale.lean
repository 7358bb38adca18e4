import Mathlib.Data.Rat.Floor
import Mathlib.Tactic.Positivity
import Heightfield.Colour.Shading
import Heightfield.Proofs.Number.Exact
import Heightfield.Surface.Lattice
/-!
# The scale between limits

With exact scalars the place of a height is its share of the way between the limits, moved between zero and one
(`place_eq`).  A greater share selects no earlier entry of the table, so the entries follow the order of the heights.  The
first and the last entry are reached at the limits, and infinities stand there too; what is not a number stands in the
middle (`exists_isScale_shadeAll`).
-/
namespace Heightfield
namespace Colour

open Exact (number infinite notANumber)

section
variable {K : Type} [Field K] [LinearOrder K]

/-- The width of the scale.  Limits that coincide have none of their own. -/
def width (lower upper : K) : K := if upper - lower = 0 then 1 else upper - lower

theorem width_self (lower : K) : width lower lower = 1 := if_pos (sub_self lower)

theorem width_of_ne {lower upper : K} (h : lower ≠ upper) : width lower upper = upper - lower :=
  if_neg (sub_ne_zero.2 h.symm)

theorem width_ne_zero (lower upper : K) : width lower upper ≠ 0 := by
  unfold width
  split
  · exact one_ne_zero
  · assumption

/-- How much of the scale lies below a height. -/
def share (lower upper : K) : Exact K → K
  | number a => min (max ((a - lower) / width lower upper) 0) 1
  | infinite negative => if negative then 0 else 1
  | notANumber => 1 / 2

variable [FloorRing K]

theorem span_number (lower upper : K) : span (number lower) (number upper) = number (width lower upper) := by
  unfold span width
  simp only [Exact.number_sub, Exact.isZero_number, Exact.ofInt_eq, Int.cast_one, decide_eq_true_eq]
  split <;> rfl

/-- The entry for a share. -/
def entryAt (t : K) : Fin 256 := ⟨min ⌊t * 256⌋.toNat 255, by omega⟩

theorem index?_number (t : K) : index? (number t) = some (entryAt t) := by
  have hscaled : number t * (Scalar.ofInt 256 : Exact K) = number (t * 256) := by
    rw [Exact.ofInt_eq, Exact.number_mul]
    norm_num
  rw [index?, hscaled]
  rfl

variable [IsStrictOrderedRing K] {lower upper : K}

theorem width_pos (h : lower ≤ upper) : 0 < width lower upper := by
  unfold width
  split
  · exact one_pos
  · rename_i hne
    exact lt_of_le_of_ne (sub_nonneg.2 h) (Ne.symm hne)

/-- **The place of a height is its share of the scale.** -/
theorem place_eq (lower upper : K) (v : Exact K) : place (number lower) (number upper) v = number (share lower upper v) := by
  have hclamp : ∀ t : K, Scalar.clamp (Scalar.ofInt 0) (Scalar.ofInt 1) (number t) = number (min (max t 0) 1) := by
    intro t
    rw [Exact.ofInt_eq, Exact.ofInt_eq, Int.cast_zero, Int.cast_one, Exact.clamp_number]
  cases v with
  | number a =>
    have hplace : (number a - number lower) / span (number lower) (number upper) =
        number ((a - lower) / width lower upper) := by
      rw [span_number, Exact.number_sub, Exact.number_div (width_ne_zero lower upper)]
    exact (congrArg _ hplace).trans (hclamp _)
  | infinite negative =>
    cases negative with
    | true =>
      have hzero : (Scalar.ofInt 0 : Exact K) = number 0 := by rw [Exact.ofInt_eq, Int.cast_zero]
      refine (congrArg _ hzero).trans ((hclamp 0).trans ?_)
      simp [share]
    | false =>
      have hone : (Scalar.ofInt 1 : Exact K) = number 1 := by rw [Exact.ofInt_eq, Int.cast_one]
      refine (congrArg _ hone).trans ((hclamp 1).trans ?_)
      simp [share]
  | notANumber =>
    have hhalf : (Scalar.ofRatio 1 2 : Exact K) = number (1 / 2) := congrArg number (by norm_num)
    refine (congrArg _ hhalf).trans ((hclamp (1 / 2)).trans ?_)
    have hlow : (0 : K) ≤ 1 / 2 := by positivity
    have hhigh : (1 / 2 : K) ≤ 1 := by norm_num
    rw [max_eq_left hlow, min_eq_left hhigh, share]

theorem shade_number (table : Table (Exact K)) (lower upper : K) (v : Exact K) :
    shade table (number lower) (number upper) v = table[entryAt (share lower upper v)] := by
  rw [shade, place_eq, index?_number]

/-! ## Shares -/

theorem share_nonneg (lower upper : K) (v : Exact K) : 0 ≤ share lower upper v := by
  cases v with
  | number a => exact le_min (le_max_right _ _) zero_le_one
  | infinite negative => cases negative <;> simp [share]
  | notANumber => simp [share]

theorem share_le_one (lower upper : K) (v : Exact K) : share lower upper v ≤ 1 := by
  cases v with
  | number a => exact min_le_right _ _
  | infinite negative => cases negative <;> simp [share]
  | notANumber => rw [share]; norm_num

theorem share_le_share (h : lower ≤ upper) {v w : Exact K} (hvw : Scalar.le v w = true) :
    share lower upper v ≤ share lower upper w := by
  cases v with
  | number a =>
    cases w with
    | number b =>
      have hab : a ≤ b := of_decide_eq_true hvw
      have hquotient : (a - lower) / width lower upper ≤ (b - lower) / width lower upper :=
        div_le_div_of_nonneg_right (sub_le_sub_right hab lower) (width_pos h).le
      exact min_le_min_right 1 (max_le_max_right 0 hquotient)
    | infinite negative =>
      cases negative with
      | true => cases hvw
      | false => exact share_le_one lower upper _
    | notANumber => cases hvw
  | infinite negative =>
    cases negative with
    | true => exact share_nonneg lower upper w
    | false =>
      -- nothing but infinity is as great as infinity
      cases w with
      | infinite negative' => cases negative' <;> [exact le_rfl; cases hvw]
      | _ => cases hvw
  | notANumber => cases w <;> cases hvw

theorem share_number (h : lower ≤ upper) {a : K} (ha : lower ≤ a) :
    share lower upper (number a) = min ((a - lower) / width lower upper) 1 := by
  rw [share, max_eq_left (div_nonneg (sub_nonneg.2 ha) (width_pos h).le)]

omit [FloorRing K] in
theorem share_lower (lower upper : K) : share lower upper (number lower) = 0 := by
  rw [share, sub_self, zero_div, max_self, min_eq_left zero_le_one]

theorem share_upper (h : lower < upper) : share lower upper (number upper) = 1 := by
  rw [share_number h.le h.le, width_of_ne h.ne, div_self (sub_pos.2 h).ne', min_self]

theorem share_eq_zero (h : lower ≤ upper) {v : Exact K} (hv : Scalar.le v (number lower) = true) :
    share lower upper v = 0 :=
  le_antisymm ((share_le_share h hv).trans_eq (share_lower lower upper)) (share_nonneg lower upper v)

theorem share_eq_one (h : lower < upper) {v : Exact K} (hv : Scalar.le (number upper) v = true) :
    share lower upper v = 1 :=
  le_antisymm (share_le_one lower upper v) ((share_upper h).symm.trans_le (share_le_share h.le hv))

/-! ## Entries -/

theorem entryAt_mono {s t : K} (h : s ≤ t) : entryAt s ≤ entryAt t := by
  have hfloor : ⌊s * 256⌋ ≤ ⌊t * 256⌋ := Int.floor_le_floor (by linarith)
  show min ⌊s * 256⌋.toNat 255 ≤ min ⌊t * 256⌋.toNat 255
  omega

theorem entryAt_zero : entryAt (0 : K) = 0 := by
  simp [entryAt]

theorem entryAt_one : entryAt (1 : K) = 255 := by
  have hfloor : ⌊(1 : K) * 256⌋ = 256 := by rw [one_mul, Int.floor_ofNat]
  rw [entryAt, Fin.mk.injEq, hfloor]
  rfl

theorem entryAt_half : entryAt (1 / 2 : K) = 128 := by
  have hfloor : ⌊(1 / 2 : K) * 256⌋ = 128 := by
    rw [show (1 / 2 : K) * 256 = (128 : ℤ) by norm_num, Int.floor_intCast]
  ext
  show min ⌊(1 / 2 : K) * 256⌋.toNat 255 = 128
  rw [hfloor]
  rfl

/-- Shares beyond the scale would select the last entry as well. -/
theorem entryAt_min {t : K} (h : 0 ≤ t) : ((entryAt (min t 1) : ℕ) : ℤ) = min ⌊t * 256⌋ 255 := by
  have hpos : 0 ≤ ⌊t * 256⌋ := Int.floor_nonneg.2 (by positivity)
  rcases le_total t 1 with hle | hle
  · rw [min_eq_left hle]
    show ((min ⌊t * 256⌋.toNat 255 : ℕ) : ℤ) = min ⌊t * 256⌋ 255
    omega
  · have hfull : (256 : ℤ) ≤ ⌊t * 256⌋ := Int.le_floor.2 (by push_cast; linarith)
    rw [min_eq_right hle, entryAt_one, min_eq_right (by omega)]
    rfl

/-- How heights select entries of a table between limits. -/
structure IsScale (lower upper : K) (index : Exact K → Fin 256) : Prop where
  shade_eq : ∀ (table : Table (Exact K)) v, shade table (number lower) (number upper) v = table[index v]
  mono : ∀ v w, Scalar.le v w = true → index v ≤ index w
  /-- Minus infinity is among these heights. -/
  first : ∀ v, Scalar.le v (number lower) = true → index v = 0
  last : lower < upper → ∀ v, Scalar.le (number upper) v = true → index v = 255
  above : index (infinite false) = 255
  below : index (infinite true) = 0
  middle : index notANumber = 128
  proportional : lower < upper → ∀ a, lower ≤ a →
    ((index (number a) : ℕ) : ℤ) = min ⌊(a - lower) / (upper - lower) * 256⌋ 255
  /-- On limits that coincide stands a scale of width one. -/
  unit : lower = upper → ∀ a, lower ≤ a → ((index (number a) : ℕ) : ℤ) = min ⌊(a - lower) * 256⌋ 255

theorem isScale (h : lower ≤ upper) : IsScale lower upper fun v => entryAt (share lower upper v) := by
  have hindex : ∀ a, lower ≤ a → ((entryAt (share lower upper (number a)) : ℕ) : ℤ) =
      min ⌊(a - lower) / width lower upper * 256⌋ 255 := by
    intro a ha
    rw [share_number h ha, entryAt_min (div_nonneg (sub_nonneg.2 ha) (width_pos h).le)]
  constructor
  case shade_eq => exact fun table v => shade_number table lower upper v
  case mono => exact fun v w hvw => entryAt_mono (share_le_share h hvw)
  case first =>
    intro v hv
    rw [share_eq_zero h hv, entryAt_zero]
  case last =>
    intro hlt v hv
    rw [share_eq_one hlt hv, entryAt_one]
  case above => exact entryAt_one
  case below => exact entryAt_zero
  case middle => exact entryAt_half
  case proportional =>
    intro hlt a ha
    rw [hindex a ha, width_of_ne hlt.ne]
  case unit =>
    rintro rfl a ha
    rw [hindex a ha, width_self, div_one]

/-! ## Cells -/

/-- The colours stand where the heights do, and each is the entry of its height. -/
structure IsShading (table : Table (Exact K)) (index : Exact K → Fin 256) (rows : List (List (Exact K)))
    (colours : List (List (Rgb (Exact K)))) : Prop where
  shape : colours.map List.length = rows.map List.length
  cell : ∀ i j, cell? colours i j = (cell? rows i j).map fun v => table[index v]
  channels : ∀ row ∈ colours, ∀ c ∈ row, c.channels.length = 3

omit [Field K] [LinearOrder K] [FloorRing K] [IsStrictOrderedRing K] in
theorem cell?_map {β : Type} (f : Exact K → β) (rows : List (List (Exact K))) (i j : ℕ) :
    cell? (rows.map (·.map f)) i j = (cell? rows i j).map f := by
  unfold cell?
  rw [List.getElem?_map]
  cases rows[i]? with
  | none => rfl
  | some row => exact List.getElem?_map

/-- **Colours follow the order of the heights**, and keep to the ends of the map outside the limits. -/
theorem exists_isScale_shadeAll (h : lower ≤ upper) : ∃ index, IsScale lower upper index ∧
    ∀ (name : Option String) (rows : List (List (Exact K))),
      IsShading (resolve name).table index rows (shadeAll name (number lower) (number upper) rows) := by
  have hscale := isScale h
  refine ⟨_, hscale, fun name rows => ?_⟩
  rw [shadeAll, funext (hscale.shade_eq (resolve name).table)]
  constructor
  case shape => simp
  case cell => exact cell?_map _ rows
  case channels => exact fun _ _ _ _ => rfl

end

theorem exists_isScale_unitInterval : (0 : ℚ) ≤ 1 ∧ ∃ index, IsScale (0 : ℚ) 1 index ∧
    ∀ (name : Option String) (rows : List (List (Exact ℚ))),
      IsShading (resolve name).table index rows (shadeAll name (number 0) (number 1) rows) := by
  have h : (0 : ℚ) ≤ 1 := by norm_num
  exact ⟨h, exists_isScale_shadeAll h⟩

end Colour
end Heightfield
