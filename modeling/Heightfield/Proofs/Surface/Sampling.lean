import Heightfield.Number.Double
import Heightfield.Proofs.Surface.Sheet
import Heightfield.Surface.Grid
/-!
# A sampled grid holds the outcomes at its points

The sweep of a whole lattice and the sweep cell by cell classify numbers differently: the first
by the sort of a whole raster, the second by the sort of each value.  A grid holds in row `i` and
column `j` the outcome of the value in the cell at `(xs[j], ys[i])`, whichever of them ran
(`Sweep.run_eq`).  Where the formula means the same over the lattice as at its points, that is its
outcome at the point, and only heights are clipped (`Grid.sample_cells`).
-/
namespace Heightfield

open Formula (Raster Value)

/-! ## Rasters -/

namespace Formula.Raster

variable {α : Type}

theorem eq_of_machineInt? {v : Value α} {n : Int} (h : v.machineInt? = some n) :
    v = .int n ∨ v = .word n := by
  cases v with
  | int m =>
    simp only [Value.machineInt?] at h
    split at h <;> cases h
    exact Or.inl rfl
  | word m => cases h; exact Or.inr rfl
  | real _ _ => cases h
  | complex _ _ => cases h

theorem eq_of_scalarOf? {v : Value α} {x : α} (h : v.scalarOf? = some x) : ∃ o, v = .real o x := by
  cases v <;> cases h
  exact ⟨_, rfl⟩

theorem eq_of_complexOf? {v : Value α} {z : Complex α} (h : v.complexOf? = some z) :
    ∃ o, v = .complex o z := by
  cases v <;> cases h
  exact ⟨_, rfl⟩

/-- A raster has one of three sorts, and its entries were read off the values. -/
theorem ofRows?_cases {rows : List (List (Value α))} {r : Raster α} (h : ofRows? rows = some r) :
    (∃ t, entries? Value.machineInt? rows = some t ∧ r = integers t) ∨
      (∃ t, entries? Value.scalarOf? rows = some t ∧ r = reals t) ∨
      ∃ t, entries? Value.complexOf? rows = some t ∧ r = complexes t := by
  rcases Option.or_eq_some_iff.1 h with hi | ⟨-, h⟩
  · obtain ⟨t, ht, rfl⟩ := Option.map_eq_some_iff.1 hi
    exact Or.inl ⟨t, ht, rfl⟩
  rcases Option.or_eq_some_iff.1 h with hr | ⟨-, hc⟩
  · obtain ⟨t, ht, rfl⟩ := Option.map_eq_some_iff.1 hr
    exact Or.inr (Or.inl ⟨t, ht, rfl⟩)
  · obtain ⟨t, ht, rfl⟩ := Option.map_eq_some_iff.1 hc
    exact Or.inr (Or.inr ⟨t, ht, rfl⟩)

/-- **A raster is read as its values are one by one**, when each of its three rules does with an
entry what `q` does with the values it comes from. -/
theorem read_of_ofRows? {β : Type} {integer : Int → β} {real : α → β} {complex : Complex α → β}
    (q : Value α → β) (hint : ∀ n, integer n = q (.int n)) (hword : ∀ n, integer n = q (.word n))
    (hreal : ∀ o x, real x = q (.real o x)) (hcomplex : ∀ o z, complex z = q (.complex o z))
    {rows : List (List (Value α))} {r : Raster α} (h : ofRows? rows = some r) :
    r.read integer real complex = rows.map (·.map q) := by
  rcases ofRows?_cases h with ⟨t, ht, rfl⟩ | ⟨t, ht, rfl⟩ | ⟨t, ht, rfl⟩
  · refine map_map_eq_of_mapM (fun v n hv => ?_) ht
    rcases eq_of_machineInt? hv with rfl | rfl
    · exact hint n
    · exact hword n
  · refine map_map_eq_of_mapM (fun v x hv => ?_) ht
    obtain ⟨o, rfl⟩ := eq_of_scalarOf? hv
    exact hreal o x
  · refine map_map_eq_of_mapM (fun v z hv => ?_) ht
    obtain ⟨o, rfl⟩ := eq_of_complexOf? hv
    exact hcomplex o z

variable [Analytic α]

theorem heights_of_ofRows? {rows : List (List (Value α))} {r : Raster α} (h : ofRows? rows = some r) :
    r.heights = rows.map (·.map fun v => Value.realOutcome (some v)) := by
  exact read_of_ofRows? (fun v => Value.realOutcome (some v)) (fun _ => rfl) (fun _ => rfl)
    (fun _ _ => rfl) (fun _ _ => rfl) h

theorem numbers_of_ofRows? {rows : List (List (Value α))} {r : Raster α} (h : ofRows? rows = some r) :
    r.numbers = rows.map (·.map fun v => Value.complexOutcome (some v)) := by
  exact read_of_ofRows? (fun v => Value.complexOutcome (some v)) (fun _ => rfl) (fun _ => rfl)
    (fun _ _ => rfl) (fun _ _ => rfl) h

end Formula.Raster

variable {α : Type} [Analytic α]

/-! ## Sweeps -/

namespace Sweep

/-- The sweep of what values stand for, given for each point. -/
def ofValues (mode : Mode) (xs ys : List α) (value : α → α → Option (Value α)) : Sweep α :=
  match mode with
  | .real => .heights (tabulate xs ys fun x y => Value.realOutcome (value x y))
  | .complex => .numbers (tabulate xs ys fun x y => Value.complexOutcome (value x y))

theorem ofValues_congr {mode : Mode} {xs ys : List α} {value value' : α → α → Option (Value α)}
    (h : ∀ x ∈ xs, ∀ y ∈ ys, value x y = value' x y) : ofValues mode xs ys value = ofValues mode xs ys value' := by
  cases mode with
  | real => exact congrArg heights (tabulate_congr fun x hx y hy => congrArg Value.realOutcome (h x hx y hy))
  | complex => exact congrArg numbers (tabulate_congr fun x hx y hy => congrArg Value.complexOutcome (h x hx y hy))

variable {f : Formula} {xs ys : List α} {s : Sweep α}

/-- **The sweep of a whole lattice, where it gives anything, holds what its sheet shows.** -/
theorem eq_ofValues_of_whole? {value : α → α → Option (Value α)}
    (hvalue : ∀ sheet, f.sheet? xs ys = some sheet → sheet.Shows xs ys value) (h : whole? f xs ys = some s) :
    s = ofValues f.mode xs ys value := by
  obtain ⟨sheet, hsheet, h⟩ := Option.bind_eq_some_iff.1 h
  obtain ⟨raster, hraster, rfl⟩ := Option.map_eq_some_iff.1 h
  have hshows := hvalue sheet hsheet
  unfold ofValues
  cases f.mode with
  | real =>
    dsimp only
    rw [Raster.heights_of_ofRows? hraster, hshows.map_rows Value.realOutcome]
  | complex =>
    dsimp only
    rw [Raster.numbers_of_ofRows? hraster, hshows.map_rows Value.complexOutcome]

/-- **The sweep of a whole lattice, where it gives anything, is the sweep cell by cell**, if the formula means the same
over the lattice as at its points. -/
theorem eq_pointwise_of_whole? (halike : f.AlikeOver xs ys) (h : whole? f xs ys = some s) : s = pointwise f xs ys :=
  eq_ofValues_of_whole? halike h

end Sweep

/-- The value of a formula in the cell at `(x, y)` of a lattice that is swept as a whole, if that is wanted and
possible. -/
def Formula.sweptValue? (whole : Bool) (f : Formula) (xs ys : List α) : α → α → Option (Value α) :=
  if whole && (Sweep.whole? f xs ys).isSome then f.cellValue? else f.value?

/-- **A sweep holds the outcomes of the values in the cells.** -/
theorem Sweep.run_eq (whole : Bool) (f : Formula) (xs ys : List α) :
    Sweep.run whole f xs ys = ofValues f.mode xs ys (f.sweptValue? whole xs ys) := by
  unfold Sweep.run Formula.sweptValue?
  cases whole with
  | false => rfl
  | true =>
    cases hs : Sweep.whole? f xs ys with
    | none => rfl
    | some s => exact eq_ofValues_of_whole? (fun _ h => Formula.shows_sheet? h) hs

/-- Where a formula means the same over the lattice, a swept value is the value at the point. -/
theorem Formula.sweptValue?_eq {whole : Bool} {f : Formula} {xs ys : List α} (h : whole = true → f.AlikeOver xs ys) :
    ∀ x ∈ xs, ∀ y ∈ ys, f.sweptValue? whole xs ys x y = f.value? x y := by
  intro x hx y hy
  unfold sweptValue?
  split
  · rename_i hwhole
    rw [Bool.and_eq_true, Option.isSome_iff_exists] at hwhole
    obtain ⟨hwhole, s, hs⟩ := hwhole
    obtain ⟨sheet, hsheet, -⟩ := Option.bind_eq_some_iff.1 hs
    have hboth : tabulate xs ys f.cellValue? = tabulate xs ys f.value? :=
      (shows_sheet? hsheet).symm.trans (h hwhole sheet hsheet)
    exact eq_of_tabulate_eq hboth x hx y hy
  · rfl

/-! ## Grids -/

namespace Grid

/-- A height after clipping: if there is a range, a finite height is moved into it and any other
is not a number. -/
def clippedHeight (clip : Option (Clip α)) (v : α) : α :=
  match clip with
  | none => v
  | some c => if Scalar.isFinite v then Scalar.clamp c.lower c.upper v else Scalar.nan

theorem clipped_tabulate (clip : Option (Clip α)) (xs ys : List α) (f : α → α → α) :
    clipped clip (tabulate xs ys f) = tabulate xs ys fun x y => clippedHeight clip (f x y) := by
  cases clip with
  | none => rfl
  | some c => exact map_tabulate f c.apply

variable (f : Formula) (domain : Domain α) (n : Resolution) (clip : Option (Clip α)) (whole : Bool)

/-- The samples of the two axes of a grid. -/
def axes : List α × List α :=
  (axisSamples domain.x.lower domain.x.upper n, axisSamples domain.y.lower domain.y.upper n)

/-- The value of the formula in the cell at `(x, y)` of a grid. -/
def value? : α → α → Option (Value α) := f.sweptValue? whole (axes domain n).1 (axes domain n).2

theorem sample_of_real (h : f.mode = .real) : sample f domain n clip whole =
    ⟨(axes domain n).1, (axes domain n).2, tabulate (axes domain n).1 (axes domain n).2 fun x y =>
      clippedHeight clip (Value.realOutcome (value? f domain n whole x y)), none⟩ := by
  simp only [sample, Sweep.run_eq, Sweep.ofValues, h, ofSweep, clipped_tabulate, axes, value?]

theorem sample_of_complex (h : f.mode = .complex) : sample f domain n clip whole =
    ⟨(axes domain n).1, (axes domain n).2,
      tabulate (axes domain n).1 (axes domain n).2 fun x y =>
        clippedHeight clip (Value.complexOutcome (value? f domain n whole x y)).re,
      some (tabulate (axes domain n).1 (axes domain n).2 fun x y =>
        (Value.complexOutcome (value? f domain n whole x y)).im)⟩ := by
  simp only [sample, Sweep.run_eq, Sweep.ofValues, h, ofSweep, map_tabulate, clipped_tabulate, axes, value?]

theorem xs_sample : (sample f domain n clip whole).xs = (axes domain n).1 :=
  xs_ofSweep ..

theorem ys_sample : (sample f domain n clip whole).ys = (axes domain n).2 :=
  ys_ofSweep ..

/-- A grid does not depend on how the lattice is swept, if the formula means the same over it. -/
theorem sample_whole (h : f.AlikeOver (axes domain n).1 (axes domain n).2) (whole' : Bool) :
    sample f domain n clip whole' = sample f domain n clip whole := by
  have hrun : ∀ whole, Sweep.run whole f (axes domain n).1 (axes domain n).2 =
      Sweep.pointwise f (axes domain n).1 (axes domain n).2 := fun whole =>
    (Sweep.run_eq ..).trans (Sweep.ofValues_congr (Formula.sweptValue?_eq fun _ => h))
  exact congrArg (ofSweep _ _ clip) ((hrun whole').trans (hrun whole).symm)

/-- A table with as many rows and columns as an axis has samples. -/
def Square {β : Type} (n : Nat) (rows : List (List β)) : Prop := rows.length = n ∧ ∀ row ∈ rows, row.length = n

theorem length_axes : (axes domain n).1.length = n ∧ (axes domain n).2.length = n :=
  ⟨length_axisSamples _ _ n.2, length_axisSamples _ _ n.2⟩

theorem square_tabulate {β : Type} (g : α → α → β) :
    Square n (tabulate (axes domain n).1 (axes domain n).2 g) :=
  ⟨(length_tabulate g).trans (length_axes domain n).2,
    fun _ hrow => (length_of_mem_tabulate hrow).trans (length_axes domain n).1⟩

theorem square_sample : Square n (sample f domain n clip whole).height ∧
    ∀ rows ∈ (sample f domain n clip whole).imaginary, Square n rows := by
  cases hmode : f.mode with
  | real =>
    rw [sample_of_real f domain n clip whole hmode]
    exact ⟨square_tabulate domain n _, nofun⟩
  | complex =>
    rw [sample_of_complex f domain n clip whole hmode]
    refine ⟨square_tabulate domain n _, fun rows hrows => ?_⟩
    cases hrows
    exact square_tabulate domain n _

/-- **A sampled grid holds the outcomes of the formula at its points.**  A lattice that is swept cell by cell always
does; one that is swept as a whole does if the formula means the same over it, and then it does not matter which way it
is swept. -/
theorem sample_cells (f : Formula) (domain : Domain α) (n : Resolution) (clip : Option (Clip α)) (whole : Bool) :
    let g := sample f domain n clip whole
    (g.xs = axisSamples domain.x.lower domain.x.upper n ∧ g.xs.length = n) ∧
    (g.ys = axisSamples domain.y.lower domain.y.upper n ∧ g.ys.length = n) ∧
    (∀ rows ∈ g.height :: g.imaginary.toList, rows.length = n ∧ ∀ row ∈ rows, row.length = n) ∧
    (f.mode = .real → g.imaginary = none ∧ ((whole = true → f.AlikeOver g.xs g.ys) →
      ∀ i j x y, g.xs[j]? = some x → g.ys[i]? = some y → ∃ v, f.evaluateReal x y = .ok v ∧
        cell? g.height i j = some (clippedHeight clip v))) ∧
    (f.mode = .complex → ∃ imaginary, g.imaginary = some imaginary ∧ ((whole = true → f.AlikeOver g.xs g.ys) →
      ∀ i j x y, g.xs[j]? = some x → g.ys[i]? = some y → ∃ z, f.evaluateComplex x y = .ok z ∧
        cell? g.height i j = some (clippedHeight clip z.re) ∧ cell? imaginary i j = some z.im)) ∧
    (f.AlikeOver g.xs g.ys →
      (∀ sweep, Sweep.whole? f g.xs g.ys = some sweep → sweep = Sweep.pointwise f g.xs g.ys) ∧
      ∀ whole', let g' := sample f domain n clip whole'
        g' = g ∧ finiteBounds g'.height = finiteBounds g.height ∧
          g'.imaginary.map finiteBounds = g.imaginary.map finiteBounds) := by
  intro g
  obtain ⟨hx, hy⟩ := length_axes domain n
  obtain ⟨hheight, himaginary⟩ := square_sample f domain n clip whole
  have hxs : g.xs = (axes domain n).1 := xs_sample f domain n clip whole
  have hys : g.ys = (axes domain n).2 := ys_sample f domain n clip whole
  -- in the cell in row `i` and column `j` the swept value is the value at the point
  have hvalue : (whole = true → f.AlikeOver g.xs g.ys) → ∀ {i j : Nat} {x y : α}, (axes domain n).1[j]? = some x →
      (axes domain n).2[i]? = some y → value? f domain n whole x y = f.value? x y := fun halike _ _ _ _ hxj hyi => by
    rw [hxs, hys] at halike
    exact Formula.sweptValue?_eq halike _ (List.mem_of_getElem? hxj) _ (List.mem_of_getElem? hyi)
  refine ⟨⟨hxs, (congrArg List.length hxs).trans hx⟩, ⟨hys, (congrArg List.length hys).trans hy⟩, ?_, ?_, ?_, ?_⟩
  · intro rows hrows
    rcases List.mem_cons.1 hrows with rfl | hrows
    · exact hheight
    · exact himaginary rows (Option.mem_toList.1 hrows)
  · intro hm
    have hg : g = _ := sample_of_real f domain n clip whole hm
    rw [hg] at hvalue ⊢
    refine ⟨rfl, fun halike i j x y hxj hyi => ⟨Value.realOutcome (f.value? x y), if_pos hm, ?_⟩⟩
    rw [cell?_tabulate _ hxj hyi, hvalue halike hxj hyi]
  · intro hm
    have hg : g = _ := sample_of_complex f domain n clip whole hm
    rw [hg] at hvalue ⊢
    refine ⟨_, rfl, fun halike i j x y hxj hyi => ⟨Value.complexOutcome (f.value? x y), if_pos hm, ?_⟩⟩
    rw [cell?_tabulate _ hxj hyi, cell?_tabulate _ hxj hyi, hvalue halike hxj hyi]
    exact ⟨rfl, rfl⟩
  · intro halike
    refine ⟨fun s hs => Sweep.eq_pointwise_of_whole? halike hs, fun whole' => ?_⟩
    rw [hxs, hys] at halike
    have h : sample f domain n clip whole' = g := sample_whole f domain n clip whole halike whole'
    exact ⟨h, by rw [h], by rw [h]⟩

def quotient : Formula := ⟨"x/y", .real, .binary .div (.var "x") (.var "y")⟩

def unitSquare : Domain Float where
  x := ⟨0, 1, by decide +kernel, by decide +kernel, by decide +kernel⟩
  y := ⟨0, 1, by decide +kernel, by decide +kernel, by decide +kernel⟩

theorem sample_cells_quotient :
    let g := sample quotient unitSquare ⟨2, by decide⟩ none true
    quotient.AlikeOver g.xs g.ys ∧ ∃ v, quotient.evaluateReal (1 : Float) 1 = .ok v ∧ cell? g.height 1 1 = some v := by
  intro g
  have halike : quotient.AlikeOver g.xs g.ys := Formula.alikeOver_of_isPlain rfl
  obtain ⟨⟨hxs, -⟩, ⟨hys, -⟩, -, hreal, -⟩ := sample_cells quotient unitSquare ⟨2, by decide⟩ none true
  exact ⟨halike, (hreal rfl).2 (fun _ => halike) 1 1 1 1 (by rw [hxs]; rfl) (by rw [hys]; rfl)⟩

end Grid

end Heightfield
