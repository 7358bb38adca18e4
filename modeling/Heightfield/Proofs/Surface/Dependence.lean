import Heightfield.Proofs.Formula.Variables
import Heightfield.Proofs.Surface.Sampling
/-!
# What a surface depends on

The value of a formula at a point depends only on the coordinates that its variables are given: `x` and `z` take
the first coordinate, `y` and `z` the second (`Formula.value?_congr`); so does the value in a cell of a lattice.  So a surface whose formula lacks the variables
of one coordinate does not change along that axis, in none of its channels (`Grid.depends_on_variables`).
-/
namespace Heightfield

/-! ## Tables of functions of one coordinate -/

theorem tabulate_of_second {α β : Type} (xs ys : List α) (h : α → β) :
    tabulate xs ys (fun _ y => h y) = (ys.map h).map (List.replicate xs.length) := by
  rw [List.map_map]
  exact List.map_congr_left fun y _ => List.map_const'

theorem tabulate_of_first {α β : Type} (xs ys : List α) (h : α → β) :
    tabulate xs ys (fun x _ => h x) = List.replicate ys.length (xs.map h) :=
  List.map_const'

variable {α : Type} [Analytic α]

/-! ## Values -/

namespace Formula

/-- The formula has a variable that takes the first coordinate of a point. -/
def ReadsX (f : Formula) : Prop := "x" ∈ f.freeVariables ∨ "z" ∈ f.freeVariables

/-- The formula has a variable that takes the second coordinate of a point. -/
def ReadsY (f : Formula) : Prop := "y" ∈ f.freeVariables ∨ "z" ∈ f.freeVariables

theorem environment_congr {mode : Mode} {name : String} {x₁ y₁ x₂ y₂ : α} (hx : name = "x" ∨ name = "z" → x₁ = x₂)
    (hy : name = "y" ∨ name = "z" → y₁ = y₂) : environment mode x₁ y₁ name = environment mode x₂ y₂ name := by
  by_cases hnx : name = "x"
  · subst hnx
    rw [hx (Or.inl rfl)]
    cases mode <;> rfl
  by_cases hny : name = "y"
  · subst hny
    rw [hy (Or.inl rfl)]
    cases mode <;> rfl
  by_cases hnz : name = "z"
  · rw [hx (Or.inr hnz), hy (Or.inr hnz)]
  · cases mode <;> simp only [environment, if_neg hnx, if_neg hny, if_neg hnz]

section
variable {f : Formula} {x₁ y₁ x₂ y₂ : α}

/-- Two points that agree in every coordinate that a variable takes give the variables the same values. -/
theorem environment_eq_of_mem_names (hx : f.ReadsX → x₁ = x₂) (hy : f.ReadsY → y₁ = y₂) :
    ∀ name ∈ f.expr.names, environment f.mode x₁ y₁ name = environment f.mode x₂ y₂ name := by
  intro name hname
  have hfree : name ∈ f.freeVariables := Expr.mem_freeVariables.2 hname
  refine environment_congr (fun h => hx ?_) fun h => hy ?_
  · rcases h with rfl | rfl
    · exact Or.inl hfree
    · exact Or.inr hfree
  · rcases h with rfl | rfl
    · exact Or.inl hfree
    · exact Or.inr hfree

/-- **The value at a point depends only on the coordinates that variables take**, and so does the value in a cell. -/
theorem value?_congr (hx : f.ReadsX → x₁ = x₂) (hy : f.ReadsY → y₁ = y₂) : f.value? x₁ y₁ = f.value? x₂ y₂ :=
  Expr.eval_congr (environment_eq_of_mem_names hx hy)

theorem sweptValue?_congr (whole : Bool) (xs ys : List α) (hx : f.ReadsX → x₁ = x₂) (hy : f.ReadsY → y₁ = y₂) :
    f.sweptValue? whole xs ys x₁ y₁ = f.sweptValue? whole xs ys x₂ y₂ := by
  unfold sweptValue?
  split
  · exact Expr.evalCell_congr (environment_eq_of_mem_names hx hy)
  · exact value?_congr hx hy

theorem outcome_congr (hx : f.ReadsX → x₁ = x₂) (hy : f.ReadsY → y₁ = y₂) : f.outcome x₁ y₁ = f.outcome x₂ y₂ := by
  rw [outcome, outcome, value?_congr hx hy]

end

end Formula

/-! ## Surfaces -/

namespace Grid

variable {f : Formula} {domain : Domain α} {n : Resolution} {clip : Option (Clip α)} {whole : Bool}

/-- The tables of a grid: heights, and imaginary parts over the complex plane. -/
def channels (g : Grid α) : List (List (List α)) := g.height :: g.imaginary.toList

/-- Each channel holds, in every cell, one function of the value in the cell. -/
theorem eq_tabulate_of_mem_channels {rows : List (List α)} (h : rows ∈ (sample f domain n clip whole).channels) :
    ∃ q : Option (Formula.Value α) → α,
      rows = tabulate (axes domain n).1 (axes domain n).2 fun x y => q (value? f domain n whole x y) := by
  cases hm : f.mode with
  | real =>
    rw [sample_of_real f domain n clip whole hm] at h
    obtain rfl := List.mem_singleton.1 h
    exact ⟨fun v => clippedHeight clip (Formula.Value.realOutcome v), rfl⟩
  | complex =>
    rw [sample_of_complex f domain n clip whole hm] at h
    rcases List.mem_cons.1 h with rfl | h
    · exact ⟨fun v => clippedHeight clip (Formula.Value.complexOutcome v).re, rfl⟩
    · obtain rfl := List.mem_singleton.1 h
      exact ⟨fun v => (Formula.Value.complexOutcome v).im, rfl⟩

/-- **A formula and its surfaces depend on the reported variables alone.**  At two points that agree in every
coordinate that a variable takes, the outcome is the same.  A surface has equal columns if neither `x` nor `z` is a
variable, equal rows if neither `y` nor `z` is, and a single height if there are no variables. -/
theorem depends_on_variables (f : Formula) :
    (∀ x₁ y₁ x₂ y₂ : α, ("x" ∈ f.freeVariables ∨ "z" ∈ f.freeVariables → x₁ = x₂) →
      ("y" ∈ f.freeVariables ∨ "z" ∈ f.freeVariables → y₁ = y₂) → f.outcome x₁ y₁ = f.outcome x₂ y₂) ∧
    ∀ (domain : Domain α) (n : Resolution) (clip : Option (Clip α)) (whole : Bool),
      ∀ rows ∈ (sample f domain n clip whole).channels,
        ("x" ∉ f.freeVariables → "z" ∉ f.freeVariables → ∃ column : List α, column.length = n ∧
          rows = column.map (List.replicate n)) ∧
        ("y" ∉ f.freeVariables → "z" ∉ f.freeVariables → ∃ row : List α, row.length = n ∧
          rows = List.replicate n row) ∧
        (f.freeVariables = [] → ∃ v : α, rows = List.replicate n (List.replicate n v)) := by
  refine ⟨fun x₁ y₁ x₂ y₂ hx hy => Formula.outcome_congr hx hy, fun domain n clip whole rows hrows => ?_⟩
  obtain ⟨q, rfl⟩ := eq_tabulate_of_mem_channels hrows
  have hxs : (axes domain n).1.length = n := length_axisSamples _ _ n.2
  have hys : (axes domain n).2.length = n := length_axisSamples _ _ n.2
  -- a coordinate that no variable takes may be replaced by any other
  have hignoresX : ¬f.ReadsX → ∀ x x' y, value? f domain n whole x y = value? f domain n whole x' y :=
    fun hx _ _ _ => Formula.sweptValue?_congr whole _ _ (fun h => absurd h hx) fun _ => rfl
  have hignoresY : ¬f.ReadsY → ∀ x y y', value? f domain n whole x y = value? f domain n whole x y' :=
    fun hy _ _ _ => Formula.sweptValue?_congr whole _ _ (fun _ => rfl) fun h => absurd h hy
  have hcolumns : ¬f.ReadsX → (tabulate (axes domain n).1 (axes domain n).2 fun x y => q (value? f domain n whole x y)) =
      ((axes domain n).2.map fun y => q (value? f domain n whole default y)).map (List.replicate n) := fun hx => by
    rw [← hxs, ← tabulate_of_second]
    exact tabulate_congr fun x _ y _ => by rw [hignoresX hx x default y]
  have hrowsEq : ¬f.ReadsY → (tabulate (axes domain n).1 (axes domain n).2 fun x y => q (value? f domain n whole x y)) =
      List.replicate n ((axes domain n).1.map fun x => q (value? f domain n whole x default)) := fun hy => by
    rw [← hys, ← tabulate_of_first]
    exact tabulate_congr fun x _ y _ => by rw [hignoresY hy x y default]
  refine ⟨fun hx hz => ⟨_, (List.length_map _).trans hys, hcolumns (not_or.2 ⟨hx, hz⟩)⟩,
    fun hy hz => ⟨_, (List.length_map _).trans hxs, hrowsEq (not_or.2 ⟨hy, hz⟩)⟩, fun hnone => ?_⟩
  have hx : ¬f.ReadsX := by simp [Formula.ReadsX, hnone]
  have hy : ¬f.ReadsY := by simp [Formula.ReadsY, hnone]
  refine ⟨q (value? f domain n whole default default), (hcolumns hx).trans ?_⟩
  simp only [hignoresY hy default _ default, List.map_const', hys, List.map_replicate]

end Grid

end Heightfield
