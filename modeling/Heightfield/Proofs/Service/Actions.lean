import Heightfield.Proofs.Number.Exact
import Heightfield.Proofs.Service.Given
import Heightfield.Proofs.Surface.Positions
/-!
# Actions agree

A formula can be validated, evaluated at a point, and plotted over a domain that is this point alone.  The three requests
are met, or fail in the same way (`actions_agree`).  The only cell of the plot shows the value at the point if the formula
means the same over a lattice as at its points; a power of one half can be a number at the point and none in the cell
(`rootLogarithm_apart`).
-/
namespace Heightfield
namespace Service

/-! ## The requests -/

/-- A request for an action on a formula. -/
def asked (action raw mode : String) (latex : Bool) (rest : Fields) : Fields :=
  [("action", .string action), ("expression", .string raw), ("mode", .string mode), ("latex", .bool latex)] ++ rest

/-- The fields of a point. -/
def pointFields (x y : Json) : Fields := [("x", x), ("y", y)]

/-- The fields of a plot of one point. -/
def spotFields (x y : Json) : Fields := [("domain", .object (boundsFields x x y y)), ("resolution", .int 1)]

section
variable (action raw mode : String) (latex : Bool) (rest : Fields)

theorem get?_asked {name : String} (h : name ∉ ["action", "expression", "mode", "latex"]) :
    Json.get? (asked action raw mode latex rest) name = Json.get? rest name := by
  simp only [List.mem_cons, List.not_mem_nil, or_false, not_or] at h
  obtain ⟨haction, hexpression, hmode, hlatex⟩ := h
  simp [asked, Ne.symm haction, Ne.symm hexpression, Ne.symm hmode, Ne.symm hlatex]

theorem formula_asked : formula (asked action raw mode latex rest) =
    (Formula.parse (Mode.named mode) latex raw).mapError .formula := by
  have htext : formulaText (asked action raw mode latex rest) = .ok raw := by simp [formulaText, asked]
  have hmode : Service.mode (asked action raw mode latex rest) = Mode.named mode := by
    simp [Service.mode, asked, Mode.ofJson]
  have hlatex : isLatex (asked action raw mode latex rest) = latex := by simp [isLatex, asked, Json.isTruthy]
  rw [formula_eq htext, hmode, hlatex]

end

/-! ## One point -/

/-- The interval of one finite number. -/
def singleton {x : Float} (hx : x.isFinite = true) : Interval Float :=
  ⟨x, x, hx, hx, Bool.eq_false_iff.2 fun h => lt_irrefl _ ((Double.lt_iff hx hx).1 h)⟩

/-- The domain of one point. -/
def spot {x y : Float} (hx : x.isFinite = true) (hy : y.isFinite = true) : Domain Float := ⟨singleton hx, singleton hy⟩

/-- The only cell of a channel. -/
def soleCell (j : Json) : Json := .array [.array [j]]

/-- The grid has one cell, and it shows the value at the point: in complex mode both parts or none of them. -/
def ShowsValue (grid value : Json) : Prop :=
  grid.field? "z" = some (soleCell value) ∧ (value = .null ∨ ∃ v : Float, v.isFinite = true ∧ value = .real v) ∨
    ∃ re im, value = .object [("real", re), ("imaginary", im)] ∧ grid.field? "real" = some (soleCell re) ∧
      grid.field? "imaginary" = some (soleCell im) ∧
      (re = .null ∧ im = .null ∨
        ∃ a b : Float, a.isFinite = true ∧ b.isFinite = true ∧ re = .real a ∧ im = .real b)

theorem finite_cases (v : Float) :
    v.isFinite = false ∧ Report.finite v = .null ∨ v.isFinite = true ∧ Report.finite v = .real v := by
  unfold Report.finite
  rw [show Scalar.isFinite v = v.isFinite from rfl]
  cases v.isFinite
  · exact Or.inl ⟨rfl, rfl⟩
  · exact Or.inr ⟨rfl, rfl⟩

/-- What a formula gives in the only cell of a lattice over one point. -/
def sweptOutcome (whole : Bool) (f : Formula) (x y : Float) : Formula.Outcome Float :=
  match f.mode with
  | .real => .height (Formula.Value.realOutcome (f.sweptValue? whole [x] [y] x y))
  | .complex => .number (Formula.Value.complexOutcome (f.sweptValue? whole [x] [y] x y))

/-- **What is swept is what is evaluated, if the powers agree at the point.** -/
theorem sweptOutcome_eq {whole : Bool} {f : Formula} {x y : Float}
    (h : whole = true → f.expr.PowersAgree (Formula.environment f.mode x y)) :
    sweptOutcome whole f x y = f.outcome x y := by
  have halike : whole = true → f.AlikeOver [x] [y] := fun hwhole =>
    Formula.alikeOver_of_powersAgree fun x' hx' y' hy' => by
      rw [List.mem_singleton.1 hx', List.mem_singleton.1 hy']
      exact h hwhole
  have hvalue : f.sweptValue? whole [x] [y] x y = f.value? x y :=
    Formula.sweptValue?_eq halike x (List.mem_singleton_self x) y (List.mem_singleton_self y)
  unfold sweptOutcome Formula.outcome
  cases f.mode <;> simp only [hvalue]

/-- **The only cell of a grid over one point shows what is swept there.** -/
theorem showsValue_sample (f : Formula) {x y : Float} (hx : x.isFinite = true) (hy : y.isFinite = true) (whole : Bool) :
    ShowsValue (Report.grid (Grid.sample f (spot hx hy) ⟨1, le_rfl⟩ none whole)) (outcomeJson (sweptOutcome whole f x y)) := by
  have haxes : Grid.axes (spot hx hy) ⟨1, le_rfl⟩ = ([x], [y]) := rfl
  have hvalue : Grid.value? f (spot hx hy) ⟨1, le_rfl⟩ whole = f.sweptValue? whole [x] [y] := rfl
  unfold sweptOutcome
  rw [← hvalue]
  cases hmode : f.mode with
  | real =>
    rw [Grid.sample_of_real _ _ _ _ _ hmode, haxes]
    left
    refine ⟨rfl, ?_⟩
    rcases finite_cases (Formula.Value.realOutcome (Grid.value? f (spot hx hy) ⟨1, le_rfl⟩ whole x y)) with ⟨-, h⟩ | ⟨hfinite, h⟩
    · exact Or.inl h
    · exact Or.inr ⟨_, hfinite, h⟩
  | complex =>
    rw [Grid.sample_of_complex _ _ _ _ _ hmode, haxes]
    right
    refine ⟨_, _, rfl, rfl, rfl, ?_⟩
    have hboth := isFinite_complexOutcome (Grid.value? f (spot hx hy) ⟨1, le_rfl⟩ whole x y)
    generalize Grid.value? f (spot hx hy) ⟨1, le_rfl⟩ whole x y = v at hboth
    rcases finite_cases (Formula.Value.complexOutcome v).re with ⟨hre, h⟩ | ⟨hre, h⟩
    · rcases finite_cases (Formula.Value.complexOutcome v).im with ⟨-, h'⟩ | ⟨him, -⟩
      · exact Or.inl ⟨h, h'⟩
      · rw [← hboth, hre] at him
        cases him
    · rcases finite_cases (Formula.Value.complexOutcome v).im with ⟨him, -⟩ | ⟨him, h'⟩
      · rw [← hboth, hre] at him
        cases him
      · exact Or.inr ⟨_, _, hre, him, h, h'⟩

theorem length_finiteCells_sample (f : Formula) {x y : Float} (hx : x.isFinite = true) (hy : y.isFinite = true)
    (whole : Bool) : (finiteCells (Grid.sample f (spot hx hy) ⟨1, le_rfl⟩ none whole).height).length ≤ 1 := by
  have hsquare := (Grid.square_sample f (spot hx hy) ⟨1, le_rfl⟩ none whole).1
  exact (List.length_filter_le _ _).trans (length_flatten_square hsquare).le

/-! ## The answers -/

/-- The answer tells of success, and shows the text of a formula and its variables. -/
structure ShowsFormula (answer : Json) (f : Formula) : Prop where
  status : answer.readField "status" Json.string? = some "success"
  expression : answer.readField "expression" Json.string? = some f.text
  vars : answer.readField "vars" (Json.list? Json.string?) = some f.freeVariables

theorem list?_variablesJson (f : Formula) : Json.list? Json.string? (variablesJson f) = some f.freeVariables :=
  Json.list?_map_self .string (fun _ => rfl) _

section
variable {settings : Settings} (raw mode : String) (latex : Bool) {jx jy : Json} {x y : Float}

theorem plot_asked {f : Formula} (hparse : Formula.parse (Mode.named mode) latex raw = .ok f)
    (hmax : 1 ≤ settings.maxResolution) (hplaced : Limits.Placed 1 settings.percentile) (hx : jx.toDouble = .ok x)
    (hy : jy.toDouble = .ok y) (hxfinite : x.isFinite = true) (hyfinite : y.isFinite = true) :
    ∃ s : Steps, s.formula = f ∧ s.grid = Grid.sample f (spot hxfinite hyfinite) ⟨1, le_rfl⟩ none settings.wholeSweeps ∧
      answerValue settings (.object (asked "plot" raw mode latex (spotFields jx jy))) = success s.fields := by
  have hget : ∀ name, name ∉ ["action", "expression", "mode", "latex"] →
      Json.get? (asked "plot" raw mode latex (spotFields jx jy)) name = Json.get? (spotFields jx jy) name :=
    fun name => get?_asked "plot" raw mode latex _
  have hconfig : config (asked "plot" raw mode latex (spotFields jx jy)) = .object [] := by
    rw [config, hget "config" (by decide)]
    rfl
  obtain ⟨l, hl⟩ := Limits.exists_ofHeights_of_length_le
    (length_finiteCells_sample f hxfinite hyfinite settings.wholeSweeps) hplaced
  refine ⟨⟨f, spot hxfinite hyfinite, ⟨1, le_rfl⟩, none, settings.percentile, settings.wholeSweeps, l, []⟩, rfl, rfl, ?_⟩
  have htaken : Steps.Taken ⟨f, spot hxfinite hyfinite, ⟨1, le_rfl⟩, none, settings.percentile, settings.wholeSweeps, l, []⟩
      settings (asked "plot" raw mode latex (spotFields jx jy)) (.object []) :=
    { formula := by rw [formula_asked, hparse]; rfl
      domain := domain_of_get? ((hget "domain" (by decide)).trans rfl) rfl
        (Domain.ofJson_boundsFields settings hx hx hy hy (Domain.ofBounds_eq (spot hxfinite hyfinite))) _
      resolution := resolution_of_get? ((hget "resolution" (by decide)).trans rfl) hmax
      clip := by rw [hget "clip" (by decide)]; rfl
      percentile := by
        rw [percentile, parameter, hget "percentile" (by decide)]
        rfl
      whole := rfl
      limits := hl
      painted := by
        rw [colours, parameter, hget "colormap" (by decide)]
        rfl }
  have hperform : perform settings (asked "plot" raw mode latex (spotFields jx jy)) =
      plot settings (asked "plot" raw mode latex (spotFields jx jy)) (config (asked "plot" raw mode latex (spotFields jx jy))) :=
    rfl
  rw [answerValue, hperform, hconfig, plot_of_taken htaken]

theorem validate_asked {f : Formula} (hparse : Formula.parse (Mode.named mode) latex raw = .ok f) :
    answerValue settings (.object (asked "validate" raw mode latex [])) =
      success [("valid", .bool true), ("expression", .string f.text), ("vars", variablesJson f)] := by
  have hperform : perform settings (asked "validate" raw mode latex []) = validate (asked "validate" raw mode latex []) :=
    rfl
  rw [answerValue, hperform, validate, formula_asked, hparse]
  rfl

theorem evaluate_asked {f : Formula} (hparse : Formula.parse (Mode.named mode) latex raw = .ok f)
    (hx : jx.toDouble = .ok x) (hy : jy.toDouble = .ok y) :
    answerValue settings (.object (asked "evaluate" raw mode latex (pointFields jx jy))) =
      success [("expression", .string f.text), ("vars", variablesJson f), ("value", outcomeJson (f.outcome x y))] := by
  have hperform : perform settings (asked "evaluate" raw mode latex (pointFields jx jy)) =
      evaluate (asked "evaluate" raw mode latex (pointFields jx jy)) := rfl
  have hcoordinate : ∀ (name : String) {j : Json} {v : Float}, name ∉ ["action", "expression", "mode", "latex"] →
      Json.get? (pointFields jx jy) name = some j → j.toDouble = .ok v →
      coordinate (asked "evaluate" raw mode latex (pointFields jx jy)) name = .ok v := fun name _ _ hname hget hj => by
    rw [coordinate, get?_asked _ _ _ _ _ hname, hget]
    simp only [hj]
    rfl
  rw [answerValue, hperform, evaluate, formula_asked, hparse,
    hcoordinate "x" (by decide) rfl hx, hcoordinate "y" (by decide) rfl hy]
  rfl

/-- Without a formula no action is taken. -/
theorem answerValue_asked {e : FormulaError} (hparse : Formula.parse (Mode.named mode) latex raw = .error e) {action : String}
    (haction : action ∈ ["validate", "evaluate", "plot"]) (rest : Fields) :
    answerValue settings (.object (asked action raw mode latex rest)) = failure (.formula e) := by
  have hformula : formula (asked action raw mode latex rest) = .error (.formula e) := by
    rw [formula_asked, hparse]
    rfl
  have hperform : perform settings (asked action raw mode latex rest) = .error (.formula e) := by
    simp only [List.mem_cons, List.not_mem_nil, or_false] at haction
    rcases haction with rfl | rfl | rfl
    · show validate _ = _
      rw [validate, hformula]
      rfl
    · show evaluate _ = _
      rw [evaluate, hformula]
      rfl
    · show plot settings _ _ = _
      rw [plot, hformula]
      rfl
  rw [answerValue, hperform]

theorem valid_eq_true_iff {mode : Except String Mode} {latex : Bool} {raw : String} :
    Formula.valid mode latex raw = .ok true ↔ ∃ f, Formula.parse mode latex raw = .ok f := by
  unfold Formula.valid
  split
  · rename_i f hf
    exact ⟨fun _ => ⟨f, hf⟩, fun _ => rfl⟩
  all_goals
    rename_i hf
    rw [hf]
    simp

/-- The answers to the three requests agree: either there is a formula, and all show it, or there is none, and all tell of
one failure.  The only cell of the plot shows what is swept at the point.  That is the value there, if the lattice is swept
cell by cell, or if the shorter rules for shared exponents give the powers that they stand for. -/
def ActionsAgree (settings : Settings) (raw mode : String) (latex : Bool) (jx jy : Json) (x y : Float) : Prop :=
  let validated := answerValue settings (.object (asked "validate" raw mode latex []))
  let evaluated := answerValue settings (.object (asked "evaluate" raw mode latex (pointFields jx jy)))
  let plotted := answerValue settings (.object (asked "plot" raw mode latex (spotFields jx jy)))
  (Formula.valid (Mode.named mode) latex raw = .ok true ∧
    ∃ f grid, Formula.parse (Mode.named mode) latex raw = .ok f ∧
      (ShowsFormula validated f ∧ ShowsFormula evaluated f ∧ ShowsFormula plotted f) ∧
      evaluated.field? "value" = some (outcomeJson (f.outcome x y)) ∧ plotted.field? "grid" = some grid ∧
      ShowsValue grid (outcomeJson (sweptOutcome settings.wholeSweeps f x y)) ∧
      ((settings.wholeSweeps = true → f.expr.PowersAgree (Formula.environment f.mode x y)) →
        ShowsValue grid (outcomeJson (f.outcome x y)))) ∨
  (Formula.valid (Mode.named mode) latex raw ≠ .ok true ∧
    ∃ e, validated = failure e ∧ evaluated = failure e ∧ plotted = failure e)

/-- **The actions agree on a formula**, whatever the text, the mode and the notation are, and at every finite point. -/
theorem actions_agree (hmax : 1 ≤ settings.maxResolution) (hplaced : Limits.Placed 1 settings.percentile)
    (raw mode : String) (latex : Bool) (hx : jx.toDouble = .ok x) (hy : jy.toDouble = .ok y)
    (hxfinite : x.isFinite = true) (hyfinite : y.isFinite = true) : ActionsAgree settings raw mode latex jx jy x y := by
  unfold ActionsAgree
  intro validated evaluated plotted
  cases hparse : Formula.parse (Mode.named mode) latex raw with
  | ok f =>
    left
    have hvalidated : validated = _ := validate_asked raw mode latex hparse
    have hevaluated : evaluated = _ := evaluate_asked raw mode latex hparse hx hy
    obtain ⟨s, rfl, hgrid, hplotted⟩ := plot_asked raw mode latex hparse hmax hplaced hx hy hxfinite hyfinite
    have hcell := showsValue_sample s.formula hxfinite hyfinite settings.wholeSweeps
    rw [← hgrid] at hcell
    rw [show plotted = success s.fields from hplotted, hvalidated, hevaluated]
    refine ⟨valid_eq_true_iff.2 ⟨s.formula, hparse⟩, s.formula, Report.grid s.grid, rfl,
      ⟨⟨rfl, rfl, list?_variablesJson _⟩, ⟨rfl, rfl, list?_variablesJson _⟩, ⟨rfl, rfl, list?_variablesJson _⟩⟩,
      rfl, rfl, hcell, fun hpowers => ?_⟩
    rwa [sweptOutcome_eq hpowers] at hcell
  | error e =>
    right
    refine ⟨fun hvalid => ?_, .formula e, answerValue_asked raw mode latex hparse (by simp) _,
      answerValue_asked raw mode latex hparse (by simp) _, answerValue_asked raw mode latex hparse (by simp) _⟩
    obtain ⟨f, hf⟩ := valid_eq_true_iff.1 hvalid
    rw [hparse] at hf
    cases hf

end

theorem toDouble_int {n : Int} (h : (Scalar.ofInt n : Float).isFinite = true) :
    (Json.int n).toDouble = .ok (Scalar.ofInt n) := if_pos h

/-- At a point without a logarithm. -/
theorem actions_agree_logarithm :
    1 ≤ Settings.standard.maxResolution ∧ Limits.Placed 1 Settings.standard.percentile ∧
    (Json.int (-1)).toDouble = .ok (Scalar.ofInt (-1)) ∧ (Json.real 0.5).toDouble = .ok 0.5 ∧
    (Scalar.ofInt (-1) : Float).isFinite = true ∧ (0.5 : Float).isFinite = true ∧
    ActionsAgree .standard "w = \\ln(x)y" "real" true (.int (-1)) (.real 0.5) (Scalar.ofInt (-1)) 0.5 := by
  have hmax : 1 ≤ Settings.standard.maxResolution := by decide +kernel
  have hplaced : Limits.Placed 1 Settings.standard.percentile := by decide +kernel
  have hx : (Scalar.ofInt (-1) : Float).isFinite = true := by decide +kernel
  have hy : (0.5 : Float).isFinite = true := by decide +kernel
  exact ⟨hmax, hplaced, toDouble_int hx, rfl, hx, hy,
    actions_agree hmax hplaced "w = \\ln(x)y" "real" true (toDouble_int hx) rfl hx hy⟩

/-! ## A formula that means something else over a lattice -/

/-- One over a root of the logarithm. -/
def rootLogarithm : Formula where
  text := "1/log(x)^(1/2)"
  mode := .real
  expr := .binary .div (.int 1)
    (.binary .pow (.apply (.elementary .log) (.var "x")) (.binary .div (.int 1) (.int 2)))

/-- Of the functions of analysis, the logarithm of zero, and its root as a power and as a root. -/
@[reducible] def logarithmOfZero : OtherFunctions ℚ where
  apply
    | .log, .number a => if a = 0 then .infinite true else .notANumber
    | _, _ => .notANumber
  applyComplex _ z := z
  cbrt _ := .notANumber
  pow
    | .infinite _, _ => .infinite false
    | _, _ => .notANumber
  powComplex z _ := z
  length _ _ := .notANumber
  atan2 _ _ := .notANumber
  pi := .notANumber
  euler := .notANumber

/-- The domain of the origin alone. -/
def origin : Domain (Exact ℚ) where
  x := ⟨.number 0, .number 0, rfl, rfl, by decide +kernel⟩
  y := ⟨.number 0, .number 0, rfl, rfl, by decide +kernel⟩

/-- **A formula can have a height at a point and none in the cell there.**  At zero the logarithm is infinite.  As a power
its root is infinite too, and one over it is zero; but the cells of a lattice are raised to one half by the square root, which
is not a number below zero. -/
theorem rootLogarithm_apart : Formula.parse (.ok .real) false "1/log(x)^(1/2)" = .ok rootLogarithm ∧
    @Formula.evaluateReal (Exact ℚ) (@Exact.instAnalyticOfOtherFunctions ℚ _ _ _ logarithmOfZero) rootLogarithm
      (.number 0) (.number 0) = .ok (.number 0) ∧
    (@Grid.sample (Exact ℚ) (@Exact.instAnalyticOfOtherFunctions ℚ _ _ _ logarithmOfZero) rootLogarithm origin ⟨1, le_rfl⟩
      none true).height = [[.notANumber]] := by
  decide +kernel

end Service
end Heightfield
