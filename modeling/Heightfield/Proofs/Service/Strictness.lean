import Heightfield.Proofs.Colour.Channels
import Heightfield.Proofs.Service.Consistency
import Heightfield.Proofs.Surface.Magnitude
/-!
# Finite numbers in answers

Cells, axes, bounds, domains, values and colours are finite in every answer, or null.  Limits, means and medians are
computed from finite heights afterwards, and written as they come out: near the greatest double they overflow.  So an
answer has finite numbers alone, or it shows a surface whose heights are too large for its size
(`finite_or_not_moderate`), and nothing but what is derived from the heights is infinite in it.
-/
namespace Heightfield

/-! ## The numbers of a value -/

namespace Json

mutual

/-- The real numbers in a value, at any depth. -/
def reals : Json → List Float
  | real x => [x]
  | array items => realsOfItems items
  | object fields => realsOfFields fields
  | _ => []

def realsOfItems : List Json → List Float
  | [] => []
  | j :: items => reals j ++ realsOfItems items

def realsOfFields : List (String × Json) → List Float
  | [] => []
  | (_, j) :: fields => reals j ++ realsOfFields fields

end

/-- Every real number in the value has the property. -/
def Holds (p : Float → Prop) (j : Json) : Prop := ∀ x ∈ j.reals, p x

variable {p : Float → Prop}

theorem holds_real {x : Float} : Holds p (.real x) ↔ p x := List.forall_mem_singleton

theorem holds_array : ∀ {items : List Json}, Holds p (.array items) ↔ ∀ j ∈ items, Holds p j
  | [] => ⟨nofun, nofun⟩
  | j :: items => by
    rw [List.forall_mem_cons, ← holds_array]
    exact List.forall_mem_append

theorem holds_object : ∀ {fields : List (String × Json)}, Holds p (.object fields) ↔ ∀ f ∈ fields, Holds p f.2
  | [] => ⟨nofun, nofun⟩
  | (_, j) :: fields => by
    rw [List.forall_mem_cons, ← holds_object]
    exact List.forall_mem_append

theorem holds_null : Holds p .null := nofun

theorem holds_bool (b : Bool) : Holds p (.bool b) := nofun

theorem holds_int (n : Int) : Holds p (.int n) := nofun

theorem holds_string (s : String) : Holds p (.string s) := nofun

theorem holds_array_map {β : Type} {write : β → Json} {bs : List β} (h : ∀ b ∈ bs, Holds p (write b)) :
    Holds p (.array (bs.map write)) :=
  holds_array.2 (List.forall_mem_map.2 h)

end Json

open Json (Holds)

/-! ## Reports -/

namespace Report

variable {p : Float → Prop} (hp : ∀ x : Float, x.isFinite = true → p x)

include hp

theorem holds_finite (x : Float) : Holds p (finite x) := by
  unfold finite
  split
  · rename_i h
    exact Json.holds_real.2 (hp x h)
  · exact Json.holds_null

theorem holds_row (xs : List Float) : Holds p (row xs) := Json.holds_array_map fun x _ => holds_finite hp x

theorem holds_matrix (rows : List (List Float)) : Holds p (matrix rows) :=
  Json.holds_array_map fun xs _ => holds_row hp xs

theorem holds_domain (d : Domain Float) : Holds p (domain d) := by
  refine Json.holds_object.2 ?_
  simp only [List.forall_mem_cons, Json.holds_real]
  exact ⟨hp _ d.x.lower_finite, hp _ d.x.upper_finite, hp _ d.y.lower_finite, hp _ d.y.upper_finite, nofun⟩

theorem holds_grid (g : Grid Float) : Holds p (grid g) := by
  have hbounds : ∀ rows, p (finiteBounds rows).1 ∧ p (finiteBounds rows).2 := fun rows =>
    ⟨hp _ (isFinite_finiteBounds rows).1, hp _ (isFinite_finiteBounds rows).2⟩
  unfold grid
  cases g.imaginary with
  | none =>
    refine Json.holds_object.2 ?_
    simp only [List.cons_append, List.nil_append, List.forall_mem_cons, Json.holds_real]
    exact ⟨Json.holds_string _, holds_row hp _, holds_row hp _, holds_matrix hp _, (hbounds _).1, (hbounds _).2, nofun⟩
  | some imaginary =>
    refine Json.holds_object.2 ?_
    simp only [List.cons_append, List.nil_append, List.forall_mem_cons, Json.holds_real]
    exact ⟨Json.holds_string _, holds_row hp _, holds_row hp _, holds_matrix hp _, holds_matrix hp _, (hbounds _).1,
      (hbounds _).2, (hbounds _).1, (hbounds _).2, nofun⟩

end Report

/-! ## Derived numbers -/

namespace PlotView

/-- The numbers that are computed from the heights. -/
def derived (v : PlotView) : List Float :=
  [v.lower, v.upper, v.mean, v.median] ++ v.imaginaryMean.toList ++ v.imaginaryMedian.toList

/-- The numbers shown have magnitudes so small that those of all cells, and one more, still have a finite sum. -/
def Moderate (v : PlotView) : Prop :=
  ∃ k : ℤ, -1074 ≤ k ∧ v.total < 2 ^ 53 ∧ ((v.total : ℚ) + 1) * 2 ^ k ≤ Double.greatest ∧
    ∀ l ∈ v.layers, ∀ x ∈ l.numbers, |Double.value x| ≤ 2 ^ k

end PlotView

namespace Service

variable {settings : Settings} {request : Fields}

namespace Steps

variable {s : Steps}

theorem holds_painted {p : Float → Prop} (hp : ∀ x : Float, x.isFinite = true → p x)
    (h : s.Taken settings request (config request)) : ∀ f ∈ s.painted, Holds p f.2 := by
  rcases colours_eq_ok h.painted with ⟨hnil, -⟩ | ⟨name, -, -, hpainted⟩
  · rw [hnil]
    exact nofun
  · rw [hpainted]
    simp only [List.forall_mem_cons]
    refine ⟨Json.holds_string name, Json.holds_array_map fun row hrow => Json.holds_array_map fun c hc => ?_, nofun⟩
    exact Json.holds_array_map fun x hx =>
      Json.holds_real.2 (hp x (Colour.isFinite_of_mem_shadeAll _ _ _ _ row hrow c hc x hx))

/-- **Apart from derived numbers, a plot holds finite ones.** -/
theorem holds_fields {p : Float → Prop} (h : s.Taken settings request (config request))
    {colours : Option (List (List (List Float)))} (hp : ∀ x : Float, x.isFinite = true → p x)
    (hderived : ∀ x ∈ (s.view colours).derived, p x) : Holds p (success s.fields) := by
  simp only [PlotView.derived, view, List.forall_mem_append, List.forall_mem_cons, Option.mem_toList] at hderived
  obtain ⟨⟨⟨hlower, hupper, hmean, hmedian, -⟩, himean⟩, himedian⟩ := hderived
  have hoptional : ∀ c : Option Float, (∀ x ∈ c, p x) → Holds p ((c.map Json.real).getD .null) := fun c hc => by
    cases c with
    | none => exact Json.holds_null
    | some x => exact Json.holds_real.2 (hc x rfl)
  have hlimits : Holds p (.object [("min", .real s.limits.lower), ("max", .real s.limits.upper)]) := by
    refine Json.holds_object.2 ?_
    simp only [List.forall_mem_cons, Json.holds_real]
    exact ⟨hlower, hupper, nofun⟩
  have hstatistics : Holds p (Report.statistics s.grid.statistics) := by
    refine Json.holds_object.2 ?_
    have himean' := hoptional _ himean
    have himedian' := hoptional _ himedian
    rw [Option.map_map] at himean' himedian'
    simp only [List.forall_mem_cons, Json.holds_real]
    exact ⟨hmean, hmedian, himean', himedian', Json.holds_int _, Json.holds_int _, Json.holds_int _, nofun⟩
  have hvars : Holds p (variablesJson s.formula) := Json.holds_array_map fun name _ => Json.holds_string name
  refine Json.holds_object.2 (List.forall_mem_cons.2 ⟨Json.holds_string _, ?_⟩)
  refine List.forall_mem_append.2 ⟨?_, holds_painted hp h⟩
  simp only [List.forall_mem_cons]
  exact ⟨Json.holds_string _, Json.holds_string _, hvars, Report.holds_domain hp _, Json.holds_int _,
    Report.holds_grid hp _, hlimits, hstatistics, nofun⟩

/-- The mean and the median of a channel are finite when there is room for its cells. -/
theorem isFinite_ofValues {k : ℤ} {n : ℕ} (room : Room k (n * n + 1)) {rows : List (List Float)}
    (hsquare : Grid.Square n rows) (hunits : ∀ v ∈ finiteCells rows, Units k 1 v) :
    (Channel.ofValues (finiteCells rows)).mean.isFinite = true ∧
      (Channel.ofValues (finiteCells rows)).median.isFinite = true := by
  have hlength : (finiteCells rows).length ≤ n * n + 1 := by
    have hle := List.length_filter_le Float.isFinite rows.flatten
    rw [length_flatten_square hsquare] at hle
    exact Nat.le_succ_of_le hle
  exact ⟨(Units.mean room hunits hlength (by omega)).isFinite, (Units.median room hunits hlength (by omega)).isFinite⟩

/-- **What is derived from moderate heights is finite.** -/
theorem isFinite_derived (h : s.Taken settings request (config request))
    {colours : Option (List (List (List Float)))} (hmoderate : (s.view colours).Moderate) :
    ∀ x ∈ (s.view colours).derived, x.isFinite = true := by
  obtain ⟨k, hk, htotal, hsum, hnumbers⟩ := hmoderate
  have heven : s.grid.Even s.resolution := Grid.even_sample _ _ _ _ _
  obtain ⟨hheight, himaginary, hcells, -⟩ := heven.statistics
  have hpos : 1 ≤ s.resolution.val * s.resolution.val := Nat.mul_le_mul s.resolution.2 s.resolution.2
  have hviewed : (s.view colours).total = (s.resolution.val * s.resolution.val : ℕ) := congrArg Nat.cast hcells
  rw [hviewed] at htotal hsum
  -- there is room for a unit in each cell, and one more
  have room : Room k (s.resolution.val * s.resolution.val + 1) :=
    ⟨hk, by exact_mod_cast htotal, by exact_mod_cast hsum⟩
  have hunits : ∀ rows, Layer.ofRows rows ∈ (s.view colours).layers → ∀ v ∈ finiteCells rows, Units k 1 v :=
    fun rows hrows v hv => by
      refine ⟨isFinite_of_mem_finiteCells hv, ?_⟩
      rw [Nat.cast_one, one_mul]
      exact hnumbers _ hrows v (by rwa [Layer.numbers_ofRows])
  have hlimits : s.limits.lower.isFinite = true ∧ s.limits.upper.isFinite = true := by
    rcases Units.ofHeights room (by omega) (hunits _ List.mem_cons_self) h.limits with hfallback | ⟨hlower, hupper⟩
    · rw [hfallback]
      exact ⟨by decide +kernel, by decide +kernel⟩
    · exact ⟨hlower.isFinite, hupper.isFinite⟩
  have hstatistics : s.grid.statistics.height.mean.isFinite = true ∧
      s.grid.statistics.height.median.isFinite = true := by
    rw [hheight]
    exact isFinite_ofValues room heven.square (hunits _ List.mem_cons_self)
  have hsecond : ∀ c ∈ s.grid.statistics.imaginary, c.mean.isFinite = true ∧ c.median.isFinite = true := fun c hc => by
    rw [himaginary] at hc
    obtain ⟨rows, hrows, rfl⟩ := Option.map_eq_some_iff.1 hc
    refine isFinite_ofValues room (heven.imaginary rows hrows).1 (hunits rows (List.mem_cons_of_mem _ ?_))
    exact Option.mem_toList.2 (Option.map_eq_some_iff.2 ⟨rows, hrows, rfl⟩)
  simp only [PlotView.derived, view, List.forall_mem_append, List.forall_mem_cons, Option.mem_toList]
  refine ⟨⟨⟨hlimits.1, hlimits.2, hstatistics.1, hstatistics.2, nofun⟩, fun x hx => ?_⟩, fun x hx => ?_⟩
  · obtain ⟨c, hc, rfl⟩ := Option.map_eq_some_iff.1 hx
    exact (hsecond c hc).1
  · obtain ⟨c, hc, rfl⟩ := Option.map_eq_some_iff.1 hx
    exact (hsecond c hc).2

end Steps

theorem holds_failure {p : Float → Prop} (e : RequestError) : Holds p (failure e) := by
  refine Json.holds_object.2 (List.forall_mem_append.2 ⟨?_, ?_⟩)
  · simp only [List.forall_mem_cons]
    exact ⟨Json.holds_string _, Json.holds_string _, Json.holds_string _, nofun⟩
  · unfold RequestError.details
    split
    · exact List.forall_mem_singleton.2 (Json.holds_array_map fun name _ => Json.holds_string name)
    · exact nofun

theorem holds_outcomeJson {p : Float → Prop} (hp : ∀ x : Float, x.isFinite = true → p x) :
    ∀ o : Formula.Outcome Float, Holds p (outcomeJson o)
  | .height x => Report.holds_finite hp x
  | .number z => Json.holds_object.2 (List.forall_mem_cons.2
      ⟨Report.holds_finite hp z.re, List.forall_mem_singleton.2 (Report.holds_finite hp z.im)⟩)

theorem holds_of_not_isPlot {p : Float → Prop} (hp : ∀ x : Float, x.isFinite = true → p x) {line : List Char}
    (h : ¬IsPlot (answer settings line)) : Holds p (answer settings line) := by
  have hvars : ∀ f : Formula, Holds p (variablesJson f) := fun f =>
    Json.holds_array_map fun name _ => Json.holds_string name
  rcases answer_cases settings line with ⟨e, hanswer⟩ | ⟨request, fields, -, hperform, hanswer⟩
  · rw [hanswer]
    exact holds_failure e
  rw [hanswer] at h ⊢
  refine Json.holds_object.2 (List.forall_mem_cons.2 ⟨Json.holds_string _, ?_⟩)
  rcases perform_eq_ok hperform with hplot | ⟨f, x, y, rfl⟩ | ⟨f, rfl⟩ | ⟨raw, rfl⟩ | rfl
  · obtain ⟨s, -, rfl⟩ := plot_eq_ok hplot
    exact absurd (isPlot_success s) h
  · simp only [List.forall_mem_cons]
    exact ⟨Json.holds_string _, hvars f, holds_outcomeJson hp _, nofun⟩
  · simp only [List.forall_mem_cons]
    exact ⟨Json.holds_bool _, Json.holds_string _, hvars f, nofun⟩
  · exact List.forall_mem_singleton.2 (Json.holds_string _)
  · have hnone : (Json.object catalog).reals = [] := by decide +kernel
    refine Json.holds_object.1 fun x hx => ?_
    rw [hnone] at hx
    cases hx

/-- **An answer has finite numbers alone, or shows a surface with heights too large for its size.**  Even then only
limits, means and medians are not finite. -/
theorem finite_or_not_moderate (settings : Settings) (line : List Char) :
    (∀ x ∈ (answer settings line).reals, x.isFinite = true) ∨
      ∃ view, PlotView.ofJson? (answer settings line) = some view ∧ ¬view.Moderate ∧
        ∀ x ∈ (answer settings line).reals, x.isFinite = true ∨ x ∈ view.derived := by
  by_cases hplot : IsPlot (answer settings line)
  · obtain ⟨request, s, -, htaken, hanswer⟩ := exists_steps hplot
    obtain ⟨colours, hcolours, -⟩ := Steps.consistent_view htaken
    rw [hanswer]
    by_cases hmoderate : (s.view colours).Moderate
    · exact Or.inl (Steps.holds_fields htaken (fun _ => id) (Steps.isFinite_derived htaken hmoderate))
    · refine Or.inr ⟨_, s.ofJson?_success hcolours, hmoderate, ?_⟩
      exact Steps.holds_fields htaken (fun _ => Or.inl) fun _ => Or.inr
  · exact Or.inl (holds_of_not_isPlot (fun _ => id) hplot)

/-! ## Limits that overflow -/

/-- A slope from nearly the least double up to zero, in four cells. -/
def slopeLine : List Char :=
  ("\x7b\"expression\":\"y\",\"resolution\":2," ++ "\"domain\":\x7b\"yMin\":-1.7e308,\"yMax\":0\x7d\x7d").toList

def slopeRequest : Fields :=
  [("expression", .string "y"), ("resolution", .int 2),
    ("domain", .object [("yMin", .real (Binary64.ofDecimal true 17 307)), ("yMax", .int 0)])]

/-- The two numbers are the bounds of an interval. -/
def Bounds (lower upper : Float) : Prop :=
  Scalar.isFinite lower = true ∧ Scalar.isFinite upper = true ∧ Scalar.lt upper lower = false

instance (lower upper : Float) : Decidable (Bounds lower upper) := inferInstanceAs (Decidable (_ ∧ _ ∧ _))

def Bounds.interval {lower upper : Float} (h : Bounds lower upper) : Interval Float :=
  ⟨lower, upper, h.1, h.2.1, h.2.2⟩

theorem bounds_across : Bounds (-5.0) 5.0 := by decide +kernel

theorem bounds_along : Bounds (Binary64.ofDecimal true 17 307) (Scalar.ofInt 0) := by decide +kernel

def slopeDomain : Domain Float := ⟨bounds_across.interval, bounds_along.interval⟩

def slope : Steps where
  formula := ⟨"y", .real, .var "y"⟩
  domain := slopeDomain
  resolution := ⟨2, by decide⟩
  clip := none
  percentile := 95.0
  whole := true
  limits := .padded slopeDomain.y.lower slopeDomain.y.upper
  painted := []

def bounds (d : Domain Float) : List Float := [d.x.lower, d.x.upper, d.y.lower, d.y.upper]

theorem eq_of_bounds_eq {d d' : Domain Float} (h : bounds d = bounds d') : d = d' := by
  obtain ⟨⟨xl, xu, _, _, _⟩, ⟨yl, yu, _, _, _⟩⟩ := d
  obtain ⟨⟨xl', xu', _, _, _⟩, ⟨yl', yu', _, _, _⟩⟩ := d'
  simp only [bounds, List.cons.injEq, and_true] at h
  obtain ⟨rfl, rfl, rfl, rfl⟩ := h
  rfl

theorem domain_slope : Service.domain .standard slopeRequest (config slopeRequest) = .ok slope.domain := by
  have hbounds : (Service.domain .standard slopeRequest (config slopeRequest)).toOption.map bounds =
      some (bounds slope.domain) := by decide +kernel
  cases hdomain : Service.domain .standard slopeRequest (config slopeRequest) with
  | error e =>
    rw [hdomain] at hbounds
    cases hbounds
  | ok d =>
    rw [hdomain] at hbounds
    exact congrArg Except.ok (eq_of_bounds_eq (Option.some.inj hbounds))

theorem limits_slope : slope.grid.limits slope.percentile = .ok slope.limits := by
  have hcells : finiteCells slope.grid.height =
      [slopeDomain.y.lower, slopeDomain.y.lower, slopeDomain.y.upper, slopeDomain.y.upper] := by decide +kernel
  have hsorted : Limits.sortedHeights slope.grid.height = finiteCells slope.grid.height :=
    List.mergeSort_of_pairwise (by decide +kernel)
  have hlower : Limits.lowerIndex 4 slope.percentile = .ok 0 := by decide +kernel
  have hupper : Limits.upperIndex 4 slope.percentile = .ok 3 := by decide +kernel
  have h := Limits.ofHeights_of_indexes (hsorted.trans hcells) (List.cons_ne_nil _ _) hlower hupper
  simp only [List.getElem?_cons_zero, List.getElem?_cons_succ, Option.getD_some] at h
  exact h

theorem taken_slope : slope.Taken .standard slopeRequest (config slopeRequest) where
  formula := by
    have h : (Service.formula slopeRequest).toOption = some slope.formula := by decide +kernel
    cases hformula : Service.formula slopeRequest with
    | error e =>
      rw [hformula] at h
      cases h
    | ok f =>
      rw [hformula] at h
      exact congrArg Except.ok (Option.some.inj h)
  domain := domain_slope
  resolution := rfl
  clip := rfl
  percentile := rfl
  whole := rfl
  limits := limits_slope
  painted := rfl

/-- **Limits overflow**: the lower limit of the slope is infinite, and answered so. -/
theorem not_finite_slope : ¬∀ x ∈ (answer .standard slopeLine).reals, x.isFinite = true := by
  intro hfinite
  have hread : Json.read slopeLine = .ok (.object slopeRequest) := rfl
  rw [answer_of_taken hread rfl taken_slope] at hfinite
  have hlimits : Holds (·.isFinite = true)
      (.object [("min", .real slope.limits.lower), ("max", .real slope.limits.upper)]) :=
    Json.holds_object.1 hfinite ("limits", _) (by simp [Steps.fields])
  have hlower : slope.limits.lower.isFinite = true :=
    Json.holds_real.1 (Json.holds_object.1 hlimits ("min", _) List.mem_cons_self)
  exact absurd hlower (by decide +kernel)

end Service

end Heightfield
