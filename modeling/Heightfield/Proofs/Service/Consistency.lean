import Heightfield.Proofs.Service.View
/-!
# Plots are consistent

The parts of a plot come from different computations: sampling, clipping, statistics, limits, colours.  What a client
reads in it fits together all the same (`consistent_of_isPlot`), for every request and in both modes, also without a
single finite height.

Colours are shown just if the colour map that counts is not empty: that of the request if it has one, though it be empty,
and else that of the configuration.
-/
namespace Heightfield
namespace Service

/-- The greatest resolution that counts: that of the configuration, else of the settings. -/
def greatestResolution (settings : Settings) (request : Fields) : Except Json.NumberError Int :=
  (((config request).field? "maxResolution").getD (.int settings.maxResolution)).toInt

end Service

namespace PlotView

open Service (Fields chosenMap greatestResolution)
open Grid (Square)

/-- The parts of a plot fit together, and fit the request. -/
structure Consistent (settings : Settings) (request : Fields) (v : PlotView) : Prop where
  positive : 1 ≤ v.resolution
  bounded : ∃ greatest, greatestResolution settings request = .ok greatest ∧ v.resolution ≤ greatest
  axes : v.xs.length = v.resolution ∧ v.ys.length = v.resolution
  square : ∀ l ∈ v.layers, Square v.resolution.toNat l.cells
  total : v.total = v.resolution * v.resolution
  counted : v.valid + v.invalid = v.total
  invalid : v.invalid = v.height.cells.flatten.countP Option.isNone
  /-- The same cells are empty in both channels. -/
  empty : ∀ l ∈ v.imaginary, l.cells.map (·.map Option.isNone) = v.height.cells.map (·.map Option.isNone)
  ranges : ∀ l ∈ v.layers, IsRange l.numbers l.low l.high
  clipped : ∀ j, Json.get? request "clip" = some j → j.isTruthy = true →
    ∃ c : Clip Float, Clip.ofJson j = .ok (some c) ∧ ∀ x ∈ v.height.numbers, c.lower ≤ x ∧ x ≤ c.upper
  limits : v.valid = 0 → v.lower = -10.0 ∧ v.upper = 10.0
  imaginary : v.imaginary = none ↔ v.mode = .real
  imaginaryMean : v.imaginaryMean = none ↔ v.mode = .real
  imaginaryMedian : v.imaginaryMedian = none ↔ v.mode = .real
  /-- Increasing, so none twice. -/
  sorted : v.vars.Pairwise (· < ·)
  permitted : ∀ name ∈ v.vars, name ∈ v.mode.permitted
  coloured : v.colours.isSome = true ↔ ∃ j, chosenMap request = some j ∧ j.isTruthy = true
  colours : ∀ rows ∈ v.colours, Square v.resolution.toNat rows ∧ ∀ row ∈ rows, ∀ cell ∈ row, cell.length = 3

end PlotView

namespace Grid

theorem Square.map {β γ : Type} {n : ℕ} {rows : List (List β)} (h : Square n rows) (f : β → γ) :
    Square n (rows.map (·.map f)) := by
  refine ⟨(List.length_map _).trans h.1, fun row hrow => ?_⟩
  obtain ⟨row, hmem, rfl⟩ := List.mem_map.1 hrow
  exact (List.length_map _).trans (h.2 row hmem)

theorem isNone_cellOf (x : Float) : (cellOf x).isNone = !x.isFinite := by
  unfold cellOf
  cases x.isFinite <;> rfl

namespace Even

variable {g : Grid Float} {n : ℕ}

/-- The cells without a number are those that are shown empty. -/
theorem invalid (h : g.Even n) :
    g.statistics.invalid = (g.height.map (·.map cellOf)).flatten.countP Option.isNone := by
  obtain ⟨-, -, htotal, hvalid⟩ := h.statistics
  have hcount : (g.height.map (·.map cellOf)).flatten.countP Option.isNone =
      g.height.flatten.countP (!Float.isFinite ·) := by
    rw [← List.map_flatten, List.countP_map]
    exact congrArg (List.countP · _) (funext isNone_cellOf)
  have hsplit := List.length_eq_length_filter_add Float.isFinite (l := g.height.flatten)
  rw [length_flatten_square h.square, ← htotal, ← List.countP_eq_length_filter (p := (!Float.isFinite ·)),
    ← hcount] at hsplit
  rw [Statistics.invalid, hvalid, hsplit]
  exact Nat.add_sub_cancel_left _ _

/-- The same cells are shown empty in both channels. -/
theorem empty (h : g.Even n) {rows : List (List Float)} (hrows : rows ∈ g.imaginary) :
    (rows.map (·.map cellOf)).map (·.map Option.isNone) =
      (g.height.map (·.map cellOf)).map (·.map Option.isNone) := by
  have hisNone : ∀ rows : List (List Float), (rows.map (·.map cellOf)).map (·.map Option.isNone) =
      (rows.map (·.map Float.isFinite)).map (·.map (!·)) := fun rows => by
    simp only [List.map_map, Function.comp_def, isNone_cellOf]
  rw [hisNone, hisNone, (h.imaginary rows hrows).2]

end Even

end Grid

namespace Service

/-! ## Colours -/

theorem list?_coloursJson (rows : List (List (Colour.Rgb Float))) :
    Json.list? (Json.list? (Json.list? Json.real?)) (coloursJson rows) =
      some (rows.map (·.map Colour.Rgb.channels)) := by
  have hcell : ∀ c : Colour.Rgb Float, Json.list? Json.real? (.array (c.channels.map .real)) = some c.channels :=
    fun c => Json.list?_map_self .real (fun _ => rfl) c.channels
  have hrow : ∀ row : List (Colour.Rgb Float), Json.list? (Json.list? Json.real?)
      (.array (row.map fun c => .array (c.channels.map .real))) = some (row.map Colour.Rgb.channels) :=
    Json.list?_map _ hcell
  exact Json.list?_map _ hrow rows

theorem exists_colours {request : Fields} {g : Grid Float} {l : Limits Float} {painted : Fields}
    (h : colours request (config request) g l = .ok painted) :
    ∃ view, PlotView.colours? (.object painted) = some view ∧
      (view.isSome = true ↔ ∃ j, chosenMap request = some j ∧ j.isTruthy = true) ∧
      ∀ rows ∈ view, ∃ name,
        rows = (Colour.shadeAll (some name) l.lower l.upper g.height).map (·.map Colour.Rgb.channels) := by
  rcases colours_eq_ok h with ⟨rfl, hnone⟩ | ⟨name, hchosen, htrue, rfl⟩
  · exact ⟨none, rfl, ⟨nofun, fun hsome => absurd hsome hnone⟩, nofun⟩
  · have hread : PlotView.colours? (.object [("colormap", .string name),
        ("colors", coloursJson (Colour.shadeAll (some name) l.lower l.upper g.height))]) =
          some (some ((Colour.shadeAll (some name) l.lower l.upper g.height).map (·.map Colour.Rgb.channels))) := by
      simp [PlotView.colours?, list?_coloursJson]
    refine ⟨_, hread, ⟨fun _ => ⟨_, hchosen, htrue⟩, fun _ => rfl⟩, fun rows hrows => ?_⟩
    exact ⟨name, (Option.mem_some.1 hrows).symm⟩

/-! ## Resolutions -/

theorem ofNumber_eq_ok {β : Type} {x : Except Json.NumberError β} {b : β} (h : Attempt.ofNumber x = .ok b) :
    x = .ok b := by
  cases x with
  | error e => cases h
  | ok b' =>
    cases h
    rfl

theorem resolution_eq_ok {settings : Settings} {request : Fields} {n : Resolution}
    (h : resolution settings request (config request) = .ok n) :
    ∃ greatest, greatestResolution settings request = .ok greatest ∧ (n.val : ℤ) ≤ greatest := by
  obtain ⟨asked, -, h⟩ := bind_eq_ok h
  obtain ⟨i, -, h⟩ := bind_eq_ok h
  obtain ⟨configured, hconfigured, h⟩ := bind_eq_ok h
  obtain ⟨greatest, hgreatest, h⟩ := bind_eq_ok h
  rw [eq_field?_of_configured hconfigured] at hgreatest
  split at h
  · rename_i hle
    cases h
    refine ⟨greatest, ofNumber_eq_ok hgreatest, ?_⟩
    show (i.toNat : ℤ) ≤ greatest
    omega
  · cases h

/-! ## Formulas and clip ranges -/

theorem permitted_of_formula {request : Fields} {f : Formula} (h : formula request = .ok f) :
    ∀ name ∈ f.freeVariables, name ∈ f.mode.permitted := by
  obtain ⟨raw, -, h⟩ := bind_eq_ok h
  split at h
  · rename_i hparse
    cases h
    exact Formula.permitted_of_parse hparse
  · cases h

theorem exists_clip {j : Json} {clip : Option (Clip Float)} (h : Clip.ofJson j = .ok clip) (htrue : j.isTruthy = true) :
    ∃ c, clip = some c := by
  unfold Clip.ofJson at h
  rw [htrue] at h
  cases hl : Clip.bound j "min" with
  | error e => simp [bind, Except.bind, hl] at h
  | ok lower =>
    cases hu : Clip.bound j "max" with
    | error e => simp [bind, Except.bind, hl, hu] at h
    | ok upper =>
      simp only [bind, Except.bind, hl, hu, Bool.not_true, Bool.false_eq_true, if_false] at h
      split at h
      · cases h
        exact ⟨_, rfl⟩
      · cases h

/-! ## Consistency -/

namespace Steps

section
variable (s : Steps)

theorem even_grid : s.grid.Even s.resolution := Grid.even_sample _ _ _ _ _

theorem imaginary_eq_none_iff : s.grid.imaginary = none ↔ s.formula.mode = .real :=
  (Grid.imaginary_sample s.formula s.domain s.resolution s.clip s.whole).1

theorem length_axes : s.grid.xs.length = s.resolution ∧ s.grid.ys.length = s.resolution :=
  (Grid.length_axes s.domain s.resolution).imp (congrArg List.length (Grid.xs_sample ..)).trans
    (congrArg List.length (Grid.ys_sample ..)).trans

theorem statistics_eq_none_iff (k : Channel Float → Float) :
    s.grid.statistics.imaginary.map k = none ↔ s.formula.mode = .real := by
  obtain ⟨-, himaginary, -, -⟩ := s.even_grid.statistics
  rw [Option.map_eq_none_iff, himaginary, Option.map_eq_none_iff]
  exact s.imaginary_eq_none_iff

theorem exists_rows {colours : Option (List (List (List Float)))} :
    ∀ l ∈ (s.view colours).layers, ∃ rows, l = .ofRows rows ∧ Grid.Square s.resolution rows := by
  intro l hl
  rcases List.mem_cons.1 hl with rfl | hl
  · exact ⟨_, rfl, s.even_grid.square⟩
  · obtain ⟨rows, hrows, rfl⟩ := Option.map_eq_some_iff.1 (Option.mem_toList.1 hl)
    exact ⟨rows, rfl, (s.even_grid.imaginary rows hrows).1⟩

end

variable {s : Steps} {settings : Settings} {request : Fields}

/-- The heights lie in the clip range, if one is given. -/
theorem Taken.clipped (h : s.Taken settings request (config request)) {j : Json} (hj : Json.get? request "clip" = some j)
    (htrue : j.isTruthy = true) :
    ∃ c : Clip Float, Clip.ofJson j = .ok (some c) ∧ ∀ x ∈ finiteCells s.grid.height, c.lower ≤ x ∧ x ≤ c.upper := by
  have hclip := h.clip
  rw [hj] at hclip
  obtain ⟨c, hc⟩ := exists_clip hclip htrue
  rw [hc] at hclip
  refine ⟨c, hclip, ?_⟩
  rw [Steps.grid, hc]
  exact Grid.clipped_sample s.formula s.domain s.resolution s.whole c

/-- Without a finite height the limits are those of the fallback. -/
theorem Taken.limits_of_valid_eq_zero (h : s.Taken settings request (config request))
    (hzero : s.grid.statistics.valid = 0) : s.limits.lower = -10.0 ∧ s.limits.upper = 10.0 := by
  obtain ⟨-, -, -, hvalid⟩ := s.even_grid.statistics
  have hnil : finiteCells s.grid.height = [] := List.eq_nil_of_length_eq_zero (hvalid ▸ hzero)
  have hlimits := h.limits
  rw [Grid.limits, Limits.ofHeights_of_finiteCells_eq_nil hnil] at hlimits
  have hfallback : Limits.fallback = s.limits := Except.ok.inj hlimits
  rw [← hfallback]
  exact ⟨by decide +kernel, by decide +kernel⟩

/-- **What the steps show fits together.** -/
theorem consistent_view (h : s.Taken settings request (config request)) :
    ∃ colours, s.colours? = some colours ∧ (s.view colours).Consistent settings request := by
  obtain ⟨colours, hcolours, hcoloured, hshaded⟩ := exists_colours h.painted
  have heven := s.even_grid
  refine ⟨colours, hcolours, ?_⟩
  constructor
  case positive => exact Int.ofNat_le.2 s.resolution.2
  case bounded => exact resolution_eq_ok h.resolution
  case axes =>
    obtain ⟨hxs, hys⟩ := s.length_axes
    exact ⟨congrArg Nat.cast ((List.length_map _).trans hxs), congrArg Nat.cast ((List.length_map _).trans hys)⟩
  case square =>
    intro l hl
    obtain ⟨rows, rfl, hsquare⟩ := s.exists_rows l hl
    exact hsquare.map cellOf
  case total =>
    obtain ⟨-, -, htotal, -⟩ := heven.statistics
    show (s.grid.statistics.total : ℤ) = s.resolution.val * s.resolution.val
    exact_mod_cast htotal
  case counted =>
    show (s.grid.statistics.valid : ℤ) + (s.grid.statistics.total - s.grid.statistics.valid : ℕ) =
      s.grid.statistics.total
    have := s.grid.statistics.valid_le
    omega
  case invalid => exact congrArg Nat.cast heven.invalid
  case empty =>
    intro l hl
    obtain ⟨rows, hrows, rfl⟩ := Option.map_eq_some_iff.1 hl
    exact heven.empty hrows
  case ranges =>
    intro l hl
    obtain ⟨rows, rfl, -⟩ := s.exists_rows l hl
    rw [Layer.numbers_ofRows]
    exact finiteBounds_isRange rows
  case clipped =>
    intro j hj htrue
    show ∃ c : Clip Float, _ ∧ ∀ x ∈ (Layer.ofRows s.grid.height).numbers, _
    rw [Layer.numbers_ofRows]
    exact h.clipped hj htrue
  case limits => exact fun hzero => h.limits_of_valid_eq_zero (Int.natCast_eq_zero.1 hzero)
  case imaginary => exact Option.map_eq_none_iff.trans s.imaginary_eq_none_iff
  case imaginaryMean => exact s.statistics_eq_none_iff _
  case imaginaryMedian => exact s.statistics_eq_none_iff _
  case sorted => exact s.formula.expr.freeVariables_sorted
  case permitted => exact permitted_of_formula h.formula
  case coloured => exact hcoloured
  case colours =>
    intro rows hrows
    obtain ⟨name, rfl⟩ := hshaded rows hrows
    refine ⟨(heven.square.map _).map _, fun row hrow cell hcell => ?_⟩
    obtain ⟨colours, -, rfl⟩ := List.mem_map.1 hrow
    obtain ⟨c, -, rfl⟩ := List.mem_map.1 hcell
    rfl

end Steps

/-- **A plot is consistent**: an answer that shows a surface answers a request, and can be read, and what is read in it
fits together and fits the request. -/
theorem consistent_of_isPlot (settings : Settings) (line : List Char) (h : IsPlot (answer settings line)) :
    ∃ request view, Json.read line = .ok (.object request) ∧ PlotView.ofJson? (answer settings line) = some view ∧
      view.Consistent settings request := by
  obtain ⟨request, s, hread, htaken, hanswer⟩ := exists_steps h
  obtain ⟨colours, hcolours, hconsistent⟩ := Steps.consistent_view htaken
  rw [hanswer]
  exact ⟨request, _, hread, s.ofJson?_success hcolours, hconsistent⟩

/-- The square over the complex plane in one cell, clipped and coloured. -/
theorem consistent_square :
    let line := ("\x7b\"expression\":\"z^2\",\"mode\":\"complex\",\"resolution\":1," ++
      "\"clip\":\x7b\"min\":-1,\"max\":1\x7d,\"colormap\":\"Viridis\"\x7d").toList
    IsPlot (answer Settings.standard line) ∧
      ∃ request view, Json.read line = .ok (.object request) ∧
        PlotView.ofJson? (answer Settings.standard line) = some view ∧ view.Consistent Settings.standard request := by
  intro line
  have h : IsPlot (answer Settings.standard line) := by decide +kernel
  exact ⟨h, consistent_of_isPlot Settings.standard line h⟩

/-- Colours are asked for, by the request or by its configuration. -/
def asksForColours (request : Fields) : Bool :=
  (Json.get? request "colormap").any Json.isTruthy || ((config request).field? "colormap").any Json.isTruthy

/-- The line asks for colours, and its answer shows a plot without them. -/
def losesColours (settings : Settings) (line : List Char) : Bool :=
  match Json.read line, PlotView.ofJson? (answer settings line) with
  | .ok (.object request), some view => asksForColours request && view.colours.isNone
  | _, _ => false

/-- An empty colour map in the request hides that of the configuration. -/
theorem not_coloured_of_empty_map :
    let line := ("\x7b\"expression\":\"x\",\"resolution\":1,\"colormap\":\"\"," ++
      "\"config\":\x7b\"colormap\":\"Viridis\"\x7d\x7d").toList
    ∃ request view, Json.read line = .ok (.object request) ∧
      PlotView.ofJson? (answer Settings.standard line) = some view ∧
      ¬(view.colours.isSome = true ↔ asksForColours request = true) := by
  intro line
  have h : losesColours Settings.standard line = true := by decide +kernel
  unfold losesColours at h
  split at h
  · rename_i request view hread hview
    obtain ⟨hasks, hnone⟩ := Bool.and_eq_true_iff.1 h
    refine ⟨request, view, hread, hview, fun hiff => ?_⟩
    rw [Option.isNone_iff_eq_none.1 hnone] at hiff
    cases hiff.2 hasks
  · cases h

end Service
end Heightfield
