import Heightfield.Console.Run
import Heightfield.Proofs.Names.Operands
import Heightfield.Proofs.Service.Actions
import Heightfield.Proofs.Session.Run
/-!
# Every front end draws the same plot

What is to be plotted can be asked of the service, typed on the command line, or set in a session.  All three reject the
formula for the same fault, or draw the same surface (`plots_agree`).  They also fail alike, where the positions of the
limits overflow, and that takes a percentage that is none (`Plan.agrees_of_percentage`).
-/
namespace Heightfield

/-- What decides on a plot. -/
structure Plan where
  raw : String
  mode : Mode
  latex : Bool
  domain : Domain Float
  resolution : Resolution
  clip : Option (Clip Float)
  percentile : Float

namespace Plan

/-- The fields of a request besides those of the formula. -/
def fields (p : Plan) : Service.Fields :=
  [("domain", Report.domain p.domain), ("resolution", .int p.resolution.1), ("percentile", .real p.percentile)] ++
    match p.clip with
    | none => []
    | some c => [("clip", c.toJson)]

/-- What the service answers. -/
def answer (p : Plan) (settings : Settings) : Json :=
  Service.answerValue settings (.object (Service.asked "plot" p.raw p.mode.name p.latex p.fields))

/-- The arguments of a command that writes the surface as JSON. -/
def arguments (p : Plan) (point : Option (Float × Float)) : Console.Arguments where
  expression := some p.raw
  mode := p.mode
  latex := p.latex
  domain := (p.domain.x.lower, p.domain.x.upper, p.domain.y.lower, p.domain.y.upper)
  resolution := p.resolution.1
  clip := p.clip.map fun c => (c.lower, c.upper)
  percentile := p.percentile
  point := point
  json := true
  serve := false

/-- A session with the parameters of the plan. -/
def session (p : Plan) (settings : Settings) : Session Float :=
  .new (.string p.mode.name) p.domain (.int p.resolution.1) p.clip p.percentile settings.wholeSweeps

def grid (p : Plan) (settings : Settings) (f : Formula) : Grid Float :=
  Grid.sample f p.domain p.resolution p.clip settings.wholeSweeps

/-- The surface of a formula, unless no limits can be chosen. -/
def surface (p : Plan) (settings : Settings) (f : Formula) : Except LimitsError (Surface Float) :=
  ((p.grid settings f).limits p.percentile).map fun l => ⟨p.grid settings f, l, (p.grid settings f).statistics⟩

def parameters (p : Plan) (settings : Settings) (f : Formula) : Parameters Float :=
  ⟨f, p.domain, .int p.resolution.1, p.clip, p.percentile, settings.wholeSweeps⟩

section
variable (p : Plan) (settings : Settings) {f : Formula}

theorem sweep_parameters (f : Formula) : (p.parameters settings f).sweep = (p.surface settings f).mapError .limits := by
  unfold Parameters.sweep parameters surface grid
  simp only [Resolution.ofJson_int]
  cases (Grid.sample f p.domain p.resolution p.clip settings.wholeSweeps).limits p.percentile <;> rfl

theorem named_name (m : Mode) : Mode.named m.name = .ok m := by cases m <;> rfl

/-! ## The service -/

/-- The request that asks for the plan. -/
def request : Service.Fields := Service.asked "plot" p.raw p.mode.name p.latex p.fields

theorem get?_request {name : String} (h : name ∉ ["action", "expression", "mode", "latex"]) :
    Json.get? p.request name = Json.get? p.fields name :=
  Service.get?_asked _ _ _ _ _ h

theorem get?_of_absent {name : String} (h : name ∉ ["domain", "resolution", "percentile", "clip"]) :
    Json.get? p.fields name = none := by
  simp only [List.mem_cons, List.not_mem_nil, or_false, not_or] at h
  obtain ⟨hdomain, hresolution, hpercentile, hclip⟩ := h
  unfold fields
  cases p.clip <;> simp [Ne.symm hdomain, Ne.symm hresolution, Ne.symm hpercentile, Ne.symm hclip]

theorem config_request : Service.config p.request = .object [] := by
  rw [Service.config, p.get?_request (by decide), p.get?_of_absent (by decide)]

theorem formula_request : Service.formula p.request =
    (Formula.parse (.ok p.mode) p.latex p.raw).mapError .formula := by
  rw [request, Service.formula_asked, named_name]

theorem domain_request : Service.domain settings p.request (.object []) = .ok p.domain :=
  Service.domain_of_get? ((p.get?_request (by decide)).trans rfl) rfl
    (Domain.ofJson_boundsFields settings rfl rfl rfl rfl (Domain.ofBounds_eq p.domain)) _

theorem resolution_request (hmax : p.resolution.1 ≤ settings.maxResolution) :
    Service.resolution settings p.request (.object []) = .ok p.resolution :=
  Service.resolution_of_get? ((p.get?_request (by decide)).trans rfl) hmax

theorem clip_request : Clip.ofJson ((Json.get? p.request "clip").getD .null) = .ok p.clip := by
  rw [p.get?_request (by decide), fields]
  cases p.clip with
  | none => rfl
  | some c => exact c.ofJson_toJson

theorem percentile_request : Service.percentile settings p.request (.object []) = .ok p.percentile :=
  Service.percentile_of_get? ((p.get?_request (by decide)).trans rfl) rfl _

theorem colours_request (g : Grid Float) (l : Limits Float) : Service.colours p.request (.object []) g l = .ok [] := by
  rw [Service.colours, Service.parameter, p.get?_request (by decide), p.get?_of_absent (by decide)]
  rfl

/-- The steps that the service takes. -/
def steps (f : Formula) (l : Limits Float) : Service.Steps :=
  ⟨f, p.domain, p.resolution, p.clip, p.percentile, settings.wholeSweeps, l, []⟩

variable {p settings}

theorem taken (hmax : p.resolution.1 ≤ settings.maxResolution)
    (hparse : Formula.parse (.ok p.mode) p.latex p.raw = .ok f) {l : Limits Float}
    (hl : (p.grid settings f).limits p.percentile = .ok l) :
    (p.steps settings f l).Taken settings p.request (.object []) where
  formula := by
    rw [p.formula_request, hparse]
    rfl
  domain := p.domain_request settings
  resolution := p.resolution_request settings hmax
  clip := p.clip_request
  percentile := p.percentile_request settings
  whole := rfl
  limits := hl
  painted := p.colours_request _ _

theorem plot_of_limits_error (hmax : p.resolution.1 ≤ settings.maxResolution)
    (hparse : Formula.parse (.ok p.mode) p.latex p.raw = .ok f) {e : LimitsError}
    (hl : (p.grid settings f).limits p.percentile = .error e) :
    Service.plot settings p.request (.object []) = .error (.limits e) := by
  have hwhole : Service.wholeSweeps settings (.object []) = .ok settings.wholeSweeps := rfl
  rw [grid] at hl
  simp only [Service.plot, p.formula_request, hparse, p.domain_request settings, p.resolution_request settings hmax,
    p.clip_request, Service.Attempt.ofField, p.percentile_request settings, hwhole, hl, Except.mapError, bind, Except.bind]
  rfl

/-- **The service answers with the surface.** -/
theorem answer_of_parse (hmax : p.resolution.1 ≤ settings.maxResolution)
    (hparse : Formula.parse (.ok p.mode) p.latex p.raw = .ok f) : p.answer settings =
      match (p.grid settings f).limits p.percentile with
      | .error e => Service.failure (.limits e)
      | .ok l => Service.success (p.steps settings f l).fields := by
  have hperform : Service.perform settings p.request = Service.plot settings p.request (Service.config p.request) := rfl
  rw [answer, Service.answerValue, ← request, hperform, p.config_request]
  cases hl : (p.grid settings f).limits p.percentile with
  | ok l => rw [Service.plot_of_taken (taken hmax hparse hl)]
  | error e => rw [plot_of_limits_error hmax hparse hl]

theorem answer_of_fault {e : FormulaError} (hparse : Formula.parse (.ok p.mode) p.latex p.raw = .error e) :
    p.answer settings = Service.failure (.formula e) :=
  Service.answerValue_asked p.raw p.mode.name p.latex (by rw [named_name, hparse]) (by simp) p.fields

/-! ## The command line -/

section
variable (settings) (point : Option (Float × Float)) (typed : Option String) (input : List Char)

theorem run_arguments (hraw : p.raw ≠ "") :
    Console.run settings (p.arguments point) typed input = Console.plot settings (p.arguments point) p.raw := by
  have hgiven : (p.arguments point).given? = some p.raw := by
    have hempty : p.raw.isEmpty = false := by rwa [← Bool.not_eq_true, String.isEmpty_iff]
    show (some p.raw).filter _ = _
    rw [Option.filter_some, hempty]
    rfl
  unfold Console.run
  rw [if_neg (show ¬(p.arguments point).serve = true from Bool.false_ne_true), hgiven]
  rfl

theorem parameters_arguments (f : Formula) :
    Console.parameters settings (p.arguments point) f = .ok (p.parameters settings f) := by
  unfold Console.parameters arguments
  simp only [Domain.ofBounds_eq]
  cases hclip : p.clip with
  | none =>
    rw [parameters, hclip]
    rfl
  | some c =>
    simp only [Option.map_some, Clip.ofBounds_eq]
    rw [parameters, hclip]

/-- **The command writes the surface.** -/
theorem run_of_parse (hraw : p.raw ≠ "") (hparse : Formula.parse (.ok p.mode) p.latex p.raw = .ok f) :
    Console.run settings (p.arguments point) typed input =
      match p.surface settings f with
      | .error e => .error (.limits e)
      | .ok s => .ok ⟨0, [], [Console.surfaceJson s]⟩ := by
  rw [run_arguments settings point typed input hraw, Console.plot]
  rw [show Formula.parse (.ok (p.arguments point).mode) (p.arguments point).latex p.raw = .ok f from hparse]
  simp only [parameters_arguments settings point f, sweep_parameters]
  cases p.surface settings f <;> rfl

theorem run_of_fault (hraw : p.raw ≠ "") {e : FormulaError} {kind : String} (hkind : e.kind? = some kind)
    (hparse : Formula.parse (.ok p.mode) p.latex p.raw = .error e) :
    Console.run settings (p.arguments point) typed input = .ok (.badFormula kind e) := by
  rw [run_arguments settings point typed input hraw, Console.plot]
  rw [show Formula.parse (.ok (p.arguments point).mode) (p.arguments point).latex p.raw = .error e from hparse]
  simp only [hkind]

end

/-! ## The session -/

/-- A session that is made of the parameters takes none from the settings. -/
theorem ofSettings_eq : Session.ofSettings settings (.string p.mode.name) (some p.domain) (.int p.resolution.1) p.clip
    (some p.percentile) = .ok (p.session settings) := by
  have hne : (p.resolution.1 : ℤ) ≠ 0 := by
    have := p.resolution.2
    omega
  have htruthy : (Json.int p.resolution.1).isTruthy = true := by simpa [Json.isTruthy] using hne
  simp only [Session.ofSettings, htruthy, if_true, bind, Except.bind]
  rfl

theorem setFormula_session : (p.session settings).setFormula p.raw p.latex =
    match Formula.parse (.ok p.mode) p.latex p.raw with
    | .ok f => ({ p.session settings with formula := some f }, .ok f)
    | .error e => ({ p.session settings with rejected := if e.kind?.isSome then some e else none }, .error e) := by
  unfold Session.setFormula
  rw [show Mode.ofJson (p.session settings).mode = .ok p.mode from named_name p.mode]
  rfl

/-- **The session shows the surface.** -/
theorem refresh?_of_parse (settings : Settings) (hparse : Formula.parse (.ok p.mode) p.latex p.raw = .ok f) :
    ∃ s, ((p.session settings).setFormula p.raw p.latex).1.refresh? =
        some (s, (p.parameters settings f).outcome 1 1) ∧
      s.display = (shownBy? ((p.parameters settings f).outcome 1 1)).elim .empty Surface.display := by
  rw [setFormula_session, hparse]
  exact ⟨_, Session.refresh?_eq (p := p.parameters settings f) rfl, rfl⟩

/-! ## Agreement -/

variable (p settings) (point : Option (Float × Float)) (typed : Option String) (input : List Char)

/-- All three reject the formula and tell of one fault. -/
structure Rejected (e : FormulaError) (kind : String) : Prop where
  fault : e.kind? = some kind
  answer : p.answer settings = Service.failure (.formula e)
  errorType : (p.answer settings).readField "errorType" Json.string? = some kind
  command : Console.run settings (p.arguments point) typed input = .ok ⟨2, Screen.lines (kind ++ ": " ++ e.message), []⟩
  session : (p.session settings).setFormula p.raw p.latex = ({ p.session settings with rejected := some e }, .error e)

/-- All three draw the surface. -/
structure Drawn (s : Surface Float) : Prop where
  status : (p.answer settings).readField "status" Json.string? = some "success"
  grid : (p.answer settings).field? "grid" = some (Report.grid s.grid)
  limits : (p.answer settings).field? "limits" = some (.object [("min", .real s.limits.lower), ("max", .real s.limits.upper)])
  stats : (p.answer settings).field? "stats" = some (Report.statistics s.statistics)
  command : Console.run settings (p.arguments point) typed input =
    .ok ⟨0, [], [.object [("grid", Report.grid s.grid), ("limits", Report.limitsPair s.limits),
      ("stats", Report.statistics s.statistics)]]⟩
  session : ∃ f, ((p.session settings).setFormula p.raw p.latex).2 = .ok f ∧
    ∃ shown, ((p.session settings).setFormula p.raw p.latex).1.refresh? = some (shown, .ok ⟨1, s, true⟩) ∧
      shown.display = s.display

/-- All three find no limits. -/
structure Failed (e : LimitsError) : Prop where
  answer : p.answer settings = Service.failure (.limits e)
  command : Console.run settings (p.arguments point) typed input = .error (.limits e)
  session : ∃ shown, ((p.session settings).setFormula p.raw p.latex).1.refresh? = some (shown, .error (.limits e)) ∧
    shown.display = .empty

/-- All three reject the formula, or all draw one surface. -/
def Agrees : Prop :=
  (∃ e kind, Rejected p settings point typed input e kind) ∨ ∃ s, Drawn p settings point typed input s

variable {p settings}

theorem rejected_of_parse (hraw : p.raw ≠ "") {e : FormulaError}
    (hparse : Formula.parse (.ok p.mode) p.latex p.raw = .error e) :
    ∃ kind, Rejected p settings point typed input e kind := by
  obtain ⟨kind, hkind⟩ := Formula.kind?_of_parse hparse
  have hanswer : p.answer settings = Service.failure (.formula e) := answer_of_fault hparse
  refine ⟨kind, hkind, hanswer, ?_, run_of_fault settings point typed input hraw hkind hparse, ?_⟩
  · have hfield : (p.answer settings).readField "errorType" Json.string? = some (e.kind?.getD "InvalidRequest") := by
      rw [hanswer]
      rfl
    rw [hfield, hkind]
    rfl
  · rw [setFormula_session, hparse]
    simp only [hkind, Option.isSome_some, if_true]

theorem drawn_of_surface (hraw : p.raw ≠ "") (hmax : p.resolution.1 ≤ settings.maxResolution)
    (hparse : Formula.parse (.ok p.mode) p.latex p.raw = .ok f) {l : Limits Float}
    (hl : (p.grid settings f).limits p.percentile = .ok l) :
    Drawn p settings point typed input ⟨p.grid settings f, l, (p.grid settings f).statistics⟩ := by
  have hsurface : p.surface settings f = .ok ⟨p.grid settings f, l, (p.grid settings f).statistics⟩ := by
    rw [surface, hl]
    rfl
  have hanswer := answer_of_parse hmax hparse
  rw [hl] at hanswer
  have hcommand := run_of_parse settings point typed input hraw hparse
  rw [hsurface] at hcommand
  obtain ⟨shown, hrefresh, hdisplay⟩ := refresh?_of_parse settings hparse
  rw [Parameters.outcome, sweep_parameters, hsurface] at hrefresh hdisplay
  refine ⟨?_, ?_, ?_, ?_, hcommand, f, ?_, shown, hrefresh, hdisplay⟩
  iterate 4
    rw [hanswer]
    rfl
  · rw [setFormula_session, hparse]

theorem failed_of_limits (hraw : p.raw ≠ "") (hmax : p.resolution.1 ≤ settings.maxResolution)
    (hparse : Formula.parse (.ok p.mode) p.latex p.raw = .ok f) {e : LimitsError}
    (he : (p.grid settings f).limits p.percentile = .error e) : Failed p settings point typed input e := by
  have hsurface : p.surface settings f = .error e := by
    rw [surface, he]
    rfl
  have hanswer := answer_of_parse hmax hparse
  rw [he] at hanswer
  have hcommand := run_of_parse settings point typed input hraw hparse
  rw [hsurface] at hcommand
  obtain ⟨shown, hrefresh, hdisplay⟩ := refresh?_of_parse settings hparse
  rw [Parameters.outcome, sweep_parameters, hsurface] at hrefresh hdisplay
  exact ⟨hanswer, hcommand, shown, hrefresh, hdisplay⟩

/-- No limits are found only where their positions overflow. -/
theorem exists_not_placed {e : LimitsError} (he : (p.grid settings f).limits p.percentile = .error e) :
    ∃ n ≤ p.resolution.1 * p.resolution.1, ¬Limits.Placed n p.percentile := by
  refine ⟨(finiteCells (p.grid settings f).height).length, ?_, fun hplaced => ?_⟩
  · have hsquare := (Grid.square_sample f p.domain p.resolution p.clip settings.wholeSweeps).1
    exact (List.length_filter_le _ _).trans (length_flatten_square hsquare).le
  · obtain ⟨l, hl⟩ := Limits.exists_ofHeights hplaced
    rw [Grid.limits, hl] at he
    cases he

theorem agrees_or_failed (hraw : p.raw ≠ "") (hmax : p.resolution.1 ≤ settings.maxResolution) :
    Agrees p settings point typed input ∨ ∃ e, Failed p settings point typed input e ∧
      ∃ n ≤ p.resolution.1 * p.resolution.1, ¬Limits.Placed n p.percentile := by
  cases hparse : Formula.parse (.ok p.mode) p.latex p.raw with
  | error e => exact Or.inl (Or.inl ⟨e, rejected_of_parse point typed input hraw hparse⟩)
  | ok f =>
    cases hl : (p.grid settings f).limits p.percentile with
    | ok l => exact Or.inl (Or.inr ⟨_, drawn_of_surface point typed input hraw hmax hparse hl⟩)
    | error e => exact Or.inr ⟨e, failed_of_limits point typed input hraw hmax hparse hl, exists_not_placed hl⟩

/-- **Every front end draws the same plot**, or rejects the formula for the same fault: the service, the command line and
a session that is made of the same parameters.  Only where the positions of the limits overflow do they fail, and then
all of them do. -/
theorem plots_agree (hraw : p.raw ≠ "") (hmax : p.resolution.1 ≤ settings.maxResolution) :
    Session.ofSettings settings (.string p.mode.name) (some p.domain) (.int p.resolution.1) p.clip (some p.percentile) =
        .ok (p.session settings) ∧
      (Agrees p settings point typed input ∨ ∃ e, Failed p settings point typed input e ∧
        ∃ n ≤ p.resolution.1 * p.resolution.1, ¬Limits.Placed n p.percentile) :=
  ⟨ofSettings_eq, agrees_or_failed point typed input hraw hmax⟩

theorem isFinite_zero : (0 : Float).isFinite = true := by decide +kernel

/-- A logarithm over one point, moved to zero, with the percentile zero. -/
def flat : Plan where
  raw := "\\ln(x)"
  mode := .complex
  latex := true
  domain := Service.spot isFinite_zero isFinite_zero
  resolution := ⟨2, Nat.le_succ 1⟩
  clip := some (Service.singleton isFinite_zero)
  percentile := 0

/-- Zeros are given like other values. -/
theorem plots_agree_flat : flat.raw ≠ "" ∧ flat.resolution.1 ≤ Settings.standard.maxResolution ∧
    Agrees flat .standard none none [] := by
  have hraw : flat.raw ≠ "" := by decide
  have hmax : flat.resolution.1 ≤ Settings.standard.maxResolution := by decide +kernel
  refine ⟨hraw, hmax, (plots_agree none none [] hraw hmax).2.resolve_right ?_⟩
  rintro ⟨e, -, n, hn, hplaced⟩
  exact hplaced ((by decide +kernel : ∀ n < 5, Limits.Placed n flat.percentile) n (Nat.lt_succ_of_le hn))

/-- **With a percentage the front ends agree.** -/
theorem agrees_of_percentage (hraw : p.raw ≠ "") (hmax : p.resolution.1 ≤ settings.maxResolution)
    (hsize : p.resolution.1 ≤ 2 ^ 20) (hpercentile : Double.Bounded 100 p.percentile) :
    Agrees p settings point typed input := by
  refine (agrees_or_failed point typed input hraw hmax).resolve_right ?_
  rintro ⟨e, -, n, hn, hplaced⟩
  refine hplaced (Limits.placed_of_bounded (hn.trans ?_) hpercentile)
  calc p.resolution.1 * p.resolution.1 ≤ 2 ^ 20 * 2 ^ 20 := Nat.mul_le_mul hsize hsize
    _ = 2 ^ 40 := by norm_num

end

/-! ## Positions that overflow -/

theorem isFinite_five : (-5 : Float).isFinite = true ∧ (5 : Float).isFinite = true ∧ Scalar.lt (5 : Float) (-5) = false := by
  decide +kernel

/-- The plane over a square of four points, with a percentile that is no percentage. -/
def overflowing : Plan where
  raw := "x"
  mode := .real
  latex := false
  domain := ⟨⟨-5, 5, isFinite_five.1, isFinite_five.2.1, isFinite_five.2.2⟩,
    ⟨-5, 5, isFinite_five.1, isFinite_five.2.1, isFinite_five.2.2⟩⟩
  resolution := ⟨2, Nat.le_succ 1⟩
  clip := none
  percentile := 1e308

theorem parse_overflowing : Formula.parse (.ok overflowing.mode) overflowing.latex overflowing.raw =
    .ok ⟨"x", .real, .var "x"⟩ := by decide +kernel

/-- **Where the positions overflow no front end draws**, though the formula is good and the percentile is finite. -/
theorem not_agrees_overflowing : overflowing.percentile.isFinite = true ∧
    ¬Agrees overflowing .standard none none [] := by
  refine ⟨by decide +kernel, ?_⟩
  have hcount : (finiteCells (overflowing.grid .standard ⟨"x", .real, .var "x"⟩).height).length = 4 := by decide +kernel
  have hlimits : (overflowing.grid .standard ⟨"x", .real, .var "x"⟩).limits overflowing.percentile = .error .tooLarge :=
    Limits.ofHeights_eq_error (by rw [hcount]; decide) (by rw [hcount]; decide +kernel)
  have hsurface : overflowing.surface .standard ⟨"x", .real, .var "x"⟩ = .error .tooLarge := by
    rw [surface, hlimits]
    rfl
  have hcommand := run_of_parse .standard none none [] (show overflowing.raw ≠ "" by decide) parse_overflowing
  rw [hsurface] at hcommand
  rintro (⟨e, kind, h⟩ | ⟨s, h⟩)
  · rw [h.command] at hcommand
    cases hcommand
  · rw [h.command] at hcommand
    cases hcommand

end Plan
end Heightfield
