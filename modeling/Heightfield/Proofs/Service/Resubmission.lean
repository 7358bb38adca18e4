import Heightfield.Proofs.Service.View
/-!
# Requests made again

An answer shows the text of its formula, and a client may send that text in place of what the user typed.  It is answered
as before (`answerValue_resubmitted`), whatever was asked for: the text gives the formula again, and nothing but the
formula is read from the fields that change.
-/
namespace Heightfield

namespace Json

theorem get?_put_of_ne {name other : String} (value : Json) (h : other ≠ name) :
    ∀ fields, get? (put name value fields) other = get? fields other
  | [] => by rw [put, get?_cons, if_neg h.symm]
  | (k, v) :: fields => by
    rw [put]
    split
    · rename_i hk
      rw [get?_cons, get?_cons, hk, if_neg h.symm, if_neg h.symm]
    · rw [get?_cons, get?_cons, get?_put_of_ne value h fields]

end Json

namespace Service

/-- The request with a plain text for its formula. -/
def resubmitted (request : Fields) (text : String) : Fields :=
  Json.put "latex" (.bool false) (Json.put "expression" (.string text) request)

/-! ## What the formula decides -/

/-- The requests have the same formula, and the same fields but for those that give it. -/
structure SameFormula (request request' : Fields) : Prop where
  formula : Service.formula request' = Service.formula request
  get? : ∀ name, name ≠ "expression" → name ≠ "latex" → Json.get? request' name = Json.get? request name

namespace SameFormula

variable {request request' : Fields}

theorem parameter (h : SameFormula request request') (config : Json) {name : String} (hname : name ≠ "expression")
    (hname' : name ≠ "latex") : Service.parameter request' config name = Service.parameter request config name := by
  rw [Service.parameter, Service.parameter, h.get? name hname hname']

theorem config (h : SameFormula request request') : Service.config request' = Service.config request := by
  rw [Service.config, Service.config, h.get? "config" (by decide) (by decide)]

theorem colours (h : SameFormula request request') (config : Json) (g : Grid Float) (l : Limits Float) :
    Service.colours request' config g l = Service.colours request config g l := by
  rw [Service.colours, Service.colours, h.parameter config (by decide) (by decide)]

theorem plot (h : SameFormula request request') (settings : Settings) (config : Json) :
    Service.plot settings request' config = Service.plot settings request config := by
  have hdomain : domain settings request' config = domain settings request config := by
    rw [domain, domain, h.get? "domain" (by decide) (by decide)]
  have hresolution : resolution settings request' config = resolution settings request config := by
    rw [resolution, resolution, h.parameter config (by decide) (by decide)]
  have hpercentile : percentile settings request' config = percentile settings request config := by
    rw [percentile, percentile, h.parameter config (by decide) (by decide)]
  have hclip := h.get? "clip" (by decide) (by decide)
  unfold Service.plot
  simp only [h.formula, hdomain, hresolution, hclip, hpercentile, h.colours]

theorem evaluate (h : SameFormula request request') : Service.evaluate request' = Service.evaluate request := by
  have hcoordinate : ∀ name, name ≠ "expression" → name ≠ "latex" → coordinate request' name = coordinate request name := by
    intro name hname hname'
    rw [coordinate, coordinate, h.get? name hname hname']
  rw [Service.evaluate, Service.evaluate, h.formula, hcoordinate "x" (by decide) (by decide),
    hcoordinate "y" (by decide) (by decide)]

theorem validate (h : SameFormula request request') : Service.validate request' = Service.validate request := by
  rw [Service.validate, Service.validate, h.formula]

end SameFormula

/-! ## Asking again -/

variable {settings : Settings} {request : Fields} {text : String}

theorem formula_eq_ok {f : Formula} (h : formula request = .ok f) :
    ∃ raw, Formula.parse (mode request) (isLatex request) raw = .ok f := by
  obtain ⟨raw, htext, -⟩ := bind_eq_ok h
  rw [formula_eq htext] at h
  cases hparse : Formula.parse (mode request) (isLatex request) raw with
  | error e =>
    rw [hparse] at h
    cases h
  | ok f' =>
    rw [hparse] at h
    cases h
    exact ⟨raw, hparse⟩

theorem get?_resubmitted {name : String} (hname : name ≠ "expression") (hname' : name ≠ "latex") :
    Json.get? (resubmitted request text) name = Json.get? request name := by
  rw [resubmitted, Json.get?_put_of_ne _ hname', Json.get?_put_of_ne _ hname]

theorem formula_resubmitted :
    formula (resubmitted request text) = (Formula.parse (mode request) false text).mapError .formula := by
  have hmode : mode (resubmitted request text) = mode request := by
    rw [mode, mode, get?_resubmitted (by decide) (by decide)]
  have hlatex : isLatex (resubmitted request text) = false := by
    rw [isLatex, resubmitted, Json.get?_put]
    rfl
  have htext : formulaText (resubmitted request text) = .ok text := by
    rw [formulaText, resubmitted, Json.get?_put_of_ne _ (by decide), Json.get?_put]
  rw [formula_eq htext, hmode, hlatex]

theorem sameFormula_resubmitted {f : Formula} (h : formula request = .ok f) :
    SameFormula request (resubmitted request f.text) where
  formula := by
    obtain ⟨raw, hparse⟩ := formula_eq_ok h
    rw [formula_resubmitted, Formula.parse_text hparse, h]
    rfl
  get? _ hname hname' := get?_resubmitted hname hname'

theorem SameFormula.perform_eq {request' : Fields} (h : SameFormula request request') :
    perform settings request' = match (Json.get? request "action").getD (.string "plot") with
      | .string "plot" => Service.plot settings request' (Service.config request)
      | .string "evaluate" => Service.evaluate request'
      | .string "validate" => Service.validate request'
      | .string "convert" => convert request'
      | .string "catalog" => .ok catalog
      | .array _ | .object _ => .error .actionWithoutName
      | j => .error (.unknownAction j.displayPlain) := by
  rw [← h.get? "action" (by decide) (by decide), ← h.config]
  rfl

/-- **A request whose answer shows a text has a formula with that text**, and requests with the same formula are
answered alike. -/
theorem formula_of_expression {fields : Fields} (hperform : perform settings request = .ok fields)
    (htext : (success fields).readField "expression" Json.string? = some text) :
    (∃ f, formula request = .ok f ∧ f.text = text) ∧ ∀ request', SameFormula request request' →
      perform settings request' = .ok fields := by
  rw [SameFormula.perform_eq ⟨rfl, fun _ _ _ => rfl⟩] at hperform
  split at hperform
  · rename_i haction
    obtain ⟨s, htaken, rfl⟩ := plot_eq_ok hperform
    refine ⟨⟨s.formula, htaken.formula, Option.some.inj htext⟩, fun request' h => ?_⟩
    rw [h.perform_eq, haction, ← hperform]
    exact h.plot settings _
  · rename_i haction
    obtain ⟨f, hf, hfields⟩ := bind_eq_ok hperform
    obtain ⟨x, -, hfields⟩ := bind_eq_ok hfields
    obtain ⟨y, -, hfields⟩ := bind_eq_ok hfields
    cases hfields
    refine ⟨⟨f, hf, Option.some.inj htext⟩, fun request' h => ?_⟩
    rw [h.perform_eq, haction, ← hperform]
    exact h.evaluate
  · rename_i haction
    obtain ⟨f, hf, hfields⟩ := bind_eq_ok hperform
    cases hfields
    refine ⟨⟨f, hf, Option.some.inj htext⟩, fun request' h => ?_⟩
    rw [h.perform_eq, haction, ← hperform]
    exact h.validate
  · -- plain text and the catalog are not shown as formulas
    obtain ⟨raw, -, hfields⟩ := bind_eq_ok hperform
    cases hfields
    cases htext
  · cases hperform
    cases htext
  all_goals cases hperform

/-- **What an answer shows as the formula may be sent in its place**: a request whose answer has an expression is answered
the same with that text for its formula, as plain text, whatever its action and its other fields are. -/
theorem answerValue_resubmitted
    (htext : (answerValue settings (.object request)).readField "expression" Json.string? = some text) :
    answerValue settings (.object (resubmitted request text)) = answerValue settings (.object request) := by
  cases hperform : perform settings request with
  | error e =>
    have hanswer : answerValue settings (.object request) = failure e := by rw [answerValue, hperform]
    rw [hanswer] at htext
    -- a failure shows no expression
    have hnone : Json.get? e.details "expression" = none := by
      unfold RequestError.details
      split <;> rfl
    simp [failure, Json.readField, hnone] at htext
  | ok fields =>
    have hanswer : answerValue settings (.object request) = success fields := by rw [answerValue, hperform]
    rw [hanswer] at htext
    obtain ⟨⟨f, hf, rfl⟩, hsame⟩ := formula_of_expression hperform htext
    rw [hanswer, answerValue, hsame _ (sameFormula_resubmitted hf)]

/-- The value at a point is asked for, of an equation in LaTeX. -/
def waveRequest : Fields :=
  [("action", .string "evaluate"), ("expression", .string "w = \\frac\x7b1\x7d\x7b2\x7de2\\sin(\\pi x)"),
    ("latex", .bool true), ("x", .int 3)]

theorem answerValue_resubmitted_wave :
    (answerValue .standard (.object waveRequest)).readField "expression" Json.string? = some "((1)/(2))*e*2*sin(pi *x)" ∧
      answerValue .standard (.object (resubmitted waveRequest "((1)/(2))*e*2*sin(pi *x)")) =
        answerValue .standard (.object waveRequest) := by
  have htext : (answerValue .standard (.object waveRequest)).readField "expression" Json.string? =
      some "((1)/(2))*e*2*sin(pi *x)" := by decide +kernel
  exact ⟨htext, answerValue_resubmitted htext⟩

end Service

end Heightfield
