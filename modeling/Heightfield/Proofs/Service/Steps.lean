import Heightfield.Proofs.Formula.Text
import Heightfield.Service.Request
/-!
# The steps of a plot

A request for a surface is met just if each of its steps is (`plot_eq_ok`), and then the answer is made from what the
steps gave (`Steps.fields`).  Only the answer to such a request has a grid (`plot_of_grid`).
-/
namespace Heightfield

namespace Service

/-! ## What the steps give -/

theorem bind_eq_ok {β γ : Type} {x : Attempt β} {k : β → Attempt γ} {c : γ} (h : x >>= k = .ok c) :
    ∃ b, x = .ok b ∧ k b = .ok c := by
  cases x with
  | error e => cases h
  | ok b => exact ⟨b, rfl, h⟩

/-- The formula of a request is parsed from the text, in the mode and the notation that its fields name. -/
theorem formula_eq {request : Fields} {raw : String} (h : formulaText request = .ok raw) : formula request =
    (Formula.parse (mode request) (isLatex request) raw).mapError .formula := by
  unfold formula
  simp only [h, bind, Except.bind]
  cases Formula.parse (mode request) (isLatex request) raw <;> rfl

/-- The configuration of a request; no fields when none is given. -/
def config (request : Fields) : Json :=
  match Json.get? request "config" with
  | some j => if j.isTruthy then j else .object []
  | none => .object []

theorem eq_field?_of_configured {c : Json} {name : String} {j : Option Json} (h : configured c name = .ok j) :
    j = c.field? name := by
  cases c with
  | object fields =>
    cases h
    rfl
  | _ => cases h

theorem eq_field?_of_parameter {request : Fields} {c : Json} {name : String} {j : Option Json}
    (h : parameter request c name = .ok j) : j = (Json.get? request name).orElse fun _ => c.field? name := by
  obtain ⟨other, hother, h⟩ := bind_eq_ok h
  cases h
  rw [eq_field?_of_configured hother]

/-- What the steps of a plot give. -/
structure Steps where
  formula : Formula
  domain : Domain Float
  resolution : Resolution
  clip : Option (Clip Float)
  percentile : Float
  whole : Bool
  limits : Limits Float
  painted : Fields

namespace Steps

def grid (s : Steps) : Grid Float := Grid.sample s.formula s.domain s.resolution s.clip s.whole

/-- The fields of the answer. -/
def fields (s : Steps) : Fields :=
  [("expression", .string s.formula.text), ("mode", .string s.formula.mode.name), ("vars", variablesJson s.formula),
    ("domain", Report.domain s.domain), ("resolution", .int s.resolution.val), ("grid", Report.grid s.grid),
    ("limits", .object [("min", .real s.limits.lower), ("max", .real s.limits.upper)]),
    ("stats", Report.statistics s.grid.statistics)] ++ s.painted

/-- Every step of the request gives what it should. -/
structure Taken (s : Steps) (settings : Settings) (request : Fields) (config : Json) : Prop where
  formula : Service.formula request = .ok s.formula
  domain : Service.domain settings request config = .ok s.domain
  resolution : Service.resolution settings request config = .ok s.resolution
  clip : Clip.ofJson ((Json.get? request "clip").getD .null) = .ok s.clip
  percentile : Service.percentile settings request config = .ok s.percentile
  whole : Service.wholeSweeps settings config = .ok s.whole
  limits : s.grid.limits s.percentile = .ok s.limits
  painted : colours request config s.grid s.limits = .ok s.painted

end Steps

/-- **A plot is made just from what its steps give.** -/
theorem plot_eq_ok {settings : Settings} {request : Fields} {c : Json} {fields : Fields}
    (h : plot settings request c = .ok fields) : ∃ s : Steps, s.Taken settings request c ∧ fields = s.fields := by
  obtain ⟨f, hf, h⟩ := bind_eq_ok h
  obtain ⟨d, hd, h⟩ := bind_eq_ok h
  obtain ⟨n, hn, h⟩ := bind_eq_ok h
  obtain ⟨clip, hclip, h⟩ := bind_eq_ok h
  obtain ⟨p, hp, h⟩ := bind_eq_ok h
  obtain ⟨whole, hwhole, h⟩ := bind_eq_ok h
  dsimp only at h
  split at h
  · cases h
  · rename_i l hl
    obtain ⟨painted, hpainted, h⟩ := bind_eq_ok h
    have hread : Clip.ofJson ((Json.get? request "clip").getD .null) = .ok clip := by
      cases hj : Clip.ofJson ((Json.get? request "clip").getD .null) with
      | error e =>
        rw [hj] at hclip
        cases hclip
      | ok c =>
        rw [hj] at hclip
        cases hclip
        rfl
    cases h
    exact ⟨⟨f, d, n, clip, p, whole, l, painted⟩, ⟨hf, hd, hn, hread, hp, hwhole, hl, hpainted⟩, rfl⟩

theorem plot_of_taken {s : Steps} {settings : Settings} {request : Fields} {c : Json} (h : s.Taken settings request c) :
    plot settings request c = .ok s.fields := by
  have hlimits : (Grid.sample s.formula s.domain s.resolution s.clip s.whole).limits s.percentile = .ok s.limits :=
    h.limits
  have hpainted : colours request c (Grid.sample s.formula s.domain s.resolution s.clip s.whole) s.limits =
      .ok s.painted := h.painted
  simp only [plot, h.formula, h.domain, h.resolution, h.clip, Attempt.ofField, h.percentile, h.whole, hlimits, hpainted,
    bind, Except.bind]
  rfl

/-! ## Colours -/

/-- The colour map that counts: that of the request, else of the configuration. -/
def chosenMap (request : Fields) : Option Json :=
  (Json.get? request "colormap").orElse fun _ => (config request).field? "colormap"

/-- Colours as they are answered. -/
def coloursJson (rows : List (List (Colour.Rgb Float))) : Json :=
  .array (rows.map fun row => .array (row.map fun c => .array (c.channels.map .real)))

/-- **Nothing is painted without a colour map**, and with one every height is. -/
theorem colours_eq_ok {request : Fields} {g : Grid Float} {l : Limits Float} {painted : Fields}
    (h : colours request (config request) g l = .ok painted) :
    painted = [] ∧ (¬∃ j, chosenMap request = some j ∧ j.isTruthy = true) ∨
      ∃ name, chosenMap request = some (.string name) ∧ (Json.string name).isTruthy = true ∧
        painted = [("colormap", .string name),
          ("colors", coloursJson (Colour.shadeAll (some name) l.lower l.upper g.height))] := by
  obtain ⟨chosen, hparameter, h⟩ := bind_eq_ok h
  rw [show chosenMap request = chosen from (eq_field?_of_parameter hparameter).symm]
  dsimp only at h
  split at h
  · cases h
    exact Or.inl ⟨rfl, nofun⟩
  split at h
  · rename_i hfalse
    cases h
    refine Or.inl ⟨rfl, ?_⟩
    rintro ⟨j, hj, htrue⟩
    cases hj
    rw [htrue] at hfalse
    cases hfalse
  · rename_i htrue
    split at h
    · rename_i name
      cases h
      exact Or.inr ⟨name, rfl, by simpa using htrue, rfl⟩
    · cases h
    · cases h
    · cases h

/-! ## Answers with a grid -/

/-- **What an action answers**: a plot, a value, a formula that can be compiled, plain text or the catalog. -/
theorem perform_eq_ok {settings : Settings} {request : Fields} {fields : Fields}
    (h : perform settings request = .ok fields) :
    plot settings request (config request) = .ok fields ∨
    (∃ f x y, fields = [("expression", .string f.text), ("vars", variablesJson f),
      ("value", outcomeJson (f.outcome x y))]) ∨
    (∃ f : Formula, fields = [("valid", .bool true), ("expression", .string f.text), ("vars", variablesJson f)]) ∨
    (∃ raw, fields = [("plain", .string (latexToPlain raw))]) ∨
    fields = catalog := by
  unfold perform at h
  dsimp only at h
  split at h
  · exact Or.inl h
  · obtain ⟨f, -, h⟩ := bind_eq_ok h
    obtain ⟨x, -, h⟩ := bind_eq_ok h
    obtain ⟨y, -, h⟩ := bind_eq_ok h
    cases h
    exact Or.inr (Or.inl ⟨f, x, y, rfl⟩)
  · obtain ⟨f, -, h⟩ := bind_eq_ok h
    cases h
    exact Or.inr (Or.inr (Or.inl ⟨f, rfl⟩))
  · obtain ⟨raw, -, h⟩ := bind_eq_ok h
    cases h
    exact Or.inr (Or.inr (Or.inr (Or.inl ⟨raw, rfl⟩)))
  · cases h
    exact Or.inr (Or.inr (Or.inr (Or.inr rfl)))
  · cases h
  · cases h
  · cases h

/-- The answer shows a surface. -/
def IsPlot (answer : Json) : Prop :=
  (answer.field? "status").any (·.isText "success") = true ∧ (answer.field? "grid").isSome = true

instance (answer : Json) : Decidable (IsPlot answer) := inferInstanceAs (Decidable (_ ∧ _))

theorem isPlot_success (s : Steps) : IsPlot (success s.fields) := ⟨rfl, rfl⟩

/-- **Only a plot has a grid.** -/
theorem plot_of_grid {settings : Settings} {request : Fields} {fields : Fields}
    (h : perform settings request = .ok fields) (hgrid : (Json.get? fields "grid").isSome = true) :
    plot settings request (config request) = .ok fields := by
  rcases perform_eq_ok h with h | ⟨f, x, y, rfl⟩ | ⟨f, rfl⟩ | ⟨raw, rfl⟩ | rfl
  · exact h
  all_goals cases hgrid

/-- **An answer tells of a failure**, or of what the request asked for. -/
theorem answer_cases (settings : Settings) (line : List Char) : (∃ e, answer settings line = failure e) ∨
    ∃ request fields, Json.read line = .ok (.object request) ∧ perform settings request = .ok fields ∧
      answer settings line = success fields := by
  unfold answer
  split
  · rename_i j hread
    unfold answerValue
    split
    · rename_i request
      cases hperform : perform settings request with
      | ok fields => exact Or.inr ⟨request, fields, hread, hperform, rfl⟩
      | error e => exact Or.inl ⟨e, rfl⟩
    · exact Or.inl ⟨_, rfl⟩
  · exact Or.inl ⟨_, rfl⟩
  · exact Or.inl ⟨_, rfl⟩

/-- A request without an action is one for a surface. -/
theorem answer_of_taken {s : Steps} {settings : Settings} {request : Fields} {line : List Char}
    (hread : Json.read line = .ok (.object request)) (haction : Json.get? request "action" = none)
    (h : s.Taken settings request (config request)) : answer settings line = success s.fields := by
  have hperform : perform settings request = .ok s.fields := by
    rw [← plot_of_taken h]
    unfold perform
    rw [haction]
    rfl
  simp only [answer, hread, answerValue, hperform]

/-- An answer that shows a surface answers a request whose steps were all taken. -/
theorem exists_steps {settings : Settings} {line : List Char} (h : IsPlot (answer settings line)) :
    ∃ (request : Fields) (s : Steps), Json.read line = .ok (.object request) ∧
      s.Taken settings request (config request) ∧ answer settings line = success s.fields := by
  rcases answer_cases settings line with ⟨e, hanswer⟩ | ⟨request, fields, hread, hperform, hanswer⟩
  · rw [hanswer] at h
    have hstatus : decide ("error" = "success") = true := h.1
    simp at hstatus
  · rw [hanswer] at h
    obtain ⟨s, hs, rfl⟩ := plot_eq_ok (plot_of_grid hperform h.2)
    exact ⟨request, s, hread, hs, hanswer⟩

end Service

end Heightfield
