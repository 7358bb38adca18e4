import Heightfield.Proofs.Service.View
/-!
# Parameters that a request gives

A parameter that a request gives, and reads as it should, is the one that counts, whatever the settings are: the bounds of
the domain (`domain_of_get?`), the resolution and the percentile.  Domains and clip ranges are read as they are written.
-/
namespace Heightfield

/-! ## Bounds -/

/-- The bounds of both axes as fields. -/
def boundsFields (xMin xMax yMin yMax : Json) : List (String × Json) :=
  [("xMin", xMin), ("xMax", xMax), ("yMin", yMin), ("yMax", yMax)]

namespace Domain

theorem bound_of_toDouble {fields : List (String × Json)} {name other : String} {setting x : Float} {j : Json}
    (hfield : Json.get? fields name = some j) (h : j.toDouble = .ok x) :
    bound (.object fields) name other setting = .ok x := by
  have hbound : bound? (.object fields) name = .ok (some j) := by
    rw [bound?, hfield]
    cases j with
    | null => cases h
    | _ => rfl
  rw [bound, hbound]
  show j.toDoubleField = _
  rw [Json.toDoubleField, h]

/-- **Bounds that are given are those of the domain.** -/
theorem ofJson_boundsFields (settings : Settings) {j₁ j₂ j₃ j₄ : Json} {xMin xMax yMin yMax : Float} {d : Domain Float}
    (h₁ : j₁.toDouble = .ok xMin) (h₂ : j₂.toDouble = .ok xMax) (h₃ : j₃.toDouble = .ok yMin)
    (h₄ : j₄.toDouble = .ok yMax) (hd : ofBounds xMin xMax yMin yMax = .ok d) :
    ofJson settings (.object (boundsFields j₁ j₂ j₃ j₄)) = .ok d := by
  have hxMin : bound (.object (boundsFields j₁ j₂ j₃ j₄)) "xMin" "x_min" settings.xMin = .ok xMin :=
    bound_of_toDouble (by simp [boundsFields]) h₁
  have hxMax : bound (.object (boundsFields j₁ j₂ j₃ j₄)) "xMax" "x_max" settings.xMax = .ok xMax :=
    bound_of_toDouble (by simp [boundsFields]) h₂
  have hyMin : bound (.object (boundsFields j₁ j₂ j₃ j₄)) "yMin" "y_min" settings.yMin = .ok yMin :=
    bound_of_toDouble (by simp [boundsFields]) h₃
  have hyMax : bound (.object (boundsFields j₁ j₂ j₃ j₄)) "yMax" "y_max" settings.yMax = .ok yMax :=
    bound_of_toDouble (by simp [boundsFields]) h₄
  have htruthy : (Json.object (boundsFields j₁ j₂ j₃ j₄)).isTruthy = true := rfl
  unfold ofJson
  simp only [htruthy, if_true, hxMin, hxMax, hyMin, hyMax, bind, Except.bind, hd]
  rfl

theorem ofBounds_eq (d : Domain Float) : ofBounds d.x.lower d.x.upper d.y.lower d.y.upper = .ok d := by
  unfold ofBounds
  rw [dif_pos ⟨d.x.lower_finite, d.x.upper_finite, d.y.lower_finite, d.y.upper_finite⟩,
    dif_pos ⟨d.x.ordered, d.y.ordered⟩]

end Domain

namespace Clip

/-- A clip range as a value. -/
def toJson (c : Clip Float) : Json := .object [("min", .real c.lower), ("max", .real c.upper)]

theorem ofBounds_eq (c : Clip Float) : ofBounds c.lower c.upper = .ok c := by
  unfold ofBounds
  rw [dif_pos ⟨c.lower_finite, c.upper_finite⟩, dif_pos c.ordered]

theorem ofJson_toJson (c : Clip Float) : ofJson c.toJson = .ok (some c) := by
  have htruthy : c.toJson.isTruthy = true := rfl
  have hlower : bound c.toJson "min" = .ok c.lower := by simp [bound, toJson, Json.toDoubleField, Json.toDouble]
  have hupper : bound c.toJson "max" = .ok c.upper := by simp [bound, toJson, Json.toDoubleField, Json.toDouble]
  unfold ofJson
  simp only [htruthy, Bool.not_true, Bool.false_eq_true, if_false, hlower, hupper, bind, Except.bind, ofBounds_eq]
  rfl

end Clip

theorem Resolution.ofJson_int (n : Resolution) : ofJson (.int n.1) = .ok n := by
  have hn : (1 : ℤ) ≤ n.1 := by exact_mod_cast n.2
  unfold ofJson
  simp only [Json.toInt]
  rw [dif_pos ⟨by simp [equals], hn⟩]
  rfl

namespace Service

variable {settings : Settings} {request : Fields}

/-! ## Parameters -/

theorem domain_of_get? {j : Json} {d : Domain Float} (hget : Json.get? request "domain" = some j)
    (htruthy : j.isTruthy = true) (hd : Domain.ofJson settings j = .ok d) (config : Json) :
    domain settings request config = .ok d := by
  unfold domain
  simp only [hget, htruthy, if_true, hd]
  rfl

theorem parameter_of_get? {name : String} {j : Json} (hget : Json.get? request name = some j) (fields : Fields) :
    parameter request (.object fields) name = .ok (some j) := by
  simp only [parameter, configured, hget, bind, Except.bind]
  rfl

theorem resolution_of_get? {n : Resolution} (hget : Json.get? request "resolution" = some (.int n.1))
    (hmax : n.1 ≤ settings.maxResolution) : resolution settings request (.object []) = .ok n := by
  have hn : (1 : ℤ) ≤ n.1 := by exact_mod_cast n.2
  unfold resolution
  simp only [parameter_of_get? hget, configured, Json.get?_nil, bind, Except.bind, Option.getD_some, Option.getD_none,
    Json.toInt, Attempt.ofNumber]
  rw [dif_pos ⟨hn, hmax⟩]
  rfl

theorem percentile_of_get? {j : Json} {p : Float} (hget : Json.get? request "percentile" = some j) (hp : j.toDouble = .ok p)
    (fields : Fields) : percentile settings request (.object fields) = .ok p := by
  unfold percentile
  simp only [parameter_of_get? hget, bind, Except.bind, Option.getD_some, hp]
  rfl

end Service
end Heightfield
