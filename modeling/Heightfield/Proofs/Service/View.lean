import Heightfield.Proofs.Service.Steps
import Heightfield.Proofs.Surface.Channels
/-!
# Plots as clients see them

A client reads the answer to a plot field by field: in each cell of a channel a number, or nothing where null stands
(`PlotView.ofJson?`).  Every answer that shows a surface can be read so, and shows what the steps gave
(`Steps.ofJson?_success`).
-/
namespace Heightfield

/-! ## Reading values -/

namespace Json

@[simp] theorem get?_cons (k : String) (v : Json) (fields : List (String × Json)) (name : String) :
    get? ((k, v) :: fields) name = if k = name then some v else get? fields name := by
  unfold get?
  rw [List.find?_cons]
  by_cases h : k = name
  · simp [h]
  · simp [h]

@[simp] theorem get?_nil (name : String) : get? [] name = none := rfl

@[simp] theorem field?_object (fields : List (String × Json)) (name : String) :
    (object fields).field? name = get? fields name := rfl

def real? : Json → Option Float
  | real x => some x
  | _ => none

def int? : Json → Option Int
  | int n => some n
  | _ => none

def string? : Json → Option String
  | string s => some s
  | _ => none

/-- A number, or nothing where null stands. -/
def cell? : Json → Option (Option Float)
  | real x => some (some x)
  | null => some none
  | _ => none

/-- The items of a list, each read in the same way. -/
def list? {β : Type} (read? : Json → Option β) : Json → Option (List β)
  | array items => items.mapM read?
  | _ => none

theorem list?_map {β γ : Type} {read? : Json → Option β} {write : γ → Json} (view : γ → β)
    (h : ∀ c, read? (write c) = some (view c)) (cs : List γ) :
    list? read? (.array (cs.map write)) = some (cs.map view) := by
  show (cs.map write).mapM read? = some (cs.map view)
  induction cs with
  | nil => rfl
  | cons c cs ih => simp [h, ih]

theorem list?_map_self {β : Type} {read? : Json → Option β} (write : β → Json) (h : ∀ b, read? (write b) = some b)
    (bs : List β) : list? read? (.array (bs.map write)) = some bs := by
  rw [list?_map id h, List.map_id]

/-- A field of an object, read in some way. -/
def readField {β : Type} (j : Json) (name : String) (read? : Json → Option β) : Option β :=
  (j.field? name).bind read?

end Json

/-! ## Views -/

/-- A channel: its cells row by row, and the bounds that are given with it. -/
structure Layer where
  cells : List (List (Option Float))
  low : Float
  high : Float

namespace Layer

/-- The numbers that a channel shows. -/
def numbers (l : Layer) : List Float := l.cells.flatten.reduceOption

def ofJson? (grid : Json) (cells low high : String) : Option Layer := do
  let cells ← grid.readField cells (Json.list? (Json.list? Json.cell?))
  let low ← grid.readField low Json.real?
  let high ← grid.readField high Json.real?
  return ⟨cells, low, high⟩

end Layer

/-- What a plot shows. -/
structure PlotView where
  mode : Mode
  vars : List String
  resolution : Int
  xs : List (Option Float)
  ys : List (Option Float)
  /-- Heights, or real parts. -/
  height : Layer
  imaginary : Option Layer
  lower : Float
  upper : Float
  mean : Float
  median : Float
  imaginaryMean : Option Float
  imaginaryMedian : Option Float
  total : Int
  valid : Int
  invalid : Int
  /-- Channels of the colours, cell by cell. -/
  colours : Option (List (List (List Float)))

namespace PlotView

def layers (v : PlotView) : List Layer := v.height :: v.imaginary.toList

/-- The heights, or the two channels of a grid over the complex plane. -/
def layers? (grid : Json) : Option (Layer × Option Layer) :=
  match grid.field? "z" with
  | some _ => (Layer.ofJson? grid "z" "zMin" "zMax").map (·, none)
  | none => (Layer.ofJson? grid "real" "realMin" "realMax").bind fun re =>
    (Layer.ofJson? grid "imaginary" "imaginaryMin" "imaginaryMax").map fun im => (re, some im)

/-- The colours, when there are any. -/
def colours? (answer : Json) : Option (Option (List (List (List Float)))) :=
  match answer.field? "colors" with
  | none => some none
  | some j => (Json.list? (Json.list? (Json.list? Json.real?)) j).map some

/-- What a client reads in the answer to a plot. -/
def ofJson? (answer : Json) : Option PlotView := do
  let grid ← answer.field? "grid"
  let limits ← answer.field? "limits"
  let stats ← answer.field? "stats"
  let (height, imaginary) ← layers? grid
  return {
    mode := ← answer.readField "mode" fun j => (Mode.ofJson j).toOption
    vars := ← answer.readField "vars" (Json.list? Json.string?)
    resolution := ← answer.readField "resolution" Json.int?
    xs := ← grid.readField "x" (Json.list? Json.cell?)
    ys := ← grid.readField "y" (Json.list? Json.cell?)
    height
    imaginary
    lower := ← limits.readField "min" Json.real?
    upper := ← limits.readField "max" Json.real?
    mean := ← stats.readField "mean" Json.real?
    median := ← stats.readField "median" Json.real?
    imaginaryMean := ← stats.readField "imaginaryMean" Json.cell?
    imaginaryMedian := ← stats.readField "imaginaryMedian" Json.cell?
    total := ← stats.readField "totalCount" Json.int?
    valid := ← stats.readField "validCount" Json.int?
    invalid := ← stats.readField "nanCount" Json.int?
    colours := ← colours? answer }

end PlotView

/-! ## Channels as they are shown -/

/-- What a cell shows of a number: nothing if it is not finite. -/
def cellOf (x : Float) : Option Float := if x.isFinite then some x else none

theorem cell?_finite (x : Float) : (Report.finite x).cell? = some (cellOf x) := by
  unfold Report.finite cellOf
  rw [show Scalar.isFinite x = x.isFinite from rfl]
  cases x.isFinite <;> rfl

theorem list?_row (xs : List Float) : Json.list? Json.cell? (Report.row xs) = some (xs.map cellOf) :=
  Json.list?_map cellOf cell?_finite xs

theorem list?_matrix (rows : List (List Float)) :
    Json.list? (Json.list? Json.cell?) (Report.matrix rows) = some (rows.map (·.map cellOf)) :=
  Json.list?_map _ list?_row rows

theorem reduceOption_cellOf (xs : List Float) : (xs.map cellOf).reduceOption = xs.filter Float.isFinite := by
  induction xs with
  | nil => rfl
  | cons x xs ih =>
    rw [List.map_cons, List.filter_cons]
    unfold cellOf
    cases x.isFinite
    · exact ih
    · exact congrArg (x :: ·) ih

/-- A channel as it is shown. -/
def Layer.ofRows (rows : List (List Float)) : Layer :=
  ⟨rows.map (·.map cellOf), (finiteBounds rows).1, (finiteBounds rows).2⟩

theorem Layer.numbers_ofRows (rows : List (List Float)) : (ofRows rows).numbers = finiteCells rows := by
  show (rows.map (·.map cellOf)).flatten.reduceOption = _
  rw [← List.map_flatten, reduceOption_cellOf]
  rfl

theorem readField_limits (l : Limits Float) :
    let limits := Json.object [("min", .real l.lower), ("max", .real l.upper)]
    limits.readField "min" Json.real? = some l.lower ∧ limits.readField "max" Json.real? = some l.upper := by
  simp [Json.readField, Json.real?]

theorem readField_axes (g : Grid Float) :
    (Report.grid g).readField "x" (Json.list? Json.cell?) = some (g.xs.map cellOf) ∧
    (Report.grid g).readField "y" (Json.list? Json.cell?) = some (g.ys.map cellOf) := by
  cases h : g.imaginary <;> simp [Report.grid, Json.readField, h, list?_row]

theorem bind_of_eq_some {β γ : Type} {x : Option β} {k : β → Option γ} {b : β} {c : γ} (hx : x = some b)
    (hk : k b = some c) : (x >>= k) = some c := by
  rw [hx]
  exact hk

/-- A channel is read from the three fields that hold it. -/
theorem Layer.ofJson?_eq {grid : Json} {cells low high : String} {rows : List (List Float)}
    (hcells : grid.field? cells = some (Report.matrix rows)) (hlow : grid.field? low = some (.real (finiteBounds rows).1))
    (hhigh : grid.field? high = some (.real (finiteBounds rows).2)) :
    Layer.ofJson? grid cells low high = some (.ofRows rows) := by
  have hread : grid.readField cells (Json.list? (Json.list? Json.cell?)) = some (rows.map (·.map cellOf)) := by
    rw [Json.readField, hcells]
    exact list?_matrix rows
  have hreadLow : grid.readField low Json.real? = some (finiteBounds rows).1 := by rw [Json.readField, hlow]; rfl
  have hreadHigh : grid.readField high Json.real? = some (finiteBounds rows).2 := by rw [Json.readField, hhigh]; rfl
  exact bind_of_eq_some hread (bind_of_eq_some hreadLow (bind_of_eq_some hreadHigh rfl))

theorem layers?_grid (g : Grid Float) :
    PlotView.layers? (Report.grid g) = some (.ofRows g.height, g.imaginary.map .ofRows) := by
  cases h : g.imaginary with
  | none =>
    have hz : (Report.grid g).field? "z" = some (Report.matrix g.height) := by simp [Report.grid, h]
    have hheight := Layer.ofJson?_eq hz (show (Report.grid g).field? "zMin" = _ by simp [Report.grid, h])
      (show (Report.grid g).field? "zMax" = _ by simp [Report.grid, h])
    rw [PlotView.layers?, hz]
    simp only [hheight, Option.map_some, Option.map_none]
  | some rows =>
    have hz : (Report.grid g).field? "z" = none := by simp [Report.grid, h]
    have hreal : (Report.grid g).field? "real" = some (Report.matrix g.height) := by simp [Report.grid, h]
    have himaginary : (Report.grid g).field? "imaginary" = some (Report.matrix rows) := by simp [Report.grid, h]
    have hheight := Layer.ofJson?_eq hreal (show (Report.grid g).field? "realMin" = _ by simp [Report.grid, h])
      (show (Report.grid g).field? "realMax" = _ by simp [Report.grid, h])
    have hsecond := Layer.ofJson?_eq himaginary
      (show (Report.grid g).field? "imaginaryMin" = _ by simp [Report.grid, h])
      (show (Report.grid g).field? "imaginaryMax" = _ by simp [Report.grid, h])
    rw [PlotView.layers?, hz]
    simp only [hheight, hsecond, Option.bind_some, Option.map_some]

theorem readField_statistics (c : Statistics Float) :
    let stats := Report.statistics c
    stats.readField "mean" Json.real? = some c.height.mean ∧
    stats.readField "median" Json.real? = some c.height.median ∧
    stats.readField "imaginaryMean" Json.cell? = some (c.imaginary.map Channel.mean) ∧
    stats.readField "imaginaryMedian" Json.cell? = some (c.imaginary.map Channel.median) ∧
    stats.readField "totalCount" Json.int? = some (c.total : ℤ) ∧
    stats.readField "validCount" Json.int? = some (c.valid : ℤ) ∧
    stats.readField "nanCount" Json.int? = some (c.invalid : ℤ) := by
  intro stats
  cases h : c.imaginary <;>
    simp [stats, Report.statistics, Json.readField, h, Json.real?, Json.int?, Json.cell?]

namespace Service.Steps

variable (s : Steps)

/-- The colours that are shown, taken from what was painted. -/
def colours? : Option (Option (List (List (List Float)))) := PlotView.colours? (.object s.painted)

/-- What the steps show. -/
def view (colours : Option (List (List (List Float)))) : PlotView where
  mode := s.formula.mode
  vars := s.formula.freeVariables
  resolution := s.resolution.val
  xs := s.grid.xs.map cellOf
  ys := s.grid.ys.map cellOf
  height := .ofRows s.grid.height
  imaginary := s.grid.imaginary.map .ofRows
  lower := s.limits.lower
  upper := s.limits.upper
  mean := s.grid.statistics.height.mean
  median := s.grid.statistics.height.median
  imaginaryMean := s.grid.statistics.imaginary.map Channel.mean
  imaginaryMedian := s.grid.statistics.imaginary.map Channel.median
  total := s.grid.statistics.total
  valid := s.grid.statistics.valid
  invalid := s.grid.statistics.invalid
  colours

theorem ofJson_name (m : Mode) : (Mode.ofJson (.string m.name)).toOption = some m := by
  cases m <;> rfl

/-- **A client sees what the steps gave.** -/
theorem ofJson?_success {colours : Option (List (List (List Float)))} (h : s.colours? = some colours) :
    PlotView.ofJson? (success s.fields) = some (s.view colours) := by
  have hcolours : PlotView.colours? (success s.fields) = some colours := by
    rw [← h]
    simp [PlotView.colours?, success, fields, colours?]
  have hvars : (success s.fields).readField "vars" (Json.list? Json.string?) = some s.formula.freeVariables := by
    have hlist : Json.list? Json.string? (.array (s.formula.freeVariables.map .string)) = some s.formula.freeVariables :=
      Json.list?_map_self .string (fun _ => rfl) _
    simpa [success, fields, Json.readField, variablesJson] using hlist
  have hmode : (success s.fields).readField "mode" (fun j => (Mode.ofJson j).toOption) = some s.formula.mode := by
    simp [success, fields, Json.readField, ofJson_name]
  have hresolution : (success s.fields).readField "resolution" Json.int? = some (s.resolution.val : ℤ) := by
    simp [success, fields, Json.readField, Json.int?]
  have hgrid : (success s.fields).field? "grid" = some (Report.grid s.grid) := by simp [success, fields]
  have hlimits : (success s.fields).field? "limits" =
      some (.object [("min", .real s.limits.lower), ("max", .real s.limits.upper)]) := by simp [success, fields]
  have hstats : (success s.fields).field? "stats" = some (Report.statistics s.grid.statistics) := by
    simp [success, fields]
  obtain ⟨hxs, hys⟩ := readField_axes s.grid
  obtain ⟨hlower, hupper⟩ := readField_limits s.limits
  obtain ⟨hmean, hmedian, himean, himedian, htotal, hvalid, hinvalid⟩ := readField_statistics s.grid.statistics
  refine bind_of_eq_some hgrid (bind_of_eq_some hlimits (bind_of_eq_some hstats ?_))
  refine bind_of_eq_some (layers?_grid s.grid) ?_
  refine bind_of_eq_some hmode (bind_of_eq_some hvars (bind_of_eq_some hresolution ?_))
  refine bind_of_eq_some hxs (bind_of_eq_some hys (bind_of_eq_some hlower (bind_of_eq_some hupper ?_)))
  refine bind_of_eq_some hmean (bind_of_eq_some hmedian (bind_of_eq_some himean (bind_of_eq_some himedian ?_)))
  refine bind_of_eq_some htotal (bind_of_eq_some hvalid (bind_of_eq_some hinvalid (bind_of_eq_some hcolours ?_)))
  rfl

end Service.Steps

end Heightfield
