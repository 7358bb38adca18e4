import Heightfield.Number.Double
import Heightfield.Service.Fields
import Heightfield.Surface.Limits
import Heightfield.Surface.Statistics
/-!
# Plotting sessions

A session holds a formula, the parameters with which it is sampled, and what is on display.
Sweeps take time, so one is first requested and finished later; meanwhile the formula and
the parameters may change and further sweeps may be requested.

Every request draws the next ticket and keeps the formula and the parameters of its moment.
A sweep that is finished goes on display only if its ticket is still the latest, so that a
slow old sweep never hides a newer one.
-/

namespace Heightfield

variable {α : Type} [Analytic α]

/-! ## Sweeps -/

/-- What a sweep needs to know. -/
structure Parameters (α : Type) [Scalar α] where
  formula : Formula
  domain : Domain α
  /-- The resolution that was asked for, good or not. -/
  resolution : Json
  clip : Option (Clip α)
  percentile : α
  wholeSweeps : Bool

/-- Why a sweep gives nothing. -/
inductive SweepError where
  | resolution (e : ResolutionError)
  | limits (e : LimitsError)
  deriving DecidableEq, Repr

/-- A surface with its limits and its statistics. -/
structure Surface (α : Type) where
  grid : Grid α
  limits : Limits α
  statistics : Statistics α

/-- The surface that parameters give. -/
def Parameters.sweep (p : Parameters α) : Except SweepError (Surface α) :=
  match Resolution.ofJson p.resolution with
  | .error e => .error (.resolution e)
  | .ok n =>
    let g := Grid.sample p.formula p.domain n p.clip p.wholeSweeps
    match g.limits p.percentile with
    | .error e => .error (.limits e)
    | .ok l => .ok ⟨g, l, g.statistics⟩

/-! ## Sessions -/

/-- What is shown: parts of a surface, as far as they are there. -/
structure Display (α : Type) where
  grid : Option (Grid α)
  limits : Option (Limits α)
  statistics : Option (Statistics α)

def Display.empty : Display α := ⟨none, none, none⟩

def Surface.display (s : Surface α) : Display α := ⟨some s.grid, some s.limits, some s.statistics⟩

/-- A finished sweep, and whether it went on display. -/
structure Update (α : Type) where
  ticket : Nat
  surface : Surface α
  applied : Bool

/-- A requested sweep, with its result once it is finished. -/
structure Job (α : Type) [Scalar α] where
  ticket : Nat
  parameters : Parameters α
  result : Option (Except SweepError (Update α))

structure Session (α : Type) [Scalar α] where
  /-- The mode for the next formula, known or not. -/
  mode : Json
  domain : Domain α
  resolution : Json
  clip : Option (Clip α)
  percentile : α
  wholeSweeps : Bool
  formula : Option Formula
  /-- What was wrong with the last formula, if it was rejected. -/
  rejected : Option FormulaError
  /-- The latest ticket that was drawn. -/
  latest : Nat
  /-- All sweeps requested so far. -/
  jobs : List (Job α)
  display : Display α

namespace Session

/-- A session in which nothing has happened. -/
def new (mode : Json) (domain : Domain α) (resolution : Json) (clip : Option (Clip α)) (percentile : α)
    (wholeSweeps : Bool) : Session α where
  mode := mode
  domain := domain
  resolution := resolution
  clip := clip
  percentile := percentile
  wholeSweeps := wholeSweeps
  formula := none
  rejected := none
  latest := 0
  jobs := []
  display := .empty

/-- A session whose parameters come from the settings where they are not given.  A
resolution that counts as not given, such as zero, is not. -/
def ofSettings (settings : Settings) (mode : Json) (domain : Option (Domain Float)) (resolution : Json)
    (clip : Option (Clip Float)) (percentile : Option Float) : Except FieldError (Session Float) := do
  let domain ← match domain with
    | some d => pure d
    | none => Domain.ofJson settings .null
  return new mode domain (if resolution.isTruthy then resolution else .int settings.resolution) clip
    (percentile.getD settings.percentile) settings.wholeSweeps

/-! ## The formula -/

/-- A formula is typed.  A rejected one leaves the one before in place, and what is wrong
with its text is remembered. -/
def setFormula (s : Session α) (raw : String) (latex : Bool) : Session α × Except FormulaError Formula :=
  match Formula.parse (Mode.ofJson s.mode) latex raw with
  | .ok f => ({ s with formula := some f, rejected := none }, .ok f)
  | .error e => ({ s with rejected := if e.kind?.isSome then some e else s.rejected }, .error e)

/-! ## Sweeps -/

/-- The parameters of a sweep requested now; none without a formula. -/
def parameters? (s : Session α) : Option (Parameters α) :=
  s.formula.map fun f => ⟨f, s.domain, s.resolution, s.clip, s.percentile, s.wholeSweeps⟩

/-- A sweep is requested: the next ticket is drawn.  Without a formula nothing happens. -/
def request? (s : Session α) : Option (Session α) :=
  s.parameters?.map fun p =>
    { s with latest := s.latest + 1, jobs := s.jobs ++ [⟨s.latest + 1, p, none⟩] }

/-- A surface arrives under a ticket, and goes on display if no later ticket was drawn. -/
def apply (s : Session α) (ticket : Nat) (shown : Display α) : Session α × Bool :=
  if ticket = s.latest then ({ s with display := shown }, true) else (s, false)

/-- The result of a sweep, and the session after it. -/
def complete (s : Session α) (job : Job α) : Session α × Except SweepError (Update α) :=
  match job.parameters.sweep with
  | .error e => (s, .error e)
  | .ok surface =>
    let (s, applied) := s.apply job.ticket surface.display
    (s, .ok ⟨job.ticket, surface, applied⟩)

/-- The sweep with an index is finished.  One that is finished already only repeats its
result.  None if there is no such sweep. -/
def finish? (s : Session α) (i : Nat) : Option (Session α × Except SweepError (Update α)) :=
  s.jobs[i]?.map fun job =>
    match job.result with
    | some r => (s, r)
    | none =>
      let (s, r) := s.complete job
      ({ s with jobs := s.jobs.set i { job with result := some r } }, r)

/-- A place in the list of sweeps; negative ones count from the end. -/
def index? (s : Session α) (i : Int) : Option Nat :=
  if 0 ≤ i then some i.toNat
  else if -i ≤ s.jobs.length then some (s.jobs.length + i).toNat
  else none

/-- A sweep is requested and finished at once. -/
def refresh? (s : Session α) : Option (Session α × Except SweepError (Update α)) :=
  s.request?.bind fun s => s.finish? (s.jobs.length - 1)

end Session

/-- What a session says that has no formula. -/
def noFormulaMessage : String := "No expression has been set for this session"

end Heightfield
