import Heightfield.Number.Reading
/-!
# Settings

What users can set once for all requests: how finely surfaces are sampled, and where.  A
setting that is absent or cannot be read has its standard value.
-/

namespace Heightfield

namespace Setting

/-- The words that turn a switch on. -/
def yes : List String := ["1", "true", "yes", "on"]

/-- A switch; any text but a word for yes turns it off. -/
def switch (raw : Option String) (standard : Bool) : Bool :=
  match raw with
  | none => standard
  | some s => yes.contains (String.ofList ((trim s.toList).map Char.toLower))

def integer (raw : Option String) (standard : Int) : Int := (raw.bind Reading.integer?).getD standard

def real (raw : Option String) (standard : Float) : Float := (raw.bind Reading.double?).getD standard

end Setting

structure Settings where
  resolution : Int
  maxResolution : Int
  xMin : Float
  xMax : Float
  yMin : Float
  yMax : Float
  percentile : Float
  /-- Whether lattices are swept as a whole where possible. -/
  wholeSweeps : Bool

namespace Settings

/-- The names under which settings are looked up. -/
def names : List String :=
  ["SURFACE_RESOLUTION", "SURFACE_MAX_RESOLUTION", "SURFACE_X_MIN", "SURFACE_X_MAX", "SURFACE_Y_MIN",
   "SURFACE_Y_MAX", "SURFACE_PERCENTILE", "SURFACE_VECTORIZE"]

/-- The settings that texts give, looked up by name. -/
def ofLookup (find : String → Option String) : Settings where
  resolution := Setting.integer (find "SURFACE_RESOLUTION") 50
  maxResolution := Setting.integer (find "SURFACE_MAX_RESOLUTION") 400
  xMin := Setting.real (find "SURFACE_X_MIN") (-5.0)
  xMax := Setting.real (find "SURFACE_X_MAX") 5.0
  yMin := Setting.real (find "SURFACE_Y_MIN") (-5.0)
  yMax := Setting.real (find "SURFACE_Y_MAX") 5.0
  percentile := Setting.real (find "SURFACE_PERCENTILE") 95.0
  wholeSweeps := Setting.switch (find "SURFACE_VECTORIZE") true

/-- The standard settings. -/
def standard : Settings := ofLookup fun _ => none

end Settings

end Heightfield
