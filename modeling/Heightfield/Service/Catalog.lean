import Heightfield.Colour.Catalog
import Heightfield.Formula.Compile
import Heightfield.Json.Value
/-!
# The catalog of the service

What a user interface offers to its users: functions and constants by group, for each mode,
and colour maps.
-/

namespace Heightfield

namespace Service

/-- Groups of names. -/
abbrev Groups := List (String × List String)

def functions : Mode → Groups
  | .real => [
    ("trigonometric", ["sin", "cos", "tan", "asin", "acos", "atan", "atan2", "sinh", "cosh", "tanh"]),
    ("exponential", ["exp", "log", "log10", "log2", "ln", "sqrt", "cbrt"]),
    ("arithmetic", ["abs", "ceil", "floor", "round", "sign", "pow"]),
    ("other", ["min", "max", "mod"]),
    ("constants", ["pi", "e"])]
  | .complex => [
    ("trigonometric", ["sin", "cos", "tan", "asin", "acos", "atan", "sinh", "cosh", "tanh"]),
    ("exponential", ["exp", "log", "ln", "sqrt", "pow"]),
    ("complex", ["conj", "arg", "real", "imag", "re", "im", "abs"]),
    ("arithmetic", ["abs", "sign"]),
    ("constants", ["pi", "e", "i"])]

def groupsJson (groups : Groups) : Json :=
  .object (groups.map fun (name, members) => (name, .array (members.map .string)))

def entryJson (e : Colour.Entry) : Json :=
  .object [("name", .string e.name), ("value", .string e.value), ("type", .string e.kind.name),
    ("description", .string e.description)]

/-- The fields of the catalog. -/
def catalog : List (String × Json) := [
  ("functions", .object (Mode.all.map fun m => (m.name, groupsJson (functions m)))),
  ("colormaps", .array (Colour.catalog.map entryJson)),
  ("defaultColormaps", .object (Colour.defaults.map fun (use, name) => (use, .string name)))]

end Service

end Heightfield
