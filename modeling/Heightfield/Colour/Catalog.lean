import Heightfield.Number.Decimal
import Heightfield.Number.Scalar
/-!
# The catalog of colour maps

The maps that users choose from, each with the kind of surface it suits, and the colours
that tell several plots apart.
-/

namespace Heightfield

namespace Colour

inductive Kind where
  /-- For surfaces in general. -/
  | sequential
  /-- For surfaces about zero. -/
  | diverging
  /-- For angles. -/
  | cyclic
  deriving DecidableEq, Repr

def Kind.name : Kind → String
  | sequential => "sequential"
  | diverging => "diverging"
  | cyclic => "cyclic"

structure Entry where
  name : String
  value : String
  kind : Kind
  description : String
  deriving DecidableEq, Repr

/-- An entry whose value is its name. -/
def Entry.plain (kind : Kind) (name description : String) : Entry := ⟨name, name, kind, description⟩

def catalog : List Entry := [
  .plain .sequential "Viridis" "Perceptually uniform, colorblind-friendly",
  .plain .sequential "Plasma" "High contrast, purple to yellow",
  .plain .sequential "Inferno" "Dark background, warm colors",
  .plain .sequential "Magma" "Similar to inferno, more magenta",
  .plain .sequential "Cividis" "Optimized for colorblind viewers",
  .plain .sequential "Blues" "Light to dark blue",
  .plain .sequential "Greens" "Light to dark green",
  .plain .sequential "Reds" "Light to dark red",
  .plain .sequential "Hot" "Black-red-yellow-white",
  .plain .sequential "Jet" "Rainbow colors (not perceptually uniform)",
  .plain .diverging "RdBu" "Red to blue through white",
  .plain .diverging "RdYlBu" "Red-yellow-blue diverging",
  .plain .diverging "Spectral" "Rainbow diverging colormap",
  .plain .diverging "Picnic" "Blue to red through white",
  .plain .diverging "Portland" "Blue-white-red",
  .plain .cyclic "HSV" "Full hue cycle, good for angles",
  .plain .cyclic "Phase" "Cyclic colormap for phase",
  .plain .cyclic "Twilight" "Perceptually uniform cyclic",
  .plain .cyclic "IceFire" "Cyan-black-orange cyclic"]

/-- The map suggested for each use. -/
def defaults : List (String × String) :=
  [("general", "Viridis"), ("periodic", "HSV"), ("diverging", "RdBu")]

/-- The entry with a name or a value. -/
def entry? (name : String) : Option Entry :=
  catalog.find? fun e => e.name = name ∨ e.value = name

/-- The entries of a kind, named by its name. -/
def ofKind (kind : String) : List Entry := catalog.filter (·.kind.name = kind)

/-! ## Telling plots apart -/

def baseColours : List String :=
  ["#1f77b4", "#ff7f0e", "#2ca02c", "#d62728", "#9467bd",
   "#8c564b", "#e377c2", "#7f7f7f", "#bcbd22", "#17becf"]

/-- The colour with index `i` of `n` evenly spaced hues. -/
def hueText (n i : Nat) : String :=
  "hsl(" ++ Decimal.general.write (Scalar.ofRatio (i * 360) n) ++ ", 70%, 50%)"

/-- Colours for several plots: base colours as long as they suffice, else hues. -/
def distinct (count : Int) : List String :=
  if count ≤ baseColours.length then baseColours.take count.toNat
  else (List.range count.toNat).map (hueText count.toNat)

end Colour

end Heightfield
