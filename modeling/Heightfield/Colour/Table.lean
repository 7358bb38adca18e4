import Heightfield.Colour.Catalog
import Heightfield.Colour.Viridis
/-!
# Colour tables

A colour map is a table of 256 colours.  Most tables are made from a few knots between which
each channel runs in straight lines; Viridis is tabulated.

A map is asked for by a name of the catalog or of the registry of tables.  Registered names
end in `_r` for the table turned around.  A name that is neither gives Viridis.

The registry stands in for a larger one.  It has the maps that the catalog names and one more; any
other name that is known elsewhere gives Viridis here.  Plasma, Inferno, Magma, Cividis, Twilight
and Coolwarm are lines through a few of their colours, which between these only come near the tabulated
ones.  What is proved of colours asks of a table no more than that its channels are bounded.
-/

namespace Heightfield

namespace Colour

structure Rgb (α : Type) where
  red : α
  green : α
  blue : α
  deriving DecidableEq, Repr

/-- The colours of a map, from the least height to the greatest. -/
abbrev Table (α : Type) := Vector (Rgb α) 256

variable {α : Type} [Scalar α]

/-! ## Tables from knots -/

/-- A place on the way from zero to one and the value of a channel there, both in millionths. -/
structure Knot where
  position : Nat
  value : Nat
  deriving DecidableEq, Repr

def millionths (n : Nat) : α := Scalar.ofRatio n 1000000

/-- The value at `t` of the broken line through places and values. -/
def lineThrough (t : α) : List (α × α) → α
  | [] => Scalar.ofInt 0
  | [(_, v)] => v
  | (p, v) :: (q, w) :: rest =>
    if Scalar.le t q then (t - p) / (q - p) * (w - v) + v else lineThrough t ((q, w) :: rest)

/-- The table whose channels are broken lines. -/
def ofLines (red green blue : List (α × α)) : Table α :=
  .ofFn fun i =>
    let t := Scalar.ofRatio i.val 255
    ⟨lineThrough t red, lineThrough t green, lineThrough t blue⟩

def ofKnots (red green blue : List Knot) : Table α :=
  let line (knots : List Knot) : List (α × α) :=
    knots.map fun k => (millionths k.position, millionths k.value)
  ofLines (line red) (line green) (line blue)

/-- A channel of stops, evenly spaced, each from zero to 255. -/
def evenLine (values : List Nat) : List (α × α) :=
  values.zipIdx.map fun (v, i) => (Scalar.ofRatio i (values.length - 1), Scalar.ofRatio v 255)

/-- The table through evenly spaced colours `0xrrggbb`. -/
def ofStops (colours : List Nat) : Table α :=
  ofLines (evenLine (colours.map (· / 65536))) (evenLine (colours.map (· / 256 % 256)))
    (evenLine (colours.map (· % 256)))

def viridis : Table α :=
  .ofFn fun i =>
    have : i.val < viridisEntries.size := by rw [size_viridisEntries]; exact i.isLt
    let e := viridisEntries[i.val]
    let channel (n : Nat) : α := Scalar.ofRatio n 10000
    ⟨channel (e / 100000000), channel (e / 10000 % 10000), channel (e % 10000)⟩

def jet : Table α :=
  ofKnots
    [⟨0, 0⟩, ⟨350000, 0⟩, ⟨660000, 1000000⟩, ⟨890000, 1000000⟩, ⟨1000000, 500000⟩]
    [⟨0, 0⟩, ⟨125000, 0⟩, ⟨375000, 1000000⟩, ⟨640000, 1000000⟩, ⟨910000, 0⟩, ⟨1000000, 0⟩]
    [⟨0, 500000⟩, ⟨110000, 1000000⟩, ⟨340000, 1000000⟩, ⟨650000, 0⟩, ⟨1000000, 0⟩]

def hot : Table α :=
  ofKnots
    [⟨0, 41600⟩, ⟨365079, 1000000⟩, ⟨1000000, 1000000⟩]
    [⟨0, 0⟩, ⟨365079, 0⟩, ⟨746032, 1000000⟩, ⟨1000000, 1000000⟩]
    [⟨0, 0⟩, ⟨746032, 0⟩, ⟨1000000, 1000000⟩]

def hsv : Table α :=
  ofKnots
    [⟨0, 1000000⟩, ⟨158730, 1000000⟩, ⟨174603, 968750⟩, ⟨333333, 31250⟩, ⟨349206, 0⟩,
     ⟨666667, 0⟩, ⟨682540, 31250⟩, ⟨841270, 968750⟩, ⟨857143, 1000000⟩, ⟨1000000, 1000000⟩]
    [⟨0, 0⟩, ⟨158730, 937500⟩, ⟨174603, 1000000⟩, ⟨507937, 1000000⟩, ⟨666667, 62500⟩,
     ⟨682540, 0⟩, ⟨1000000, 0⟩]
    [⟨0, 0⟩, ⟨333333, 0⟩, ⟨349206, 62500⟩, ⟨507937, 1000000⟩, ⟨841270, 1000000⟩,
     ⟨857143, 937500⟩, ⟨1000000, 93750⟩]

/-! ## Names -/

/-- What a table is made from. -/
inductive Source where
  | viridis | jet | hot | hsv
  | stops (colours : List Nat)
  deriving DecidableEq, Repr

def Source.table : Source → Table α
  | .viridis => Colour.viridis
  | .jet => Colour.jet
  | .hot => Colour.hot
  | .hsv => Colour.hsv
  | .stops colours => ofStops colours

/-- A map that a name stands for. -/
structure ColourMap where
  name : String
  source : Source
  /-- Whether the table is turned around. -/
  reversed : Bool
  deriving DecidableEq, Repr

def ColourMap.table (m : ColourMap) : Table α :=
  if m.reversed then m.source.table.reverse else m.source.table

/-- Maps of this library's own, found by their exact names. -/
def ownMaps : List (String × List Nat) := [
  ("Picnic", [0x0000ff, 0x3399ff, 0x66ccff, 0x99ccff, 0xccccff, 0xffffff, 0xffccff, 0xff99ff,
    0xff66cc, 0xff6666, 0xff0000]),
  ("Portland", [0x0c3383, 0x0a88ba, 0xf2d338, 0xf28f38, 0xd91e1e]),
  ("Phase", [0xff0000, 0xffff00, 0x00ff00, 0x00ffff, 0x0000ff, 0xff00ff, 0xff0000]),
  ("IceFire", [0xbde7db, 0x3e9ad6, 0x3a3e9a, 0x1a1a1a, 0x8a2a46, 0xe8663a, 0xf9d8a7]),
  ("Mathematica", [0x0000cd, 0x00ffff, 0x00ff00, 0xffff00, 0xff0000])]

/-- Tables for the maps that are generally known, some of them approximate. -/
def registry : List (String × Source) := [
  ("viridis", .viridis),
  ("plasma", .stops [0x0d0887, 0x46039f, 0x7201a8, 0x9c179e, 0xbd3786, 0xd8576b, 0xed7953, 0xfb9f3a,
    0xfdca26, 0xf0f921]),
  ("inferno", .stops [0x000004, 0x1b0c41, 0x4a0c6b, 0x781c6d, 0xa52c60, 0xcf4446, 0xed6925, 0xfb9b06,
    0xf7d13d, 0xfcffa4]),
  ("magma", .stops [0x000004, 0x180f3d, 0x440f76, 0x721f81, 0x9e2f7f, 0xcd4071, 0xf1605d, 0xfd9668,
    0xfeca8d, 0xfcfdbf]),
  ("cividis", .stops [0x00224e, 0x123570, 0x3b496c, 0x575d6d, 0x707173, 0x8a8678, 0xa59c74, 0xc3b369,
    0xe1cc55, 0xfee838]),
  ("Blues", .stops [0xf7fbff, 0xdeebf7, 0xc6dbef, 0x9ecae1, 0x6baed6, 0x4292c6, 0x2171b5, 0x08519c,
    0x08306b]),
  ("Greens", .stops [0xf7fcf5, 0xe5f5e0, 0xc7e9c0, 0xa1d99b, 0x74c476, 0x41ab5d, 0x238b45, 0x006d2c,
    0x00441b]),
  ("Reds", .stops [0xfff5f0, 0xfee0d2, 0xfcbba1, 0xfc9272, 0xfb6a4a, 0xef3b2c, 0xcb181d, 0xa50f15,
    0x67000d]),
  ("hot", .hot),
  ("jet", .jet),
  ("RdBu", .stops [0x67001f, 0xb2182b, 0xd6604d, 0xf4a582, 0xfddbc7, 0xf7f7f7, 0xd1e5f0, 0x92c5de,
    0x4393c3, 0x2166ac, 0x053061]),
  ("RdYlBu", .stops [0xa50026, 0xd73027, 0xf46d43, 0xfdae61, 0xfee090, 0xffffbf, 0xe0f3f8, 0xabd9e9,
    0x74add1, 0x4575b4, 0x313695]),
  ("Spectral", .stops [0x9e0142, 0xd53e4f, 0xf46d43, 0xfdae61, 0xfee08b, 0xffffbf, 0xe6f598, 0xabdda4,
    0x66c2a5, 0x3288bd, 0x5e4fa2]),
  ("hsv", .hsv),
  ("twilight", .stops [0xe2d9e2, 0x9ebbc9, 0x6785be, 0x5e43a5, 0x421257, 0x471340, 0x8e2c50, 0xba6657,
    0xceac94, 0xe2d9e2]),
  ("coolwarm", .stops [0x3b4cc0, 0x6788ee, 0x9abbff, 0xc9d7f0, 0xedd1c2, 0xf7a889, 0xe26952, 0xb40426])]

/-- The registered map with a name. -/
def registered? (name : String) : Option ColourMap :=
  registry.findSome? fun (known, source) =>
    if name = known then some ⟨name, source, false⟩
    else if name = known ++ "_r" then some ⟨name, source, true⟩
    else none

/-- ASCII letters in lower case. -/
def lowercase (s : String) : String := String.ofList (s.toList.map Char.toLower)

/-- The map that is asked for. -/
def resolve (name : Option String) : ColourMap :=
  let asked := match name with
    | none | some "" => "Viridis"
    | some s => s
  let key := match entry? asked with
    | some e => e.value
    | none => asked
  match ownMaps.find? (·.1 = key) with
  | some (own, colours) => ⟨lowercase own, .stops colours, false⟩
  | none => ((registered? key).orElse fun _ => registered? (lowercase key)).getD ⟨"viridis", .viridis, false⟩

end Colour

end Heightfield
