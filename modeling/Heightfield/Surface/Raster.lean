import Heightfield.Surface.Lattice
/-!
# Rasters

A raster is a table of numbers that are all of one sort: machine integers, reals or complex
numbers.  The values of a formula over a lattice are read off as a raster; an integer longer
than a machine word is no entry of one, and then the cells are to be evaluated one by one.

What a raster stands for is decided for all cells at once, by its sort.  On the real plane
complex numbers are no heights.  Over the complex plane a number counts only if both of its
parts are finite.
-/

namespace Heightfield.Formula

inductive Raster (α : Type) where
  | integers (rows : List (List Int))
  | reals (rows : List (List α))
  | complexes (rows : List (List (Complex α)))

variable {α : Type} [Analytic α]

namespace Value

/-- The machine integer that a value is, with a sign or without. -/
def machineInt? : Value α → Option Int
  | int n => if fitsUnsigned n then some n else none
  | word n => some n
  | _ => none

/-- The scalar that a real value is. -/
def scalarOf? : Value α → Option α
  | real _ x => some x
  | _ => none

/-- The number that a complex value is. -/
def complexOf? : Value α → Option (Complex α)
  | complex _ z => some z
  | _ => none

end Value

namespace Raster

/-- A table of entries, if every value is one. -/
def entries? {β : Type} (read? : Value α → Option β) (rows : List (List (Value α))) :
    Option (List (List β)) :=
  rows.mapM (List.mapM read?)

/-- The raster of a table of values, if they are of one sort. -/
def ofRows? (rows : List (List (Value α))) : Option (Raster α) :=
  ((entries? Value.machineInt? rows).map integers).or
    (((entries? Value.scalarOf? rows).map reals).or ((entries? Value.complexOf? rows).map complexes))

/-- What the entries of a raster stand for, by a rule for each sort. -/
def read {β : Type} (integer : Int → β) (real : α → β) (complex : Complex α → β) :
    Raster α → List (List β)
  | integers rows => rows.map (·.map integer)
  | reals rows => rows.map (·.map real)
  | complexes rows => rows.map (·.map complex)

/-- The heights of a raster: its finite real numbers. -/
def heights : Raster α → List (List α) :=
  read (fun n => Value.finiteOrNaN (Scalar.ofInt n)) Value.finiteOrNaN fun _ => Scalar.nan

/-- The numbers of a raster over the complex plane: those with two finite parts. -/
def numbers : Raster α → List (List (Complex α)) :=
  read (fun n => Value.finiteReal (Scalar.ofInt n)) Value.finiteReal Value.finiteComplex

end Raster

end Heightfield.Formula
