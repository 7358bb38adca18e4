import Heightfield.Surface.Grid
/-!
# Statistics of a grid

A cell is valid when it is finite, over the complex plane in both parts.  The mean and the
median of each channel are taken over the valid cells; without any they are zero.

Sums are formed in halves, and within a block in eight interleaved sums, so that rounding
errors stay small however many cells there are.
-/

namespace Heightfield

variable {α : Type} [Scalar α]

open Scalar (ofInt ofNat)

/-! ## Sums -/

/-- The sum from left to right.  It starts from negative zero, to which any number may be
added without a change. -/
def sumInOrder (vs : List α) : α := vs.foldl (· + ·) (-ofInt 0)

/-- Neighbours added to each other. -/
def addNeighbours : List α → List α
  | a :: b :: vs => (a + b) :: addNeighbours vs
  | vs => vs

/-- Eight sums, to which further blocks of eight are added place by place; then the eight
are added up, and what is left over after them. -/
def sumBlocks (sums : List α) : List α → α
  | a :: b :: c :: d :: e :: f :: g :: h :: vs =>
    sumBlocks (List.zipWith (· + ·) sums [a, b, c, d, e, f, g, h]) vs
  | vs => vs.foldl (· + ·) (sumInOrder (addNeighbours (addNeighbours (addNeighbours sums))))

/-- The number of values up to which a sum is not split. -/
def blockSize : Nat := 128

/-- About half of `n`, a multiple of eight. -/
def halfOf (n : Nat) : Nat := n / 2 - n / 2 % 8

/-- The sum formed in halves. -/
def balancedSum (vs : List α) : α :=
  if vs.length < 8 then sumInOrder vs
  else if vs.length ≤ blockSize then sumBlocks (vs.take 8) (vs.drop 8)
  else
    balancedSum (vs.take (halfOf vs.length)) + balancedSum (vs.drop (halfOf vs.length))
termination_by vs.length
decreasing_by all_goals (simp only [blockSize, halfOf, List.length_take, List.length_drop] at *; omega)

/-! ## Means and medians -/

/-- The mean; zero of nothing. -/
def mean (vs : List α) : α :=
  if vs.isEmpty then ofInt 0 else balancedSum vs / ofNat vs.length

/-- The value in the middle, or the mean of the two there; zero of nothing. -/
def median (vs : List α) : α :=
  let sorted := (vs.mergeSort Scalar.le).toArray
  let n := sorted.size
  mean (if n % 2 = 1 then (sorted.extract (n / 2) (n / 2 + 1)).toList
    else (sorted.extract (n / 2 - 1) (n / 2 + 1)).toList)

/-! ## Statistics -/

structure Channel (α : Type) where
  mean : α
  median : α
  deriving DecidableEq, Repr

def Channel.ofValues (vs : List α) : Channel α := ⟨Heightfield.mean vs, Heightfield.median vs⟩

structure Statistics (α : Type) where
  height : Channel α
  /-- The second channel, over the complex plane. -/
  imaginary : Option (Channel α)
  total : Nat
  valid : Nat
  valid_le : valid ≤ total

namespace Statistics

def invalid (s : Statistics α) : Nat := s.total - s.valid

def ofHeights (heights : List α) : Statistics α :=
  let valid := heights.filter Scalar.isFinite
  ⟨.ofValues valid, none, heights.length, valid.length, List.length_filter_le ..⟩

def ofNumbers (numbers : List (Complex α)) : Statistics α :=
  let valid := numbers.filter Complex.isFinite
  ⟨.ofValues (valid.map Complex.re), some (.ofValues (valid.map Complex.im)),
    numbers.length, valid.length, List.length_filter_le ..⟩

end Statistics

/-- The statistics of a grid. -/
def Grid.statistics (g : Grid α) : Statistics α :=
  match g.imaginary with
  | none => .ofHeights g.height.flatten
  | some imaginary => .ofNumbers (List.zipWith Complex.mk g.height.flatten imaginary.flatten)

end Heightfield
