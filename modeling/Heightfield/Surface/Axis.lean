import Heightfield.Number.Scalar
/-!
# Samples along an axis

The samples between two ends are evenly spaced, and the last one is the end itself.  Steps
are multiplied, not added up, so that errors do not grow along the axis.
-/

namespace Heightfield

variable {α : Type} [Scalar α]

/-- The sample with index `i`, counted in `parts` steps from `start` on.  A step too small
to be told from zero is not multiplied: the whole way is taken in proportion. -/
def axisSample (start stop : α) (parts i : Nat) : α :=
  let way := stop - start
  let step := way / Scalar.ofNat parts
  if Scalar.isZero step then Scalar.ofNat i / Scalar.ofNat parts * way + start
  else Scalar.ofNat i * step + start

/-- `n` evenly spaced samples from `start` to the end; only `start` when there is no room
for two. -/
def axisSamples (start stop : α) (n : Nat) : List α :=
  if n < 2 then [start]
  else (List.range (n - 1)).map (axisSample start stop (n - 1)) ++ [stop]

theorem length_axisSamples (start stop : α) {n : Nat} (h : 1 ≤ n) :
    (axisSamples start stop n).length = n := by
  unfold axisSamples
  split
  · simp; omega
  · simp; omega

end Heightfield
