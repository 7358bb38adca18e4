import Heightfield.Formula.Evaluate
/-!
# Formulas over a whole lattice

A formula can be evaluated in all cells of a lattice at once: each of its functions is
applied to a whole sheet of values before the next one.  What does not depend on the
point stays a single value, and is computed once.

Cells are not always raised to a power as a value is.  For an exponent that all of them share there
are shorter rules: a square is a product, and the power of one half is the square root.  At the ends of the
real line and on the negative axis the root is not the power of one half, so there a formula over a lattice
can differ from the formula at its points.

A step that fails in one cell fails for the whole sheet, and so does an extremum of a single
value and a sheet, whose shapes differ.  Then the cells are to be evaluated one by one.
-/

namespace Heightfield

/-- What a function of the point gives over a lattice: row by row from the samples of `y`,
and along a row from the samples of `x`. -/
def tabulate {α β : Type} (xs ys : List α) (f : α → α → β) : List (List β) :=
  ys.map fun y => xs.map fun x => f x y

/-- The entry of a table in row `i` and column `j`. -/
def cell? {β : Type} (rows : List (List β)) (i j : Nat) : Option β := rows[i]?.bind (·[j]?)

section Tabulate

variable {α β γ δ : Type} {xs ys : List α}

theorem map_tabulate (f : α → α → β) (g : β → γ) :
    (tabulate xs ys f).map (·.map g) = tabulate xs ys fun x y => g (f x y) := by
  simp [tabulate, Function.comp_def]

theorem tabulate_congr {f g : α → α → β} (h : ∀ x ∈ xs, ∀ y ∈ ys, f x y = g x y) :
    tabulate xs ys f = tabulate xs ys g :=
  List.map_congr_left fun y hy => List.map_congr_left fun x hx => h x hx y hy

theorem eq_of_tabulate_eq {f g : α → α → β} (h : tabulate xs ys f = tabulate xs ys g) :
    ∀ x ∈ xs, ∀ y ∈ ys, f x y = g x y :=
  fun x hx y hy => List.map_inj_left.1 (List.map_inj_left.1 h y hy) x hx

theorem zipWith_tabulate (k : β → γ → δ) (f : α → α → β) (g : α → α → γ) :
    List.zipWith (List.zipWith k) (tabulate xs ys f) (tabulate xs ys g) =
      tabulate xs ys fun x y => k (f x y) (g x y) := by
  simp [tabulate, List.zipWith_map, List.zipWith_self]

theorem length_tabulate (f : α → α → β) : (tabulate xs ys f).length = ys.length := by
  simp [tabulate]

theorem length_of_mem_tabulate {f : α → α → β} {row : List β} (h : row ∈ tabulate xs ys f) :
    row.length = xs.length := by
  obtain ⟨y, -, rfl⟩ := List.mem_map.1 h
  rw [List.length_map]

theorem cell?_tabulate (f : α → α → β) {i j : Nat} {x y : α}
    (hx : xs[j]? = some x) (hy : ys[i]? = some y) : cell? (tabulate xs ys f) i j = some (f x y) := by
  simp [cell?, tabulate, hx, hy]

end Tabulate

namespace Formula

/-- The values of an expression over a lattice, row by row, or one value for all cells. -/
inductive Sheet (α : Type) where
  | uniform (v : Value α)
  | cells (rows : List (List (Value α)))

variable {α : Type} [Analytic α]

namespace Sheet

/-- The sheet of a function of the point. -/
def ofPoints (xs ys : List α) (f : α → α → Value α) : Sheet α := cells (tabulate xs ys f)

/-- A function of values applied in every cell. -/
def map (f : Value α → Value α) : Sheet α → Sheet α
  | uniform v => uniform (f v)
  | cells rows => cells (rows.map (·.map f))

/-- The same for a function that may fail. -/
def map? (f : Value α → Option (Value α)) : Sheet α → Option (Sheet α)
  | uniform v => (f v).map uniform
  | cells rows => (rows.mapM (List.mapM f)).map cells

/-- A function of two values, which may fail, applied to two rows. -/
def zipRow? (f : Value α → Value α → Option (Value α)) :
    List (Value α) → List (Value α) → Option (List (Value α))
  | v :: vs, w :: ws => (f v w).bind fun u => (zipRow? f vs ws).map (u :: ·)
  | _, _ => some []

def zipRows? (f : Value α → Value α → Option (Value α)) :
    List (List (Value α)) → List (List (Value α)) → Option (List (List (Value α)))
  | r :: rs, s :: ss => (zipRow? f r s).bind fun t => (zipRows? f rs ss).map (t :: ·)
  | _, _ => some []

/-- A function of two values, which may fail, applied in every cell. -/
def zip? (f : Value α → Value α → Option (Value α)) : Sheet α → Sheet α → Option (Sheet α)
  | uniform v, uniform w => (f v w).map uniform
  | uniform v, cells rows => map? (f v) (cells rows)
  | cells rows, uniform w => map? (f · w) (cells rows)
  | cells rows, cells rows' => (zipRows? f rows rows').map cells

/-- Whether two sheets are both uniform or both not. -/
def sameShape : Sheet α → Sheet α → Bool
  | uniform _, uniform _ | cells _, cells _ => true
  | _, _ => false

/-- The values row by row, over a lattice with the given axes. -/
def rows (xs ys : List α) : Sheet α → List (List (Value α))
  | uniform v => tabulate xs ys fun _ _ => v
  | cells rows => rows

end Sheet

/-! ## Powers -/

/-- Half of one. -/
def half : α := Scalar.ofRatio 1 2

/-- The power of one cell, by an exponent that it shares with all others.  For real cells a square is a
product, the power of minus one a quotient, and the power of one half the square root.  For complex cells
only a written exponent counts, and the quotient has no rule of its own. -/
def Value.powShared (v exponent : Value α) : Option (Value α) :=
  match v, exponent with
  | .real _ _, .int n | .real _ _, .word n =>
    if n = 2 then Value.mul v v else if n = -1 then Value.div Value.one v else Value.pow v exponent
  | .real _ _, .real _ y =>
    if Scalar.eq y half then Value.analytic .sqrt v
    else if Scalar.eq y (Scalar.ofInt 2) then Value.mul v v
    else if Scalar.eq y (Scalar.ofInt (-1)) then Value.div Value.one v
    else Value.pow v exponent
  | .complex _ _, .int n => if n = 2 then Value.mul v v else Value.pow v exponent
  | .complex _ _, .real .written y =>
    if Scalar.eq y half then Value.analytic .sqrt v else Value.pow v exponent
  | _, _ => Value.pow v exponent

/-! ## Operations -/

/-- Whether an operation needs operands of one shape. -/
def Operation.stacks : Operation → Bool
  | .min | .max => true
  | _ => false

def Operation.sheet? (op : Operation) (v w : Sheet α) : Option (Sheet α) :=
  match op, v, w with
  | .pow, .cells rows, .uniform exponent => Sheet.map? (Value.powShared · exponent) (.cells rows)
  | op, v, w => if op.stacks && !v.sameShape w then none else Sheet.zip? op.eval v w

/-- The values of an expression over a lattice. -/
def Expr.sheet? (env : String → Option (Sheet α)) : Expr → Option (Sheet α)
  | .int n => some (.uniform (.int n))
  | .decimal d e => some (.uniform (.real .written (Scalar.ofDecimal d e)))
  | .constant c => some (.uniform c.eval)
  | .var name => env name
  | .neg a => (a.sheet? env).map (Sheet.map Value.neg)
  | .apply f a => (a.sheet? env).bind (Sheet.map? f.eval)
  | .binary op a b => (a.sheet? env).bind fun v => (b.sheet? env).bind fun w => op.sheet? v w
  | .undefined _ | .applied _ _ | .bare => none

/-- The sheets that a lattice gives to the variables of a mode. -/
def sheets (mode : Mode) (xs ys : List α) : String → Option (Sheet α) := fun name =>
  match mode with
  | .real =>
    if name = "x" then some (.ofPoints xs ys fun x _ => .computed x)
    else if name = "y" then some (.ofPoints xs ys fun _ y => .computed y)
    else none
  | .complex =>
    if name = "x" then some (.ofPoints xs ys fun x _ => .computedComplex (.ofReal x))
    else if name = "y" then some (.ofPoints xs ys fun _ y => .computedComplex (.ofReal y))
    else if name = "z" then some (.ofPoints xs ys fun x y => .computedComplex (planePoint x y))
    else none

/-- The values of a formula over a lattice, when no step fails. -/
def sheet? (f : Formula) (xs ys : List α) : Option (Sheet α) :=
  f.expr.sheet? (sheets f.mode xs ys)

end Formula

end Heightfield
