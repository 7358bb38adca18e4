import Mathlib.Data.Rat.Floor
import Heightfield.Proofs.Modes.Values
import Heightfield.Proofs.Names.Report
import Heightfield.Proofs.Surface.Sampling
/-!
# The modes agree on the real line

From `x`, `y` and written numbers, by sums, differences, products, small powers, extrema, magnitudes, rounding and
remainders, expressions are built that mean the same in both modes (`Expr.RealFragment`).  Where such an expression has a
height, that is its outcome over the plane, with no imaginary part; elsewhere neither outcome is a number.  Over a lattice
it means the same as at the points.  So the real channel of its grid over the plane is its grid of heights, and the
imaginary channel is zero in the cells that hold a number (`Expr.RealFragment.agree`).
-/
namespace Heightfield

open Exact (Tame OnLine)

namespace Formula

/-! ## The fragment -/

namespace Expr

/-- The functions that are real on the real line, and known exactly there. -/
def axisFunctions : List Function := [.abs, .floor, .ceil, .round]

def axisOperations : List Operation := [.add, .sub, .mul, .min, .max, .mod, .gcd, .lcm]

/-- An expression of the real line.  The exponent of a power is a written natural number below one hundred. -/
inductive RealFragment : Expr → Prop where
  | int (n : Nat) : RealFragment (.int n)
  | decimal (d : Nat) (e : Int) : RealFragment (.decimal d e)
  | x : RealFragment (.var "x")
  | y : RealFragment (.var "y")
  | neg {a : Expr} (ha : RealFragment a) : RealFragment (.neg a)
  | apply {f : Function} {a : Expr} (hf : f ∈ axisFunctions) (ha : RealFragment a) : RealFragment (.apply f a)
  | binary {op : Operation} {a b : Expr} (hop : op ∈ axisOperations) (ha : RealFragment a) (hb : RealFragment b) :
      RealFragment (.binary op a b)
  | pow {a : Expr} {n : Nat} (hn : n < 100) (ha : RealFragment a) : RealFragment (.binary .pow a (.int n))

variable {e : Expr}

/-! ### Acceptance -/

theorem RealFragment.names (h : e.RealFragment) : ∀ v ∈ e.names, v = "x" ∨ v = "y" := by
  induction h with
  | int _ | decimal _ _ => exact fun v hv => by cases hv
  | x => exact fun v hv => Or.inl (List.mem_singleton.1 hv)
  | y => exact fun v hv => Or.inr (List.mem_singleton.1 hv)
  | neg _ ih => exact ih
  | apply _ _ ih => exact ih
  | binary _ _ _ iha ihb => exact fun v hv => (List.mem_append.1 hv).elim (iha v) (ihb v)
  | pow _ _ ih => exact fun v hv => (List.mem_append.1 hv).elim (ih v) fun hv => by cases hv

theorem RealFragment.hasBare_eq (h : e.RealFragment) : e.hasBare = false := by
  induction h with
  | neg _ ih => exact ih
  | apply _ _ ih => exact ih
  | binary _ _ _ iha ihb => rw [hasBare, iha, ihb]; rfl
  | pow _ _ ih => rw [hasBare, ih]; rfl
  | _ => rfl

theorem RealFragment.isNaN_eq (h : e.RealFragment) : e.isNaN = false := by
  induction h with
  | neg _ ih => exact ih
  | _ => rfl

theorem RealFragment.factors (h : e.RealFragment) : ∀ f ∈ e.factors, f.RealFragment := by
  induction h with
  | int n => exact fun f hf => List.mem_singleton.1 hf ▸ .int n
  | decimal d e => exact fun f hf => List.mem_singleton.1 hf ▸ .decimal d e
  | x => exact fun f hf => List.mem_singleton.1 hf ▸ .x
  | y => exact fun f hf => List.mem_singleton.1 hf ▸ .y
  | neg ha _ => exact fun f hf => List.mem_singleton.1 hf ▸ .neg ha
  | apply hg ha _ => exact fun f hf => List.mem_singleton.1 hf ▸ .apply hg ha
  | pow hn ha _ => exact fun f hf => List.mem_singleton.1 hf ▸ .pow hn ha
  | @binary op a b hop ha hb iha ihb =>
    cases op with
    | mul => exact fun f hf => (List.mem_append.1 hf).elim (iha f) (ihb f)
    | div => exact absurd hop (by decide)
    | _ => exact fun f hf => List.mem_singleton.1 hf ▸ .binary hop ha hb

theorem RealFragment.leadsWithNaN_eq (h : e.RealFragment) : e.leadsWithNaN = false := by
  rw [leadsWithNaN, Bool.and_eq_false_iff]
  refine Or.inr (Bool.eq_false_iff.2 fun hany => ?_)
  obtain ⟨f, hf, hnan⟩ := (Option.any_eq_true _ _).1 hany
  rw [(h.factors f (List.mem_of_mem_head? hf)).isNaN_eq] at hnan
  cases hnan

theorem RealFragment.hasLeadingNaN_eq (h : e.RealFragment) : ∀ inside, e.hasLeadingNaN inside = false := by
  induction h with
  | int _ | decimal _ _ | x | y => exact fun _ => rfl
  | neg _ ih => exact fun _ => ih true
  | apply _ _ ih => exact fun _ => ih false
  | pow _ _ ih =>
    intro inside
    rw [hasLeadingNaN, ih]
    · rfl
    all_goals simp
  | @binary op a b hop ha hb iha ihb =>
    intro inside
    cases op with
    | mul => rw [hasLeadingNaN, (RealFragment.binary hop ha hb).leadsWithNaN_eq, iha, ihb, Bool.and_false]; rfl
    | div => exact absurd hop (by decide)
    | _ => simp only [hasLeadingNaN, iha, ihb, Bool.or_self]

/-! ### Values -/

section
variable {K : Type} [Field K] [LinearOrder K] [FloorRing K] [IsStrictOrderedRing K] [OtherFunctions K]
  {v v' w w' : Value (Exact K)}

theorem function_agrees {f : Function} (hf : f ∈ axisFunctions) (hv : v.Agrees v') : Value.Agree (f.eval v) (f.eval v') := by
  simp only [axisFunctions, List.mem_cons, List.not_mem_nil, or_false] at hf
  rcases hf with rfl | rfl | rfl | rfl
  · exact Value.abs_agrees hv
  · exact .some (Value.rounded_agrees Exact.rounds_floor hv)
  · exact .some (Value.rounded_agrees Exact.rounds_ceil hv)
  · exact Value.round_agrees hv

omit [IsStrictOrderedRing K] in
theorem operation_agrees {op : Operation} (hop : op ∈ axisOperations) (hv : v.Agrees v') (hw : w.Agrees w') :
    Value.Agree (op.eval v w) (op.eval v' w') := by
  simp only [axisOperations, List.mem_cons, List.not_mem_nil, or_false] at hop
  rcases hop with rfl | rfl | rfl | rfl | rfl | rfl | rfl | rfl
  · exact Value.add_agrees hv hw
  · exact Value.sub_agrees hv hw
  · exact Value.mul_agrees hv hw
  · exact Value.min_agrees hv hw
  · exact Value.max_agrees hv hw
  · exact Value.mod_agrees hv hw
  · exact Value.gcd_agrees hv hw
  · exact Value.lcm_agrees hv hw

/-- **The values of an expression of the real line agree.** -/
theorem RealFragment.eval_agrees (h : e.RealFragment) {x y : Exact K} (hx : Tame x) (hy : Tame y) :
    Value.Agree (e.eval (environment .real x y)) (e.eval (environment .complex x y)) := by
  induction h with
  | int n => exact .some (.int n)
  | decimal d e => exact .some (.real .written (.number _))
  | x => exact .some (.line (.ofReal hx))
  | y => exact .some (.line (.ofReal hy))
  | neg _ ih => exact Value.rel_map ih fun v v' hv => Value.neg_agrees hv
  | apply hf _ ih => exact Value.rel_bind ih fun v v' hv => function_agrees hf hv
  | binary hop _ _ iha ihb =>
    exact Value.rel_bind iha fun v v' hv => Value.rel_bind ihb fun w w' hw => operation_agrees hop hv hw
  | pow hn _ ih => exact Value.rel_bind ih fun v v' hv => Value.pow_agrees hv hn

/-- **The powers of an expression of the real line agree**: shared by the cells of a lattice, its exponents give the powers
of the values. -/
theorem RealFragment.powersAgree (h : e.RealFragment) {x y : Exact K} (hx : Tame x) (hy : Tame y) :
    e.PowersAgree (environment .real x y) ∧ e.PowersAgree (environment .complex x y) := by
  induction h with
  | int _ | decimal _ _ | x | y => exact ⟨trivial, trivial⟩
  | neg _ ih | apply _ _ ih => exact ih
  | @binary op _ _ hop _ _ iha ihb =>
    have hne : op ≠ .pow := by
      rintro rfl
      exact absurd hop (by decide)
    exact ⟨⟨iha.1, ihb.1, fun h => absurd h hne⟩, iha.2, ihb.2, fun h => absurd h hne⟩
  | @pow a n _ ha ih =>
    have hagree := ha.eval_agrees hx hy
    refine ⟨⟨ih.1, trivial, fun _ _ _ v hv w hw => ?_⟩, ih.2, trivial, fun _ _ _ v' hv' w hw => ?_⟩
    all_goals obtain rfl := Option.some.inj hw
    · rw [Option.mem_def.1 hv] at hagree
      generalize a.eval (environment .complex x y) = r at hagree
      cases hagree with
      | some h => exact (Value.powShared_agrees h n).1
    · rw [Option.mem_def.1 hv'] at hagree
      generalize a.eval (environment .real x y) = r at hagree
      cases hagree with
      | some h => exact (Value.powShared_agrees h n).2

end

end Expr

/-! ## Outcomes -/

section
variable {K : Type} [Field K] [LinearOrder K] [FloorRing K]

/-- The outcome on the real axis, and over the plane: a number and the same without an imaginary part, or both not a
number. -/
inductive SameOutcome : Exact K → Complex (Exact K) → Prop where
  | number (a : K) : SameOutcome (.number a) ⟨.number a, .number 0⟩
  | notANumber : SameOutcome .notANumber ⟨.notANumber, .notANumber⟩

variable [OtherFunctions K]

theorem sameOutcome_finite {x : Exact K} (hx : Tame x) : SameOutcome (Value.finiteOrNaN x) (Value.finiteReal x) := by
  cases hx with
  | number a =>
    change SameOutcome (.number a) (.ofReal (.number a))
    rw [Exact.ofReal_number]
    exact .number a
  | notANumber => exact .notANumber

/-- **Where values agree, the outcomes do.** -/
theorem sameOutcome_of_agree {v v' : Option (Value (Exact K))} (h : Value.Agree v v') :
    SameOutcome (Value.realOutcome v) (Value.complexOutcome v') := by
  cases h with
  | none => exact .notANumber
  | some h => cases h with
    | int n | word n => exact sameOutcome_finite (Exact.tame_ofInt n)
    | real o hx => exact sameOutcome_finite hx
    | line h => cases h with
      | number a => exact .number a
      | notANumber hy => exact .notANumber

end

end Formula

/-! ## Grids -/

section
variable {K : Type} [Field K] [LinearOrder K] [FloorRing K] {x start stop : Exact K}

theorem Exact.exists_number (h : Scalar.isFinite x = true) : ∃ a, x = .number a := by
  cases x with
  | number a => exact ⟨a, rfl⟩
  | infinite s => cases h
  | notANumber => cases h

theorem tame_of_mem_axisSamples (hstart : Scalar.isFinite start = true) (hstop : Scalar.isFinite stop = true) {n : Nat} :
    ∀ x ∈ axisSamples start stop n, Tame x := by
  obtain ⟨a, rfl⟩ := Exact.exists_number hstart
  obtain ⟨b, rfl⟩ := Exact.exists_number hstop
  intro x hx
  unfold axisSamples at hx
  split at hx
  · rw [List.mem_singleton.1 hx]
    exact .number a
  rcases List.mem_append.1 hx with hx | hx
  · obtain ⟨i, -, rfl⟩ := List.mem_map.1 hx
    have hparts : ((n - 1 : ℕ) : K) ≠ 0 := Nat.cast_ne_zero.2 (by omega)
    have hdiv : ∀ c : K, (Exact.number c / Scalar.ofNat (n - 1) : Exact K) = .number (c / (n - 1 : ℕ)) := fun c => by
      rw [Exact.ofNat_eq]
      exact if_neg hparts
    rw [axisSample, Exact.number_sub, hdiv, Exact.ofNat_eq i, hdiv]
    split
    · exact .number _
    · exact .number _
  · rw [List.mem_singleton.1 hx]
    exact .number b

namespace Grid

/-- **The grid over the plane is the grid of heights**, and its imaginary channel is zero in the cells that hold a
number, and not a number in the others. -/
structure OnRealLine (heights plane : Grid (Exact K)) : Prop where
  xs : plane.xs = heights.xs
  ys : plane.ys = heights.ys
  height : plane.height = heights.height
  imaginary : ∃ rows, plane.imaginary = some rows ∧ ∀ i j v, cell? plane.height i j = some v →
    ∃ w, cell? rows i j = some w ∧ Formula.SameOutcome v ⟨v, w⟩

theorem exists_of_cell?_tabulate {α β : Type} {xs ys : List α} {f : α → α → β} {i j : Nat} {v : β}
    (h : cell? (tabulate xs ys f) i j = some v) : ∃ x y, xs[j]? = some x ∧ ys[i]? = some y ∧ v = f x y := by
  obtain ⟨row, hrow, hcell⟩ := Option.bind_eq_some_iff.1 h
  rw [tabulate, List.getElem?_map] at hrow
  obtain ⟨y, hy, rfl⟩ := Option.map_eq_some_iff.1 hrow
  rw [List.getElem?_map] at hcell
  obtain ⟨x, hx, rfl⟩ := Option.map_eq_some_iff.1 hcell
  exact ⟨x, y, hx, hy, rfl⟩

section
variable [OtherFunctions K] (clip : Option (Clip (Exact K)))

theorem sameOutcome_clipped {r : Exact K} {z : Complex (Exact K)} (h : Formula.SameOutcome r z) :
    Formula.SameOutcome (clippedHeight clip r) ⟨clippedHeight clip r, z.im⟩ := by
  cases h with
  | number a => cases clip with
    | none => exact .number a
    | some c =>
      obtain ⟨l, hl⟩ := Exact.exists_number c.lower_finite
      obtain ⟨u, hu⟩ := Exact.exists_number c.upper_finite
      have hclip : clippedHeight (some c) (.number a) = .number (min (max a l) u) := by
        rw [← Exact.clamp_number, ← hl, ← hu]
        rfl
      rw [hclip]
      exact .number _
  | notANumber => cases clip <;> exact .notANumber

theorem onRealLine_sample {f g : Formula} (hf : f.mode = .real) (hg : g.mode = .complex)
    (h : ∀ {x y : Exact K}, Tame x → Tame y →
      Formula.SameOutcome (Formula.Value.realOutcome (f.value? x y)) (Formula.Value.complexOutcome (g.value? x y)))
    (hpowers : ∀ {x y : Exact K}, Tame x → Tame y → f.expr.PowersAgree (Formula.environment f.mode x y) ∧
      g.expr.PowersAgree (Formula.environment g.mode x y))
    (domain : Domain (Exact K)) (n : Resolution) (whole whole' : Bool) :
    OnRealLine (sample f domain n clip whole) (sample g domain n clip whole') := by
  have hxs : ∀ x ∈ (axes domain n).1, Tame x := tame_of_mem_axisSamples domain.x.lower_finite domain.x.upper_finite
  have hys : ∀ y ∈ (axes domain n).2, Tame y := tame_of_mem_axisSamples domain.y.lower_finite domain.y.upper_finite
  have hf' : f.AlikeOver (axes domain n).1 (axes domain n).2 :=
    Formula.alikeOver_of_powersAgree fun x hx y hy => (hpowers (hxs x hx) (hys y hy)).1
  have hg' : g.AlikeOver (axes domain n).1 (axes domain n).2 :=
    Formula.alikeOver_of_powersAgree fun x hx y hy => (hpowers (hxs x hx) (hys y hy)).2
  have hsame : ∀ x ∈ (axes domain n).1, ∀ y ∈ (axes domain n).2, Formula.SameOutcome
      (Formula.Value.realOutcome (value? f domain n whole x y))
      (Formula.Value.complexOutcome (value? g domain n whole' x y)) := fun x hx y hy => by
    rw [value?, value?, Formula.sweptValue?_eq (fun _ => hf') x hx y hy, Formula.sweptValue?_eq (fun _ => hg') x hx y hy]
    exact h (hxs x hx) (hys y hy)
  have hre : ∀ {r : Exact K} {z : Complex (Exact K)}, Formula.SameOutcome r z → z.re = r := fun h => by
    cases h <;> rfl
  rw [sample_of_real f domain n clip whole hf, sample_of_complex g domain n clip whole' hg]
  refine ⟨rfl, rfl, tabulate_congr fun x hx y hy => ?_, _, rfl, fun i j v hv => ?_⟩
  · rw [hre (hsame x hx y hy)]
  · obtain ⟨x, y, hx, hy, rfl⟩ := exists_of_cell?_tabulate hv
    have hxy := hsame x (List.mem_of_getElem? hx) y (List.mem_of_getElem? hy)
    refine ⟨_, cell?_tabulate _ hx hy, ?_⟩
    rw [hre hxy]
    exact sameOutcome_clipped clip hxy

end

end Grid

end

/-! ## Formulas -/

namespace Formula

/-- The outcome of the one formula on the real axis is that of the other over the plane. -/
def AgreeAt {K : Type} [Field K] [LinearOrder K] [FloorRing K] [OtherFunctions K] (f g : Formula) (x y : Exact K) : Prop :=
  ∃ v z, f.evaluateReal x y = .ok v ∧ g.evaluateComplex x y = .ok z ∧ SameOutcome v z

/-- Two formulas of `x` and `y`, the one on the real axis and the other over the plane, that agree in every point and
in every cell of their grids, whatever the domain, the resolution and the clip range, and however they are swept.
Arithmetic is exact. -/
structure AgreeOnRealLine (f g : Formula) : Prop where
  freeVariables_eq : f.freeVariables = g.freeVariables
  eq_x_or_y : ∀ v ∈ f.freeVariables, v = "x" ∨ v = "y"
  points : ∀ (K : Type) [Field K] [LinearOrder K] [IsStrictOrderedRing K] [FloorRing K] [OtherFunctions K] (x y : K),
    AgreeAt f g (.number x) (.number y)
  grids : ∀ (K : Type) [Field K] [LinearOrder K] [IsStrictOrderedRing K] [FloorRing K] [OtherFunctions K]
    (domain : Domain (Exact K)) (n : Resolution) (clip : Option (Clip (Exact K))) (whole whole' : Bool),
    Grid.OnRealLine (Grid.sample f domain n clip whole) (Grid.sample g domain n clip whole')

theorem x_mem_permitted (mode : Mode) : "x" ∈ mode.permitted := by
  cases mode <;> decide

theorem y_mem_permitted (mode : Mode) : "y" ∈ mode.permitted := by
  cases mode <;> decide

namespace Expr.RealFragment

variable {e : Expr} (h : e.RealFragment)
include h

theorem checked_eq (mode : Mode) : checked mode e = .ok e := by
  have hpermitted : e.freeVariables.all mode.permitted.contains = true := by
    refine List.all_eq_true.2 fun v hv => List.contains_iff_mem.2 ?_
    rcases h.names v (mem_freeVariables.1 hv) with rfl | rfl
    · exact x_mem_permitted mode
    · exact y_mem_permitted mode
  rw [Formula.checked_eq mode h.hasBare_eq, hpermitted, h.hasLeadingNaN_eq]
  rfl

/-- **In both modes an expression of the real line means the same.** -/
theorem agree (text text' : String) : AgreeOnRealLine ⟨text, .real, e⟩ ⟨text', .complex, e⟩ where
  freeVariables_eq := rfl
  eq_x_or_y v hv := h.names v (mem_freeVariables.1 hv)
  points _ _ _ _ _ _ x y :=
    ⟨_, _, if_pos rfl, if_pos rfl, sameOutcome_of_agree (h.eval_agrees (.number x) (.number y))⟩
  grids _ _ _ _ _ _ domain n clip whole whole' :=
    Grid.onRealLine_sample (f := ⟨text, .real, e⟩) (g := ⟨text', .complex, e⟩) clip rfl rfl
      (fun hx hy => sameOutcome_of_agree (h.eval_agrees hx hy)) h.powersAgree domain n whole whole'

/-- **A text that reads as an expression of the real line is accepted in both modes**, and they agree. -/
theorem parse_agree {latex : Bool} {raw s : String}
    (hside : rightHandSide (if latex then latexToPlain raw else raw) = .ok s)
    (hreads : ReadsAs (explicitProducts s).toList e) :
    ∃ f g : Formula, parse (.ok .real) latex raw = .ok f ∧ parse (.ok .complex) latex raw = .ok g ∧
      AgreeOnRealLine f g := by
  have hparse : ∀ mode, parse (.ok mode) latex raw = .ok ⟨explicitProducts s, mode, e⟩ := fun mode => by
    obtain ⟨u, hu, -⟩ := eq_trim_of_rightHandSide hside
    have htrim : trim (explicitProducts s).toList = (explicitProducts s).toList := by
      rw [explicitProducts, String.toList_ofList, hu, Juxtaposition.trim_explicit]
    rw [parse_eq_compile mode latex hside hreads.ne_nil, hreads.compile_eq mode htrim, h.checked_eq mode]
    rfl
  exact ⟨_, _, hparse .real, hparse .complex, h.agree _ _⟩

end Expr.RealFragment

end Formula

end Heightfield
