import Heightfield.Number.Double
import Heightfield.Proofs.Formula.Written
/-!
# Formulas mean what is written

The text of a tree is compiled to the expression of the tree (`Tree.compile_text_eq`), unless an integer is
too long or a product begins with what is not a number; and what the expression gives at a point is what the
tree gives there (`Tree.outcome_expr`).
-/
namespace Heightfield.Formula

namespace Tree

variable {mode : Mode}

theorem ofName_constant (k : ConstantName) : Meaning.ofName k.1 = .expr (constant k : Tree mode).expr := by
  have hconstant : constant? k.1 = some k.meaning := (Option.some_get _).symm
  rw [Meaning.ofName, hconstant, expr]
  cases k.meaning <;> rfl

/-- **A tree is written as its expression**, at every level. -/
theorem writtenAt (t : Tree mode) : WrittenAt t.lexemes t.expr := by
  induction t with
  | integer n => exact .integer n
  | decimal d => exact .decimal d
  | var v => exact .ofVariable v
  | constant k => exact .word k.mem_words (ofName_constant k)
  | neg a ih => exact ih.neg
  | binary s a b iha ihb => exact iha.binary s ihb
  | call f a ih => exact ih.unary f
  | group a ih => exact ih.group

/-! ## Checks -/

theorem hasBare_expr (t : Tree mode) : t.expr.hasBare = false := by
  induction t with
  | constant k => rw [expr]; cases k.meaning <;> rfl
  | neg a ih => rw [expr, Expr.hasBare_opposite, ih]
  | binary s a b iha ihb => rw [expr, Expr.hasBare, iha, ihb]; rfl
  | call f a ih => exact ih
  | group a ih => exact ih
  | _ => rfl

theorem mem_permitted_of_mem_names (t : Tree mode) : ∀ v ∈ t.expr.names, v ∈ mode.permitted := by
  induction t with
  | var v =>
    intro w hw
    rw [List.mem_singleton.1 hw]
    exact v.2
  | constant k => rw [expr]; cases k.meaning <;> exact nofun
  | neg a ih => rw [expr, Expr.names_opposite]; exact ih
  | binary s a b iha ihb =>
    intro v hv
    exact (List.mem_append.1 hv).elim (iha v) (ihb v)
  | call f a ih => exact ih
  | group a ih => exact ih
  | _ => exact nofun

theorem checked_expr (t : Tree mode) :
    checked mode t.expr = if t.expr.hasLeadingNaN false then .error .malformed else .ok t.expr := by
  have hpermitted : t.expr.freeVariables.all mode.permitted.contains = true := List.all_eq_true.2 fun v hv =>
    List.contains_iff_mem.2 (t.mem_permitted_of_mem_names v (Expr.mem_freeVariables.1 hv))
  rw [checked_eq mode t.hasBare_expr, hpermitted]
  rfl

/-! ## Compiling -/

/-- **The text of a tree is compiled to the tree's expression**, whatever blanks are around it and however powers
are written, just if it has no integer that is too long and no product that begins with what is not a number. -/
theorem compile_text_eq (t : Tree mode) (style : PowerStyle) {l r : List Char} (hl : ∀ c ∈ l, isBlank c = true)
    (hr : ∀ c ∈ r, isBlank c = true) :
    compile (.ok mode) (String.ofList (l ++ (t.text style ++ r))) =
      if t.isShort && !t.expr.hasLeadingNaN false then .ok ⟨String.ofList (t.text style), mode, t.expr⟩
      else .error .malformed := by
  rw [text, t.writtenAt.written.compile_eq mode style hl hr, t.all_isShort_lexemes, checked_expr]
  cases t.isShort <;> cases t.expr.hasLeadingNaN false <;> rfl

theorem expr_ungrouped (t : Tree mode) : t.ungrouped.expr = t.expr := by
  induction t with
  | neg a ih => rw [ungrouped, expr, ih, expr]
  | binary s a b iha ihb => rw [ungrouped, expr, iha, ihb, expr]
  | call f a ih => rw [ungrouped, expr, ih, expr]
  | group a ih => exact ih
  | _ => rfl

/-! ## Values -/

section
variable {α : Type} [Analytic α] (env : Environment α)

theorem eq_decimal_of_opposite {a : Expr} {e : Int} (h : a.opposite = .decimal 0 e) : a = .decimal 0 e := by
  unfold Expr.opposite at h
  split at h
  · exact h
  · cases h

theorem isDecimalZero_of_expr {e : Int} (t : Tree mode) : t.expr = .decimal 0 e → t.isDecimalZero = true := by
  induction t with
  | decimal d =>
    intro h
    rw [isDecimalZero, (Expr.decimal.inj h).1]
    rfl
  | constant k =>
    rw [expr]
    cases k.meaning <;> exact nofun
  | neg a ih =>
    exact fun h => ih (eq_decimal_of_opposite h)
  | group a ih => exact ih
  | _ => exact nofun

/-- **The expression of a tree has the value of the tree**, if no minus sign stands before a zero with a point. -/
theorem eval_expr (t : Tree mode) (h : t.negatesZero = false) : t.expr.eval env = t.value? env := by
  induction t with
  | constant k => rw [expr, value?]; cases k.meaning <;> rfl
  | neg a ih =>
    rw [negatesZero, Bool.or_eq_false_iff] at h
    have hopposite : a.expr.opposite = .neg a.expr := by
      unfold Expr.opposite
      split
      · rename_i heq
        have hzero := a.isDecimalZero_of_expr heq
        rw [h.1] at hzero
        cases hzero
      · rfl
    rw [expr, hopposite, Expr.eval, ih h.2, value?]
  | binary s a b iha ihb =>
    rw [negatesZero, Bool.or_eq_false_iff] at h
    rw [expr, Expr.eval, iha h.1, ihb h.2, value?]
  | call f a ih => rw [expr, Expr.eval, ih h, value?]
  | group a ih => exact ih h
  | _ => rfl

theorem outcome_expr (t : Tree mode) (h : t.negatesZero = false) (text : String) (x y : α) :
    (⟨text, mode, t.expr⟩ : Formula).outcome x y = t.outcome x y := by
  have hvalue : (⟨text, mode, t.expr⟩ : Formula).value? x y = t.value? (environment mode x y) := eval_expr _ t h
  unfold Formula.outcome outcome
  rw [hvalue]
  cases mode <;> rfl

end

/-! ## The round trip -/

/-- **A formula means what is written.**  However powers are written, with parentheses and blanks around it or
without, its text is compiled to one expression, which gives at every point what the formula gives from the leaves
up.  This asks for integers that the reader takes and products that do not begin with what is not a number; and a
zero with a point must have no minus sign. -/
theorem compile_text (t : Tree mode) (hshort : t.isShort = true) (hnan : t.expr.hasLeadingNaN false = false) :
    (∀ (style : PowerStyle) (l r : List Char), (∀ c ∈ l, isBlank c = true) → (∀ c ∈ r, isBlank c = true) →
      compile (.ok mode) (String.ofList (l ++ (t.text style ++ r))) =
        .ok ⟨String.ofList (t.text style), mode, t.ungrouped.expr⟩) ∧
    (t.negatesZero = false → ∀ {α : Type} [Analytic α] (text : String) (x y : α),
      (⟨text, mode, t.ungrouped.expr⟩ : Formula).outcome x y = t.outcome x y) := by
  rw [t.expr_ungrouped]
  refine ⟨fun style l r hl hr => ?_, fun hzero _ _ text x y => t.outcome_expr hzero text x y⟩
  rw [t.compile_text_eq style hl hr, hshort, hnan]
  rfl

/-- Minus the square of `x`, times the sine of `y` in parentheses. -/
def wave : Tree .real :=
  .binary .mul (.neg (.binary .pow (.var ⟨"x", by decide⟩) (.integer ⟨['2'], by decide, by decide, by decide⟩)))
    (.call ⟨"sin", by decide⟩ (.group (.var ⟨"y", by decide⟩)))

theorem compile_text_wave : wave.isShort = true ∧ wave.expr.hasLeadingNaN false = false ∧ wave.negatesZero = false ∧
    compile (.ok .real) " -x**2*sin((y))" = .ok ⟨"-x**2*sin((y))", .real, wave.ungrouped.expr⟩ ∧
    ∀ x y : Float, (⟨"-x**2*sin((y))", .real, wave.ungrouped.expr⟩ : Formula).outcome x y = wave.outcome x y :=
  ⟨by decide, by decide, by decide,
    (compile_text wave (by decide) (by decide)).1 .stars [' '] [] (by decide) (by decide),
    (compile_text wave (by decide) (by decide)).2 (by decide) _⟩

/-- What is not a number as the first factor of a product. -/
def leadingNaN : Tree .real := .binary .mul (.constant ⟨"NaN", by decide⟩) (.var ⟨"x", by decide⟩)

/-- **A product that begins with what is not a number is refused**, though it is written like any other. -/
theorem compile_leadingNaN : compile (.ok .real) "NaN*x" = .error .malformed :=
  compile_text_eq leadingNaN .caret (l := []) (r := []) (by decide) (by decide)

end Tree

end Heightfield.Formula
