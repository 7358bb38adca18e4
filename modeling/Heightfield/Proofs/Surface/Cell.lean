import Heightfield.Surface.Lattice
/-!
# Values in the cells of a lattice

A formula that is evaluated over a whole lattice has in each cell the value that it has at the point of the cell, but for
one thing: where something that varies is raised to a power that does not, the exponent is shared by all cells, and the
power may be formed by a shorter rule.  `Expr.evalCell` says so for one cell.  It is the value at the point where the
shorter rules give the powers that they stand for (`Expr.PowersAgree`), and so everywhere if no exponent has a rule of its
own (`Expr.isPlain`).
-/
namespace Heightfield.Formula

variable {α : Type} [Analytic α]

namespace Value

/-- As an exponent that cells share, the value has a rule of its own. -/
def hasShortcut : Value α → Bool
  | int n | word n => n = 2 || n = -1
  | real _ y => Scalar.eq y half || Scalar.eq y (Scalar.ofInt 2) || Scalar.eq y (Scalar.ofInt (-1))
  | complex _ _ => false

theorem powShared_eq_pow {v exponent : Value α} (h : exponent.hasShortcut = false) :
    v.powShared exponent = v.pow exponent := by
  cases exponent with
  | int n | word n =>
    simp only [hasShortcut, Bool.or_eq_false_iff, decide_eq_false_iff_not] at h
    cases v <;> simp only [powShared, if_neg h.1, if_neg h.2]
  | real o y =>
    simp only [hasShortcut, Bool.or_eq_false_iff] at h
    cases v with
    | complex p z => cases o <;> simp only [powShared, h.1.1, Bool.false_eq_true, if_false]
    | _ => simp only [powShared, h.1.1, h.1.2, h.2, Bool.false_eq_true, if_false]
  | complex o z => cases v <;> rfl

end Value

/-! ## Expressions -/

namespace Expr

/-- Whether the expression has a variable, so that its cells may differ. -/
def varies (e : Expr) : Bool := !e.names.isEmpty

theorem varies_binary (op : Operation) (a b : Expr) : (binary op a b).varies = (a.varies || b.varies) := by
  rw [varies, names, varies, varies]
  cases a.names <;> rfl

/-- What an operation makes of the values of its two operands in one cell. -/
def operate (op : Operation) (a b : Expr) (v w : Value α) : Option (Value α) :=
  if op = .pow ∧ a.varies = true ∧ b.varies = false then v.powShared w else op.eval v w

/-- The value of an expression in one cell of a lattice that is evaluated as a whole. -/
def evalCell (env : Environment α) : Expr → Option (Value α)
  | int n => some (.int n)
  | decimal d e => some (.real .written (Scalar.ofDecimal d e))
  | constant c => some c.eval
  | var name => env name
  | neg a => (a.evalCell env).map Value.neg
  | apply f a => (a.evalCell env).bind f.eval
  | binary op a b => (a.evalCell env).bind fun v => (b.evalCell env).bind fun w => operate op a b v w
  | undefined _ | applied _ _ | bare => none

variable {env env' : Environment α} {e : Expr}

/-- An expression reads of its environment only the names of its variables. -/
theorem eval_congr (h : ∀ name ∈ e.names, env name = env' name) : e.eval env = e.eval env' := by
  induction e with
  | var name => exact h name (List.mem_singleton_self name)
  | neg a ih => rw [eval, eval, ih h]
  | apply f a ih => rw [eval, eval, ih h]
  | binary op a b iha ihb =>
    have ha : ∀ name ∈ a.names, env name = env' name := fun name hn => h name (List.mem_append_left _ hn)
    have hb : ∀ name ∈ b.names, env name = env' name := fun name hn => h name (List.mem_append_right _ hn)
    rw [eval, eval, iha ha, ihb hb]
  | _ => rfl

theorem evalCell_congr (h : ∀ name ∈ e.names, env name = env' name) : e.evalCell env = e.evalCell env' := by
  induction e with
  | var name => exact h name (List.mem_singleton_self name)
  | neg a ih => rw [evalCell, evalCell, ih h]
  | apply f a ih => rw [evalCell, evalCell, ih h]
  | binary op a b iha ihb =>
    have ha : ∀ name ∈ a.names, env name = env' name := fun name hn => h name (List.mem_append_left _ hn)
    have hb : ∀ name ∈ b.names, env name = env' name := fun name hn => h name (List.mem_append_right _ hn)
    rw [evalCell, evalCell, iha ha, ihb hb]
  | _ => rfl

/-! ## Powers that agree -/

/-- Wherever cells share an exponent, their power is the power of the values. -/
def PowersAgree (env : Environment α) : Expr → Prop
  | neg a | apply _ a => a.PowersAgree env
  | binary op a b => a.PowersAgree env ∧ b.PowersAgree env ∧ (op = .pow → a.varies = true → b.varies = false →
      ∀ v ∈ a.eval env, ∀ w ∈ b.eval env, v.powShared w = v.pow w)
  | _ => True

/-- **A cell holds the value at its point, if the powers agree there.** -/
theorem evalCell_of_powersAgree (h : e.PowersAgree env) : e.evalCell env = e.eval env := by
  induction e with
  | neg a ih => rw [evalCell, eval, ih h]
  | apply f a ih => rw [evalCell, eval, ih h]
  | binary op a b iha ihb =>
    obtain ⟨ha, hb, hpow⟩ := h
    rw [evalCell, eval, iha ha, ihb hb]
    refine Option.bind_congr fun v hv => Option.bind_congr fun w hw => ?_
    unfold operate
    split
    · rename_i hshared
      obtain ⟨rfl, hvaries, hfixed⟩ := hshared
      exact hpow rfl hvaries hfixed v hv w hw
    · rfl
  | _ => rfl

/-! ## Expressions without shortcuts -/

/-- No variables have values. -/
def noVariables : Environment α := fun _ => none

theorem eval_of_varies_eq_false (h : e.varies = false) (env : Environment α) : e.eval env = e.eval noVariables := by
  refine eval_congr fun name hname => ?_
  rw [varies, Bool.not_eq_false', List.isEmpty_iff] at h
  rw [h] at hname
  cases hname

/-- Whether no exponent that cells share has a rule of its own. -/
def isPlain (α : Type) [Analytic α] : Expr → Bool
  | neg a | apply _ a => a.isPlain α
  | binary op a b => a.isPlain α && b.isPlain α &&
      !(op = .pow && a.varies && !b.varies && (b.eval (noVariables : Environment α)).any Value.hasShortcut)
  | _ => true

theorem powersAgree_of_isPlain (h : e.isPlain α = true) (env : Environment α) : e.PowersAgree env := by
  induction e with
  | neg a ih => exact ih h
  | apply f a ih => exact ih h
  | binary op a b iha ihb =>
    rw [isPlain, Bool.and_eq_true, Bool.and_eq_true] at h
    obtain ⟨⟨ha, hb⟩, hplain⟩ := h
    refine ⟨iha ha, ihb hb, fun hop hvaries hfixed v _ w hw => Value.powShared_eq_pow ?_⟩
    rw [Option.mem_def, eval_of_varies_eq_false hfixed] at hw
    simpa [hop, hvaries, hfixed, hw] using hplain
  | _ => trivial

end Expr

/-- The value of a formula in the cell at `(x, y)`, where the lattice is evaluated as a whole. -/
def cellValue? (f : Formula) (x y : α) : Option (Value α) := f.expr.evalCell (environment f.mode x y)

theorem cellValue?_of_powersAgree {f : Formula} {x y : α} (h : f.expr.PowersAgree (environment f.mode x y)) :
    f.cellValue? x y = f.value? x y :=
  Expr.evalCell_of_powersAgree h

end Heightfield.Formula
