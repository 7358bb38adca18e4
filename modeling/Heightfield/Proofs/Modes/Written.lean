import Heightfield.Proofs.Formula.Written
import Heightfield.Proofs.Modes.Agreement
/-!
# Formulas of the real line, as they are written

From `x`, `y` and numbers, formulas of the real line are written with sums, differences, products, minus signs, small
powers and calls of the functions that are real there (`AxisTree`).  The text of such a formula is read as an expression
of the real line in both modes, so it is accepted in both, with the same variables and outcomes (`modes_agree`).  The one
thing in it that the reader can refuse is an integer that is too long.
-/
namespace Heightfield.Formula

/-! ## Names -/

/-- A sign that keeps to the real line and is always known exactly. -/
abbrev AxisSign := { s : ArithmeticSign // s ∈ [.add, .sub, .mul] }

/-- A small exponent. -/
abbrev AxisExponent := { n : IntegerLiteral // n.value < 100 }

inductive AxisFunction where
  | abs | floor | ceil | round
  deriving DecidableEq, Repr

/-- A function of two operands. -/
inductive AxisPair where
  | mod | gcd | lcm
  deriving DecidableEq, Repr

/-- A function of one operand or more. -/
inductive AxisExtremum where
  | min | max
  deriving DecidableEq, Repr

theorem AxisSign.operation_mem (s : AxisSign) : s.1.operation ∈ Expr.axisOperations :=
  (by decide : ∀ s ∈ [ArithmeticSign.add, .sub, .mul], s.operation ∈ Expr.axisOperations) s.1 s.2

namespace AxisFunction

def name : AxisFunction → UnaryName
  | abs => ⟨"abs", by decide⟩
  | floor => ⟨"floor", by decide⟩
  | ceil => ⟨"ceil", by decide⟩
  | round => ⟨"round", by decide⟩

theorem function_mem (f : AxisFunction) : f.name.function ∈ Expr.axisFunctions := by
  cases f <;> decide

end AxisFunction

namespace AxisPair

def name : AxisPair → FunctionName
  | mod => ⟨"mod", by decide⟩
  | gcd => ⟨"gcd", by decide⟩
  | lcm => ⟨"lcm", by decide⟩

def operation : AxisPair → Operation
  | mod => .mod
  | gcd => .gcd
  | lcm => .lcm

theorem callee?_name (f : AxisPair) : callee? f.name.1 = some (.lenientPair f.operation) := by
  cases f <;> decide

theorem operation_mem (f : AxisPair) : f.operation ∈ Expr.axisOperations := by
  cases f <;> decide

end AxisPair

namespace AxisExtremum

def name : AxisExtremum → FunctionName
  | min => ⟨"min", by decide⟩
  | max => ⟨"max", by decide⟩

def operation : AxisExtremum → Operation
  | min => .min
  | max => .max

theorem callee?_name (f : AxisExtremum) : callee? f.name.1 = some (.extremum f.operation) := by
  cases f <;> decide

theorem operation_mem (f : AxisExtremum) : f.operation ∈ Expr.axisOperations := by
  cases f <;> decide

end AxisExtremum

/-! ## Formulas -/

mutual

/-- A formula of the real line, as it is written but for the parentheses that it needs. -/
inductive AxisTree where
  | integer (n : IntegerLiteral)
  | decimal (d : DecimalLiteral)
  | var (v : Variable .real)
  | neg (a : AxisTree)
  | binary (s : AxisSign) (a b : AxisTree)
  | power (a : AxisTree) (n : AxisExponent)
  | call (f : AxisFunction) (a : AxisTree)
  | pair (f : AxisPair) (a b : AxisTree)
  | extremum (f : AxisExtremum) (as : AxisOperands)
  /-- A formula in parentheses of its own. -/
  | group (a : AxisTree)

/-- One operand or more. -/
inductive AxisOperands where
  | last (a : AxisTree)
  | more (a : AxisTree) (as : AxisOperands)

end

mutual

def AxisTree.lexemes : AxisTree → (level : Nat) → List Lexeme
  | .integer n, _ => [.integer n]
  | .decimal d, _ => [.decimal d]
  | .var v, _ => [.word ⟨v.1, v.mem_words⟩]
  | .neg a, level => enclosed minusLevel level (.minus :: a.lexemes minusLevel)
  | .binary s a b, level =>
    enclosed s.1.level level (a.lexemes s.1.leftLevel ++ .sign s.1 :: b.lexemes s.1.rightLevel)
  | .power a n, level =>
    enclosed Phrase.powerLevel level (a.lexemes ArithmeticSign.pow.leftLevel ++ [.sign .pow, .integer n.1])
  | .call f a, _ => .call f.name.name :: (a.lexemes Phrase.sumLevel ++ [.closing])
  | .pair f a b, _ => .call f.name :: (a.lexemes Phrase.sumLevel ++ .comma :: b.lexemes Phrase.sumLevel ++ [.closing])
  | .extremum f as, _ => .call f.name :: (as.lexemes ++ [.closing])
  | .group a, _ => .opening :: (a.lexemes Phrase.sumLevel ++ [.closing])

def AxisOperands.lexemes : AxisOperands → List Lexeme
  | .last a => a.lexemes Phrase.sumLevel
  | .more a as => a.lexemes Phrase.sumLevel ++ .comma :: as.lexemes

end

mutual

/-- The expression that the formula is compiled to. -/
def AxisTree.expr : AxisTree → Expr
  | .integer n => .int n.value
  | .decimal d => .decimal d.digits d.exponent
  | .var v => .var v.1
  | .neg a => a.expr.opposite
  | .binary s a b => .binary s.1.operation a.expr b.expr
  | .power a n => .binary .pow a.expr (.int n.1.value)
  | .call f a => .apply f.name.function a.expr
  | .pair f a b => .binary f.operation a.expr b.expr
  | .extremum f as => (Meaning.joined f.operation as.exprs.eraseDups).getD (Meaning.emptyExtremum f.operation)
  | .group a => a.expr

def AxisOperands.exprs : AxisOperands → List Expr
  | .last a => [a.expr]
  | .more a as => a.expr :: as.exprs

end

theorem AxisOperands.exprs_ne_nil (as : AxisOperands) : as.exprs ≠ [] := by
  cases as <;> exact List.cons_ne_nil _ _

/-! ## Reading -/

theorem Meaning.toOperands_map_expr : ∀ es : List Expr, toOperands (es.map expr) = some es
  | [] => rfl
  | e :: es => by rw [List.map_cons, toOperands, toOperands_map_expr es]; rfl

theorem Meaning.apply_extremum (name : String) (op : Operation) (es : List Expr) :
    apply name (.extremum op) (es.map expr) = some (.expr ((joined op es.eraseDups).getD (emptyExtremum op))) := by
  have happly : apply name (.extremum op) (es.map expr) = (toOperands (es.map expr)).map fun xs =>
      .expr ((joined op xs.eraseDups).getD (emptyExtremum op)) := by
    match es with
    | [] => rfl
    | [_] => rfl
    | _ :: _ :: _ => rfl
  rw [happly, toOperands_map_expr]
  rfl

mutual

/-- **A formula of the real line is written as its expression.** -/
theorem AxisTree.writtenAt : ∀ t : AxisTree, WrittenAt t.lexemes t.expr
  | .integer n => .integer n
  | .decimal d => .decimal d
  | .var v => .ofVariable v
  | .neg a => a.writtenAt.neg
  | .binary s a b => a.writtenAt.binary s.1 b.writtenAt
  | .power a n => a.writtenAt.binary .pow (.integer n.1)
  | .call f a => a.writtenAt.unary f.name
  | .pair f a b => .call f.name f.callee?_name (a.writtenAt.more b.writtenAt.last) rfl
  | .extremum f as => .call f.name f.callee?_name as.written (Meaning.apply_extremum _ _ _)
  | .group a => a.writtenAt.group

theorem AxisOperands.written : ∀ as : AxisOperands, WrittenOperands as.lexemes as.exprs
  | .last a => a.writtenAt.last
  | .more a as => a.writtenAt.more as.written

end

/-! ## The real line -/

namespace Expr.RealFragment

theorem opposite {e : Expr} (h : e.RealFragment) : e.opposite.RealFragment := by
  unfold Expr.opposite
  split
  · exact .decimal 0 _
  · exact h.neg

theorem foldl {op : Operation} (hop : op ∈ axisOperations) : ∀ (es : List Expr) {a : Expr}, a.RealFragment →
    (∀ e ∈ es, e.RealFragment) → (es.foldl (.binary op) a).RealFragment
  | [], _, ha, _ => ha
  | e :: es, _, ha, hes =>
    foldl hop es (.binary hop ha (hes e List.mem_cons_self)) fun e' he => hes e' (List.mem_cons_of_mem e he)

theorem joined {op : Operation} (hop : op ∈ axisOperations) {es : List Expr} (hne : es ≠ [])
    (hes : ∀ e ∈ es, e.RealFragment) (d : Expr) : ((Meaning.joined op es).getD d).RealFragment := by
  obtain ⟨a, as, rfl⟩ := List.exists_cons_of_ne_nil hne
  exact foldl hop as (hes a List.mem_cons_self) fun e he => hes e (List.mem_cons_of_mem a he)

end Expr.RealFragment

mutual

theorem AxisTree.realFragment : ∀ t : AxisTree, t.expr.RealFragment
  | .integer n => .int n.value
  | .decimal d => .decimal d.digits d.exponent
  | .var v => by
    rcases List.mem_pair.1 v.2 with hv | hv
    · rw [AxisTree.expr, hv]
      exact .x
    · rw [AxisTree.expr, hv]
      exact .y
  | .neg a => a.realFragment.opposite
  | .binary s a b => .binary s.operation_mem a.realFragment b.realFragment
  | .power a n => .pow n.2 a.realFragment
  | .call f a => .apply f.function_mem a.realFragment
  | .pair f a b => .binary f.operation_mem a.realFragment b.realFragment
  | .extremum f as => by
    have hne : as.exprs.eraseDups ≠ [] := by
      obtain ⟨e, he⟩ := List.exists_mem_of_ne_nil _ as.exprs_ne_nil
      exact List.ne_nil_of_mem (List.mem_eraseDups.2 he)
    exact .joined f.operation_mem hne (fun e he => as.realFragment e (List.mem_eraseDups.1 he)) _
  | .group a => a.realFragment

theorem AxisOperands.realFragment : ∀ as : AxisOperands, ∀ e ∈ as.exprs, e.RealFragment
  | .last a => fun _ he => List.mem_singleton.1 he ▸ a.realFragment
  | .more a as => fun e he => (List.mem_cons.1 he).elim (fun h => h ▸ a.realFragment) (as.realFragment e)

end

/-! ## Agreement -/

namespace AxisTree

def text (style : PowerStyle) (t : AxisTree) : List Char := (t.lexemes Phrase.sumLevel).flatMap (Lexeme.text style)

/-- The reader takes every integer of the formula. -/
def isShort (t : AxisTree) : Bool := (t.lexemes Phrase.sumLevel).all Lexeme.isShort

/-- What the text of the formula is compiled to. -/
def formula (t : AxisTree) (style : PowerStyle) (mode : Mode) : Formula := ⟨String.ofList (t.text style), mode, t.expr⟩

section
variable (t : AxisTree) (mode : Mode) (style : PowerStyle) {l r : List Char} (hl : ∀ c ∈ l, isBlank c = true)
  (hr : ∀ c ∈ r, isBlank c = true)
include hl hr

/-- The text is compiled in every mode, unless it has too long an integer. -/
theorem compile_eq : compile (.ok mode) (String.ofList (l ++ (t.text style ++ r))) =
    if t.isShort then .ok (t.formula style mode) else .error .malformed := by
  rw [text, t.writtenAt.written.compile_eq mode style hl hr, t.realFragment.checked_eq mode]
  rfl

theorem parse_eq : parse (.ok mode) false (String.ofList (l ++ (t.text style ++ r))) =
    if t.isShort then .ok (t.formula style mode) else .error .malformed :=
  (t.writtenAt.written.parse_eq mode style hl hr).trans (t.compile_eq mode style hl hr)

end

end AxisTree

end Heightfield.Formula
