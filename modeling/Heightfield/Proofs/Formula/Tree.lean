import Heightfield.Formula.Evaluate
/-!
# Formulas as they are written

A `Tree` is an infix formula with its parentheses left out, or put in where none is needed.  `Tree.text` writes
it with the parentheses that the grammar asks for, `Tree.value?` is its value from the leaves up, and `Tree.expr`
the expression it should be compiled to.
-/
namespace Heightfield.Formula

/-! ## Leaves -/

/-- An integer in decimal, without leading zeros unless it is zero. -/
structure IntegerLiteral where
  digits : List Char
  ne_nil : digits ≠ []
  isDigit_of_mem : ∀ c ∈ digits, isDigit c = true
  no_leading_zero : digits.head? = some '0' → Reading.digitsValue digits = 0

namespace IntegerLiteral

def value (n : IntegerLiteral) : Nat := Reading.digitsValue n.digits

/-- The reader takes integers up to a fixed length. -/
def isShort (n : IntegerLiteral) : Bool := n.digits.length ≤ Token.maxDigits

end IntegerLiteral

/-- Digits with a point among them, before or behind them. -/
structure DecimalLiteral where
  whole : List Char
  fraction : List Char
  ne_nil : whole ≠ [] ∨ fraction ≠ []
  isDigit_of_mem : ∀ c ∈ whole ++ fraction, isDigit c = true

namespace DecimalLiteral

/-- The digits read as an integer. -/
def digits (d : DecimalLiteral) : Nat := Reading.digitsValue (d.whole ++ d.fraction)

/-- The power of ten that the digits count. -/
def exponent (d : DecimalLiteral) : Int := -d.fraction.length

def text (d : DecimalLiteral) : List Char := d.whole ++ '.' :: d.fraction

end DecimalLiteral

/-- The function that a callee is of one operand. -/
def Callee.unary? : Callee → Option Function
  | .function f | .lenient f => some f
  | .logarithm => some (.elementary .log)
  | .root => some (.elementary .sqrt)
  | _ => none

/-- A function of the vocabulary that takes one operand. -/
abbrev UnaryName := { f : String // f ∈ functionNames ∧ ((callee? f).bind Callee.unary?).isSome = true }

def UnaryName.name (f : UnaryName) : FunctionName := ⟨f.1, f.2.1⟩

def UnaryName.function (f : UnaryName) : Function := ((callee? f.1).bind Callee.unary?).get f.2.2

abbrev ConstantName := { k : String // k ∈ constantNames }

theorem constant?_isSome : ∀ k ∈ constantNames, (constant? k).isSome = true := by decide

/-- A constant proper, or a truth value as a number. -/
def ConstantName.meaning (k : ConstantName) : Sum Constant Nat := (constant? k.1).get (constant?_isSome k.1 k.2)

abbrev Variable (mode : Mode) := { v : String // v ∈ mode.permitted }

/-- The names that stand alone: constants and variables. -/
def words : List String := constantNames ++ Mode.complex.permitted

theorem Variable.mem_words {mode : Mode} (v : Variable mode) : v.1 ∈ words := by
  have h : ∀ mode : Mode, ∀ v ∈ mode.permitted, v ∈ words := by rintro (_ | _) <;> decide
  exact h mode v.1 v.2

theorem ConstantName.mem_words (k : ConstantName) : k.1 ∈ words := List.mem_append_left _ k.2

/-! ## Operators -/

inductive ArithmeticSign where
  | add | sub | mul | div | pow
  deriving DecidableEq, Repr

inductive PowerStyle where
  | caret | stars
  deriving DecidableEq, Repr

/-- A minus sign binds tighter than a product and looser than a power. -/
def minusLevel : Nat := 7

/-- The level of what needs no parentheses anywhere. -/
def atomLevel : Nat := 9

namespace ArithmeticSign

def text (style : PowerStyle) : ArithmeticSign → List Char
  | add => ['+']
  | sub => ['-']
  | mul => ['*']
  | div => ['/']
  | pow => match style with
    | .caret => ['^']
    | .stars => ['*', '*']

def mark : ArithmeticSign → Mark
  | add => .plus
  | sub => .minus
  | mul => .times
  | div => .over
  | pow => .power

def operator : ArithmeticSign → Operator
  | add => .add
  | sub => .sub
  | mul => .mul
  | div => .div
  | pow => .pow

def operation : ArithmeticSign → Operation
  | add => .add
  | sub => .sub
  | mul => .mul
  | div => .div
  | pow => .pow

def level : ArithmeticSign → Nat
  | add | sub => Phrase.sumLevel
  | mul | div => Phrase.productLevel
  | pow => Phrase.powerLevel

/-- The level of the left operand: a power groups to the right, the others to the left. -/
def leftLevel : ArithmeticSign → Nat
  | add | sub => Phrase.sumLevel
  | mul | div => Phrase.productLevel
  | pow => atomLevel

/-- The level of the right operand.  An exponent may have a minus sign. -/
def rightLevel : ArithmeticSign → Nat
  | add | sub => Phrase.productLevel
  | mul | div | pow => minusLevel

end ArithmeticSign

/-! ## Lexemes -/

inductive Lexeme where
  | integer (n : IntegerLiteral)
  | decimal (d : DecimalLiteral)
  /-- A variable or a constant. -/
  | word (s : { s : String // s ∈ words })
  /-- A function with its parenthesis. -/
  | call (f : FunctionName)
  | opening
  | closing
  | comma
  /-- A minus sign before its operand. -/
  | minus
  | sign (s : ArithmeticSign)

namespace Lexeme

def text (style : PowerStyle) : Lexeme → List Char
  | integer n => n.digits
  | decimal d => d.text
  | word s => s.1.toList
  | call f => f.1.toList ++ ['(']
  | opening => ['(']
  | closing => [')']
  | comma => [',']
  | minus => ['-']
  | sign s => s.text style

def tokens : Lexeme → List Token
  | integer n => [.integer n.value]
  | decimal d => [.decimal d.digits d.exponent]
  | word s => [.name s.1]
  | call f => [.name f.1, .mark .opening]
  | opening => [.mark .opening]
  | closing => [.mark .closing]
  | comma => [.mark .comma]
  | minus => [.mark .minus]
  | sign s => [.mark s.mark]

/-- The reader takes the lexeme: it is not too long an integer. -/
def isShort : Lexeme → Bool
  | integer n => n.isShort
  | _ => true

def begins : Lexeme → Bool
  | closing | comma | sign _ => false
  | _ => true

def ends : Lexeme → Bool
  | integer _ | decimal _ | word _ | closing => true
  | _ => false

/-- The lexemes can stand where an operand is expected, or where one has just ended. -/
def Placed : (expected : Bool) → List Lexeme → Prop
  | expected, [] => expected = false
  | expected, x :: xs => x.begins = expected ∧ Placed (!x.ends) xs

end Lexeme

open Lexeme (Placed)

/-! ## Trees -/

/-- A formula for a mode, as it is written but for the parentheses that it needs. -/
inductive Tree (mode : Mode) where
  | integer (n : IntegerLiteral)
  | decimal (d : DecimalLiteral)
  | var (v : Variable mode)
  | constant (k : ConstantName)
  | neg (a : Tree mode)
  | binary (s : ArithmeticSign) (a b : Tree mode)
  | call (f : UnaryName) (a : Tree mode)
  /-- A formula in parentheses of its own. -/
  | group (a : Tree mode)

/-- Lexemes of level `own` where `level` is asked for: in parentheses if they bind too loosely. -/
def enclosed (own level : Nat) (xs : List Lexeme) : List Lexeme :=
  if own < level then .opening :: (xs ++ [.closing]) else xs

namespace Tree

variable {mode : Mode}

def lexemes : Tree mode → (level : Nat) → List Lexeme
  | integer n, _ => [.integer n]
  | decimal d, _ => [.decimal d]
  | var v, _ => [.word ⟨v.1, v.mem_words⟩]
  | constant k, _ => [.word ⟨k.1, k.mem_words⟩]
  | neg a, level => enclosed minusLevel level (.minus :: a.lexemes minusLevel)
  | binary s a b, level => enclosed s.level level (a.lexemes s.leftLevel ++ .sign s :: b.lexemes s.rightLevel)
  | call f a, _ => .call f.name :: (a.lexemes Phrase.sumLevel ++ [.closing])
  | group a, _ => .opening :: (a.lexemes Phrase.sumLevel ++ [.closing])

def text (style : PowerStyle) (t : Tree mode) : List Char := (t.lexemes Phrase.sumLevel).flatMap (Lexeme.text style)

/-- Whether the reader takes every integer of the formula. -/
def isShort : Tree mode → Bool
  | integer n => n.isShort
  | decimal _ | var _ | constant _ => true
  | neg a | call _ a | group a => a.isShort
  | binary _ a b => a.isShort && b.isShort

theorem all_enclosed {own level : Nat} (xs : List Lexeme) :
    (enclosed own level xs).all Lexeme.isShort = xs.all Lexeme.isShort := by
  unfold enclosed
  split
  · simp [Lexeme.isShort]
  · rfl

theorem all_isShort_lexemes (t : Tree mode) : ∀ level, (t.lexemes level).all Lexeme.isShort = t.isShort := by
  induction t with
  | neg a ih => intro level; rw [lexemes, all_enclosed]; simp [Lexeme.isShort, isShort, ih]
  | binary s a b iha ihb => intro level; rw [lexemes, all_enclosed]; simp [Lexeme.isShort, isShort, iha, ihb]
  | _ => intro level; simp_all [lexemes, Lexeme.isShort, isShort]

/-- The formula without the parentheses it does not need. -/
def ungrouped : Tree mode → Tree mode
  | neg a => neg a.ungrouped
  | binary s a b => binary s a.ungrouped b.ungrouped
  | call f a => call f a.ungrouped
  | group a => a.ungrouped
  | t => t

/-- The expression that the formula is compiled to. -/
def expr : Tree mode → Expr
  | integer n => .int n.value
  | decimal d => .decimal d.digits d.exponent
  | var v => .var v.1
  | constant k => match k.meaning with
    | .inl c => .constant c
    | .inr n => .int n
  | neg a => a.expr.opposite
  | binary s a b => .binary s.operation a.expr b.expr
  | call f a => .apply f.function a.expr
  | group a => a.expr

/-! ## Values -/

/-- The value of the formula from the leaves up, or none where a step of it fails. -/
def value? {α : Type} [Analytic α] (env : Environment α) : Tree mode → Option (Value α)
  | integer n => some (.int n.value)
  | decimal d => some (.real .written (Scalar.ofDecimal d.digits d.exponent))
  | var v => env v.1
  | constant k => match k.meaning with
    | .inl c => some c.eval
    | .inr n => some (.int n)
  | neg a => (a.value? env).map Value.neg
  | binary s a b => (a.value? env).bind fun v => (b.value? env).bind fun w => s.operation.eval v w
  | call f a => (a.value? env).bind f.function.eval
  | group a => a.value? env

/-- What the formula gives at a point: its value there, classified by the mode. -/
def outcome {α : Type} [Analytic α] (t : Tree mode) (x y : α) : Outcome α :=
  match mode with
  | .real => .height (Value.realOutcome (t.value? (environment mode x y)))
  | .complex => .number (Value.complexOutcome (t.value? (environment mode x y)))

/-- Whether the formula is a zero with a point, whatever minus signs and parentheses are around it. -/
def isDecimalZero : Tree mode → Bool
  | decimal d => d.digits == 0
  | neg a | group a => a.isDecimalZero
  | _ => false

/-- Whether a minus sign stands before a zero with a point.  Such a zero keeps no sign. -/
def negatesZero : Tree mode → Bool
  | neg a => a.isDecimalZero || a.negatesZero
  | binary _ a b => a.negatesZero || b.negatesZero
  | call _ a | group a => a.negatesZero
  | _ => false

end Tree

end Heightfield.Formula
