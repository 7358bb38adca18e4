import Heightfield.Formula.Phrase
import Heightfield.Formula.Expr
/-!
# From phrases to expressions

Names are looked up and calls are checked here.  Most phrases mean an expression; some
mean a truth value, a tuple or a function on its own, which is no expression but may still
stand where something asks only whether it holds.  `and`, `or` and the conditional keep one
of their operands and forget the others, so a variable that occurs only in a forgotten one
is no variable of the formula.
-/

namespace Heightfield.Formula

inductive Meaning where
  | expr (e : Expr)
  | truth (b : Bool)
  /-- A signed truth value. -/
  | count (n : Int)
  | nothing
  | ellipsis
  | tuple (items : List Meaning)
  | callee (name : String) (c : Callee)

namespace Meaning

/-- What a message calls something that is no expression. -/
def kind : Meaning → String
  | expr _ => "expression"
  | truth _ => "bool"
  | count _ => "int"
  | nothing => "NoneType"
  | ellipsis => "ellipsis"
  | tuple _ => "tuple"
  | callee _ c => kindOfCallee c

/-- Whether a condition holds; an expression does unless it is a written zero. -/
def holds : Meaning → Bool
  | expr e => !e.isZero
  | truth b => b
  | count n => n != 0
  | nothing => false
  | ellipsis => true
  | tuple items => !items.isEmpty
  | callee _ _ => true

/-! ## Operands -/

/-- Something without a value and its operands. -/
def undefined (name : String) (operands : List Expr) : Expr :=
  operands.foldl .applied (.undefined name)

mutual

/-- The operand of a call.  A truth value is zero or one, and a function is allowed there
so that it can be told from other mistakes. -/
def toOperand : Meaning → Option Expr
  | expr e => some e
  | truth b => some (.int b.toNat)
  | count n => some (.ofInt n)
  | tuple items => (toOperands items).map (undefined "tuple")
  | callee _ c => if c = .root then none else some .bare
  | nothing | ellipsis => none

def toOperands : List Meaning → Option (List Expr)
  | [] => some []
  | a :: as => (toOperand a).bind fun e => (toOperands as).map (e :: ·)

end

/-- A factor of a product, or a part of a power or a quotient. -/
def toFactor : Meaning → Option Expr
  | callee _ _ => none
  | a => toOperand a

/-- A term of a sum. -/
def toTerm : Meaning → Option Expr
  | expr e => some e
  | count n => some (.ofInt n)
  | _ => none

/-! ## Operators -/

def signed : Sign → Meaning → Option Meaning
  | .plus, expr e => some (expr e)
  | .minus, expr e => some (expr e.opposite)
  | .plus, truth b => some (count b.toNat)
  | .minus, truth b => some (count (-b.toNat))
  | .plus, count n => some (count n)
  | .minus, count n => some (count (-n))
  | _, _ => none

/-- The floor of a quotient.  Written integers are divided at once; no other written
number may stand on the left. -/
def quotient (a b : Expr) : Option Expr :=
  match a.literal?, b.literal? with
  | some p, some q => if q = 0 then none else some (.ofInt (p.fdiv q))
  | _, _ => if a.isNumber then none else some (.apply .floor (.binary .div a b))

def combined (op : Operator) (a b : Meaning) : Option Expr :=
  let pair (side : Meaning → Option Expr) (join : Expr → Expr → Option Expr) : Option Expr :=
    (side a).bind fun x => (side b).bind (join x)
  match op with
  | .add => pair toTerm fun x y => some (.binary .add x y)
  | .sub => pair toTerm fun x y => some (.binary .sub x y)
  | .mul => pair toFactor fun x y => some (.binary .mul x y)
  | .div => pair toFactor fun x y => some (.binary .div x y)
  | .pow => pair toFactor fun x y => some (.binary .pow x y)
  | .remainder => pair toTerm fun x y => some (.binary .mod x y)
  | .quotient => pair toTerm quotient

/-! ## Calls -/

/-- An integer that is not too long to be written in decimal. -/
def writable (n : Int) : Option Expr :=
  if n.natAbs < Binary64.tenTo Token.maxDigits then some (.ofInt n) else none

/-- A power that is formed at once where that is possible. -/
def powerNow (a b : Expr) : Option Expr :=
  match a.literal?, b.literal? with
  | _, some 0 => some (.int 1)
  | _, some 1 => some a
  | some n, some k =>
    if n = 1 then some (.int 1)
    else if k < 0 then some (.binary .pow a b)
    else if 1 < n.natAbs ∧ 4 * Token.maxDigits < k then none
    else writable (Int.pow n k.toNat)
  | _, _ => some (.binary .pow a b)

/-- The written number as a quotient, unless it is too long. -/
def fraction? : Expr → Option (Int × Nat)
  | .int n => some (n, 1)
  | .decimal d e =>
    if e.natAbs ≤ Token.maxDigits then
      some (if 0 ≤ e then (d * Binary64.tenTo e.toNat, 1) else (d, Binary64.tenTo (-e).toNat))
    else none
  | .neg a => (fraction? a).map fun (n, d) => (-n, d)
  | _ => none

/-- The written number as a decimal. -/
def decimalOf? : Expr → Option Expr
  | .int n => some (.decimal n 0)
  | .decimal d e => some (.decimal d e)
  | .neg a => (decimalOf? a).map .neg
  | _ => none

/-- The ratio of two integers in lowest terms. -/
def ratio (p q : Int) : Expr :=
  if q = 0 then .constant .nan
  else
    let g : Int := Int.gcd p q
    let g := if q < 0 then -g else g
    if q / g = 1 then .ofInt (p / g) else .binary .div (.ofInt (p / g)) (.ofInt (q / g))

/-- The operands without repetitions, joined from the left. -/
def joined (op : Operation) : List Expr → Option Expr
  | [] => none
  | a :: as => some (as.foldl (.binary op) a)

/-- What the greatest or least of no operands is. -/
def emptyExtremum (op : Operation) : Expr :=
  if op = .max then .neg (.constant .infinity) else .constant .infinity

/-- Whether something is a function that nobody defined, or a lenient one. -/
def isLenient : Meaning → Bool
  | callee _ (.lenient _) | callee _ (.lenientPair _) | callee _ (.undefined _) => true
  | _ => false

/-- The operands of a lenient function, which must not be lenient functions themselves. -/
def lenientOperands (as : List Meaning) : Option (List Expr) :=
  if as.any isLenient then none else toOperands as

/-- A call of a lenient function with a fitting number of operands, or with any other. -/
def applyLenient (name : String) (c : Callee) (operands : List Expr) : Expr :=
  match c, operands with
  | .lenient f, [x] => .apply f x
  | .lenientPair op, [x, y] => .binary op x y
  | _, xs => undefined name xs

/-- The meaning of a call. -/
def apply (name : String) (c : Callee) (operands : List Meaning) : Option Meaning :=
  match c, operands with
  | .function f, [a] => (toOperand a).map fun x => expr (.apply f x)
  | .lenient _, as | .lenientPair _, as | .undefined _, as =>
    (lenientOperands as).map fun xs => expr (applyLenient name c xs)
  | .logarithm, [a] => (toOperand a).map fun x => expr (.apply (.elementary .log) x)
  | .logarithm, [a, b] =>
    (toOperand a).bind fun x => (toOperand b).map fun y => expr (.binary .log x y)
  | .root, [a] => (toFactor a).map fun x => expr (.apply (.elementary .sqrt) x)
  | .power, [a, b] =>
    (toFactor a).bind fun x => (toFactor b).map fun y => expr (.binary .pow x y)
  | .power, [a, b, c] =>
    (toFactor a).bind fun x => (toFactor b).bind fun y =>
      (if c.holds then powerNow x y else some (.binary .pow x y)).map expr
  | .extremum _, [callee n k] => (toOperand (callee n k)).map fun _ => callee n k
  | .extremum op, as =>
    (toOperands as).map fun xs => expr ((joined op xs.eraseDups).getD (emptyExtremum op))
  | .chain op unit, as =>
    (as.mapM (if op = .add then toTerm else toFactor)).map fun xs =>
      expr ((joined op xs).getD (.int unit))
  | .integer, [a] => (toFactor a).bind fun x => (fraction? x).bind fun (n, d) =>
    (writable (n.tdiv d)).map expr
  | .decimal, [a] => (toFactor a).bind fun x => (decimalOf? x).map expr
  | .ratio, [a] => (toFactor a).bind fun x => (fraction? x).map fun (n, d) => expr (ratio n d)
  | .ratio, [a, b] => (toFactor a).bind fun x => (toFactor b).bind fun y =>
    (fraction? x).bind fun (n, d) => (fraction? y).map fun (p, q) => expr (ratio (n * q) (d * p))
  | .maker, [expr (.var s)] => some (callee s (.undefined s))
  | _, _ => none

/-! ## Looking up -/

def ofName (s : String) : Meaning :=
  match constant? s with
  | some (.inl c) => expr (.constant c)
  | some (.inr n) => expr (.int n)
  | none => match callee? s with
    | some c => callee s c
    | none => expr (.var s)

/-- The items of a tuple that is written with a star. -/
def spread : Meaning → Option (List Meaning)
  | tuple items => some items
  | _ => none

mutual

/-- The meaning of a phrase; none when it has a mistake. -/
def ofPhrase : Phrase → Option Meaning
  | .integer n => some (expr (.int n))
  | .decimal d e => some (expr (.decimal d e))
  | .name s => some (ofName s)
  | .undefined s => some (callee s (.undefined s))
  | .truth b => some (truth b)
  | .nothing => some nothing
  | .ellipsis => some ellipsis
  | .tuple items => (ofItems items).map tuple
  | .star _ => none
  | .sign s a => (ofPhrase a).bind (signed s)
  | .not a => (ofPhrase a).map fun m => truth (!m.holds)
  | .binary op a b =>
    (ofPhrase a).bind fun x => (ofPhrase b).bind fun y => (combined op x y).map expr
  | .and a b => (ofPhrase a).bind fun x => if x.holds then ofPhrase b else some x
  | .or a b => (ofPhrase a).bind fun x => if x.holds then some x else ofPhrase b
  | .conditional c a b => (ofPhrase c).bind fun x => if x.holds then ofPhrase a else ofPhrase b
  | .call f operands => (ofPhrase f).bind fun m => match m with
    | callee name c => (ofItems operands).bind (apply name c)
    | _ => none

def ofItems : List Phrase → Option (List Meaning)
  | [] => some []
  | .star a :: as =>
    (ofPhrase a).bind fun m => (spread m).bind fun ms => (ofItems as).map (ms ++ ·)
  | a :: as => (ofPhrase a).bind fun m => (ofItems as).map (m :: ·)

end

end Meaning

end Heightfield.Formula
