import Heightfield.Formula.Token
/-!
# Phrases

A phrase is what the tokens say before any meaning is looked up: names are names, and a
call may call anything.  From loose to tight the levels of the grammar are the
conditional, `or`, `and`, `not`, sums, products, signs, powers and calls.  Sums and
products group to the left, powers to the right; a sign reaches over a power on its right
and not over one on its left.

The functions below read one phrase of a given level at the beginning of a list of tokens
and return the tokens behind it.  Every call spends one unit of fuel.
-/

namespace Heightfield.Formula

inductive Sign where
  | plus | minus
  deriving DecidableEq, Repr

inductive Operator where
  | add | sub | mul | div | quotient | remainder | pow
  deriving DecidableEq, Repr

inductive Phrase where
  | integer (n : Nat)
  | decimal (digits : Nat) (exponent : Int)
  | name (s : String)
  | undefined (s : String)
  | truth (b : Bool)
  | nothing
  | ellipsis
  | tuple (items : List Phrase)
  /-- The items of a tuple in the place of one item. -/
  | star (a : Phrase)
  | sign (s : Sign) (a : Phrase)
  | not (a : Phrase)
  | binary (op : Operator) (a b : Phrase)
  | and (a b : Phrase)
  | or (a b : Phrase)
  /-- The second phrase if the first holds, else the third. -/
  | conditional (condition a b : Phrase)
  | call (callee : Phrase) (operands : List Phrase)
  deriving Repr

namespace Phrase

/-! ## Levels -/

def conditionalLevel : Nat := 1
def orLevel : Nat := 2
def andLevel : Nat := 3
def notLevel : Nat := 4
def sumLevel : Nat := 5
def productLevel : Nat := 6
def powerLevel : Nat := 8

/-- The operator of a mark, its level, and the level of its right operand. -/
def operator? : Mark → Option (Operator × Nat × Nat)
  | .plus => some (.add, sumLevel, sumLevel + 1)
  | .minus => some (.sub, sumLevel, sumLevel + 1)
  | .times => some (.mul, productLevel, productLevel + 1)
  | .over => some (.div, productLevel, productLevel + 1)
  | .quotient => some (.quotient, productLevel, productLevel + 1)
  | .remainder => some (.remainder, productLevel, productLevel + 1)
  | .power => some (.pow, powerLevel, powerLevel)
  | _ => none

/-- Whether a phrase stands for the items of a tuple. -/
def isStar : Phrase → Bool
  | star _ => true
  | _ => false

/-- The phrase of a word, unless it is a word of the grammar. -/
def ofWord (s : String) : Option Phrase :=
  if s = "True" then some (truth true)
  else if s = "False" then some (truth false)
  else if s = "None" then some nothing
  else if isKeyword s then none
  else some (name s)

/-! ## Reading -/

mutual

/-- A phrase of at least the given level. -/
def expression : (fuel level : Nat) → List Token → Option (Phrase × List Token)
  | 0, _, _ => none
  | fuel + 1, level, ts =>
    (operand fuel level ts).bind fun (a, ts) => following fuel level a ts

/-- A phrase without the operators that may follow it. -/
def operand : (fuel level : Nat) → List Token → Option (Phrase × List Token)
  | 0, _, _ => none
  | fuel + 1, level, t :: ts =>
    match t with
    | .integer n => some (integer n, ts)
    | .decimal d e => some (decimal d e, ts)
    | .undefined s => some (undefined s, ts)
    | .name "not" =>
      if notLevel < level then none
      else (expression fuel notLevel ts).map fun (a, ts) => (not a, ts)
    | .name s => (ofWord s).map fun a => (a, ts)
    | .mark .ellipsis => some (ellipsis, ts)
    | .mark .plus => (expression fuel powerLevel ts).map fun (a, ts) => (sign .plus a, ts)
    | .mark .minus => (expression fuel powerLevel ts).map fun (a, ts) => (sign .minus a, ts)
    | .mark .opening => group fuel ts
    | _ => none
  | _, _, [] => none

/-- The operators that follow a phrase, and their right operands. -/
def following : (fuel level : Nat) → Phrase → List Token → Option (Phrase × List Token)
  | 0, _, _, _ => none
  | fuel + 1, level, a, ts =>
    match ts with
    | .mark .opening :: rest =>
      (operands fuel conditionalLevel rest).bind fun (bs, rest) =>
        following fuel level (call a bs) rest
    | .mark m :: rest => match operator? m with
      | some (op, own, right) =>
        if own < level then some (a, ts)
        else (expression fuel right rest).bind fun (b, rest) =>
          following fuel level (binary op a b) rest
      | none => some (a, ts)
    | .name "and" :: rest =>
      if andLevel < level then some (a, ts)
      else (expression fuel (andLevel + 1) rest).bind fun (b, rest) =>
        following fuel level (and a b) rest
    | .name "or" :: rest =>
      if orLevel < level then some (a, ts)
      else (expression fuel (orLevel + 1) rest).bind fun (b, rest) =>
        following fuel level (or a b) rest
    | .name "if" :: rest =>
      if conditionalLevel < level then some (a, ts)
      else (expression fuel orLevel rest).bind fun (c, rest) =>
        match rest with
        | .name "else" :: rest =>
          (expression fuel conditionalLevel rest).map fun (b, rest) => (conditional c a b, rest)
        | _ => none
    | _ => some (a, ts)

/-- One item of a list of phrases; behind a star it is of at least the level `starred`. -/
def item : (fuel starred : Nat) → List Token → Option (Phrase × List Token)
  | 0, _, _ => none
  | fuel + 1, starred, .mark .times :: ts =>
    (expression fuel starred ts).map fun (a, ts) => (star a, ts)
  | fuel + 1, _, ts => expression fuel conditionalLevel ts

/-- What stands behind an opening parenthesis: a phrase alone, or a tuple. -/
def group : (fuel : Nat) → List Token → Option (Phrase × List Token)
  | 0, _ => none
  | _ + 1, .mark .closing :: ts => some (tuple [], ts)
  | fuel + 1, ts => (item fuel sumLevel ts).bind fun (a, ts) =>
    match ts with
    | .mark .closing :: ts => if a.isStar then none else some (a, ts)
    | .mark .comma :: ts =>
      (operands fuel sumLevel ts).map fun (bs, ts) => (tuple (a :: bs), ts)
    | _ => none

/-- Items up to the closing parenthesis, with a comma behind each but the last. -/
def operands : (fuel starred : Nat) → List Token → Option (List Phrase × List Token)
  | 0, _, _ => none
  | _ + 1, _, .mark .closing :: ts => some ([], ts)
  | fuel + 1, starred, ts => (item fuel starred ts).bind fun (a, ts) =>
    match ts with
    | .mark .closing :: ts => some ([a], ts)
    | .mark .comma :: ts => (operands fuel starred ts).map fun (bs, ts) => (a :: bs, ts)
    | _ => none

end

/-- Items up to the end, with a comma behind each but the last; whether a comma ended
them. -/
def items : (fuel : Nat) → List Token → Option (List Phrase × Bool)
  | 0, _ => none
  | fuel + 1, ts => (item fuel sumLevel ts).bind fun (a, ts) =>
    match ts with
    | [] => some ([a], false)
    | [.mark .comma] => some ([a], true)
    | .mark .comma :: ts => (items fuel ts).map fun (bs, ends) => (a :: bs, ends)
    | _ => none

/-- Fuel enough for any phrase of these tokens. -/
def fuelFor (ts : List Token) : Nat := 6 * ts.length + 12

/-- The phrase of one line, behind the word `return` too: a phrase alone, or a tuple. -/
def ofLine (ts : List Token) : Option Phrase :=
  let ts := match ts with
    | .name "return" :: ts => ts
    | ts => ts
  match items (fuelFor ts) ts with
  | some ([a], false) => some a
  | some (bs, _) => some (tuple bs)
  | none => none

/-- The lines of a list of tokens that hold any. -/
def lines (ts : List Token) : List (List Token) :=
  (ts.splitBy fun a b => a ≠ .lineEnd && b ≠ .lineEnd).filter fun l => l.head? ≠ some .lineEnd

/-- The phrase of a text.  Its first line counts; the other lines only have to be phrases. -/
def ofTokens (ts : List Token) : Option Phrase :=
  match lines ts with
  | [] => none
  | l :: ls => do
    let first ← ofLine l
    if first.isStar then none
    let _ ← ls.mapM ofLine
    return first

end Phrase

end Heightfield.Formula
