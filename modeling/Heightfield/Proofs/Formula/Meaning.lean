import Heightfield.Formula.Compile
/-!
# What a meaning is made of

A sign, an operator or a call that means something was applied in one of a few ways, and only joins the expressions of
its operands (`signed_cases`, `combined_cases`, `apply_cases`).  What holds of all meanings is proved by induction on
the phrase, over these cases.
-/
namespace Heightfield.Formula

/-- The callee takes its operands for numbers. -/
def Callee.isNumeric : Callee → Bool
  | function _ | lenient _ | lenientPair _ | logarithm | root | power | extremum _ | undefined _ => true
  | _ => false

namespace Meaning

/-! ## Signs and operators -/

/-- The ways to put a sign before a meaning. -/
inductive Signed : Meaning → Meaning → Prop where
  | same (e : Expr) : Signed (expr e) (expr e)
  | opposite (e : Expr) : Signed (expr e) (expr e.opposite)
  | truth (b : Bool) (n : Int) : Signed (truth b) (count n)
  | count (k n : Int) : Signed (count k) (count n)

/-- The ways to join two expressions by a quotient whose floor is taken. -/
inductive Floored (x y : Expr) : Expr → Prop where
  | integers {p q : Int} (hx : x.literal? = some p) (hy : y.literal? = some q) (n : Int) : Floored x y (.ofInt n)
  | floor : Floored x y (.apply .floor (.binary .div x y))

/-- The ways to join what two operands mean. -/
inductive Combined (a b : Meaning) : Expr → Prop where
  | binary {x y : Expr} (hx : toOperand a = some x) (hy : toOperand b = some y) (op : Operation) :
    Combined a b (.binary op x y)
  | quotient {x y e : Expr} (hx : toOperand a = some x) (hy : toOperand b = some y) (he : Floored x y e) : Combined a b e

section
variable {a b m m' : Meaning} {e x y : Expr}

theorem signed_cases {s : Sign} (h : signed s m = some m') : Signed m m' := by
  unfold signed at h
  split at h
  all_goals cases h
  · exact .same _
  · exact .opposite _
  · exact .truth _ _
  · exact .truth _ _
  · exact .count _ _
  · exact .count _ _

theorem quotient_cases (h : quotient x y = some e) : Floored x y e := by
  unfold quotient at h
  split at h
  · split at h
    · cases h
    · cases h
      exact .integers ‹_› ‹_› _
  · split at h
    · cases h
    · cases h
      exact .floor

/-- A factor is an operand, but for the functions, which are no factors. -/
theorem toOperand_of_toFactor (h : toFactor m = some e) : toOperand m = some e := by
  unfold toFactor at h
  split at h
  · cases h
  · exact h

theorem toOperand_of_toTerm (h : toTerm m = some e) : toOperand m = some e := by
  unfold toTerm at h
  split at h
  · rw [toOperand, h]
  · rw [toOperand, h]
  · cases h

theorem combined_cases {op : Operator} (h : combined op a b = some e) : Combined a b e := by
  have hpair : ∀ {side : Meaning → Option Expr} {join : Expr → Expr → Option Expr},
      (∀ {m x}, side m = some x → toOperand m = some x) → ((side a).bind fun x => (side b).bind (join x)) = some e →
      ∃ x y, toOperand a = some x ∧ toOperand b = some y ∧ join x y = some e := by
    intro side join hside hbind
    obtain ⟨x, hx, hrest⟩ := Option.bind_eq_some_iff.1 hbind
    obtain ⟨y, hy, hxy⟩ := Option.bind_eq_some_iff.1 hrest
    exact ⟨x, y, hside hx, hside hy, hxy⟩
  cases op with
  | add | sub | remainder =>
    obtain ⟨x, y, hx, hy, he⟩ := hpair toOperand_of_toTerm h
    cases he
    exact .binary hx hy _
  | mul | div | pow =>
    obtain ⟨x, y, hx, hy, he⟩ := hpair toOperand_of_toFactor h
    cases he
    exact .binary hx hy _
  | quotient =>
    obtain ⟨x, y, hx, hy, he⟩ := hpair toOperand_of_toTerm h
    exact .quotient hx hy (quotient_cases he)

end

/-! ## Calls -/

/-- The ways to form a power. -/
inductive Powered (x y : Expr) : Expr → Prop where
  | integer (n : Int) : Powered x y (.ofInt n)
  | base : Powered x y x
  | power : Powered x y (.binary .pow x y)

/-- The ways to call the function `c` of the name. -/
inductive Applied (name : String) (c : Callee) : List Meaning → Meaning → Prop where
  | one {a : Meaning} {x : Expr} (hx : toOperand a = some x) (f : Function) : Applied name c [a] (expr (.apply f x))
  | two {a b : Meaning} {x y : Expr} (hx : toOperand a = some x) (hy : toOperand b = some y) (op : Operation) :
    Applied name c [a, b] (expr (.binary op x y))
  | power {a b d : Meaning} {x y e : Expr} (hc : c = .power) (hx : toOperand a = some x) (hy : toOperand b = some y)
    (he : Powered x y e) : Applied name c [a, b, d] (expr e)
  | lenient {as : List Meaning} {xs : List Expr} (hc : (callee name c).isLenient = true) (hxs : toOperands as = some xs) :
    Applied name c as (expr (applyLenient name c xs))
  | extremum {as : List Meaning} {xs : List Expr} (hxs : toOperands as = some xs) (op : Operation) :
    Applied name c as (expr ((joined op xs.eraseDups).getD (emptyExtremum op)))
  | self (n : String) (k : Callee) : Applied name c [callee n k] (callee n k)

section
variable {as : List Meaning} {m : Meaning} {e x y : Expr}

theorem powerNow_cases (h : powerNow x y = some e) : Powered x y e := by
  unfold powerNow at h
  split at h
  · cases h
    exact .integer 1
  · cases h
    exact .base
  · split at h
    · cases h
      exact .integer 1
    split at h
    · cases h
      exact .power
    split at h
    · cases h
    · unfold writable at h
      split at h
      · cases h
        exact .integer _
      · cases h
  · cases h
    exact .power

/-- A call of three keeps its first two operands, whether the third holds or not. -/
theorem power_cases {a b d : Meaning} (h : ((toFactor a).bind fun x => (toFactor b).bind fun y =>
      (if d.holds then powerNow x y else some (.binary .pow x y)).map expr) = some m) :
    Applied name .power [a, b, d] m := by
  obtain ⟨x, hx, hrest⟩ := Option.bind_eq_some_iff.1 h
  obtain ⟨y, hy, hmap⟩ := Option.bind_eq_some_iff.1 hrest
  obtain ⟨e, he, rfl⟩ := Option.map_eq_some_iff.1 hmap
  refine .power rfl (toOperand_of_toFactor hx) (toOperand_of_toFactor hy) ?_
  split at he
  · exact powerNow_cases he
  · cases he
    exact .power

theorem lenientOperands_cases {xs : List Expr} (h : lenientOperands as = some xs) : toOperands as = some xs := by
  unfold lenientOperands at h
  split at h
  · cases h
  · exact h

theorem apply_cases {name : String} {c : Callee} (hc : c.isNumeric = true) (h : apply name c as = some m) :
    Applied name c as m := by
  unfold apply at h
  split at h
  · obtain ⟨x, hx, rfl⟩ := Option.map_eq_some_iff.1 h
    exact .one hx _
  iterate 3
    obtain ⟨xs, hxs, rfl⟩ := Option.map_eq_some_iff.1 h
    exact .lenient rfl (lenientOperands_cases hxs)
  · obtain ⟨x, hx, rfl⟩ := Option.map_eq_some_iff.1 h
    exact .one hx _
  · obtain ⟨x, hx, hmap⟩ := Option.bind_eq_some_iff.1 h
    obtain ⟨y, hy, rfl⟩ := Option.map_eq_some_iff.1 hmap
    exact .two hx hy _
  · obtain ⟨x, hx, rfl⟩ := Option.map_eq_some_iff.1 h
    exact .one (toOperand_of_toFactor hx) _
  · obtain ⟨x, hx, hmap⟩ := Option.bind_eq_some_iff.1 h
    obtain ⟨y, hy, rfl⟩ := Option.map_eq_some_iff.1 hmap
    exact .two (toOperand_of_toFactor hx) (toOperand_of_toFactor hy) _
  · exact power_cases h
  · obtain ⟨x, -, rfl⟩ := Option.map_eq_some_iff.1 h
    exact .self _ _
  · obtain ⟨xs, hxs, rfl⟩ := Option.map_eq_some_iff.1 h
    exact .extremum hxs _
  all_goals first | cases hc | cases h

end

/-! ## Phrases -/

section
variable {m : Meaning}

theorem ofPhrase_sign {s : Sign} {a : Phrase} (h : ofPhrase (.sign s a) = some m) :
    ∃ x, ofPhrase a = some x ∧ Signed x m := by
  rw [ofPhrase] at h
  obtain ⟨x, hx, hsigned⟩ := Option.bind_eq_some_iff.1 h
  exact ⟨x, hx, signed_cases hsigned⟩

theorem ofPhrase_binary {op : Operator} {a b : Phrase} (h : ofPhrase (.binary op a b) = some m) :
    ∃ x y e, ofPhrase a = some x ∧ ofPhrase b = some y ∧ Combined x y e ∧ m = expr e := by
  rw [ofPhrase] at h
  obtain ⟨x, hx, hrest⟩ := Option.bind_eq_some_iff.1 h
  obtain ⟨y, hy, hmap⟩ := Option.bind_eq_some_iff.1 hrest
  obtain ⟨e, he, rfl⟩ := Option.map_eq_some_iff.1 hmap
  exact ⟨x, y, e, hx, hy, combined_cases he, rfl⟩

theorem ofPhrase_call {f : Phrase} {as : List Phrase} (h : ofPhrase (.call f as) = some m) :
    ∃ name c ms, ofPhrase f = some (callee name c) ∧ ofItems as = some ms ∧ apply name c ms = some m := by
  rw [ofPhrase] at h
  obtain ⟨x, hx, hcall⟩ := Option.bind_eq_some_iff.1 h
  split at hcall
  · obtain ⟨ms, hms, happly⟩ := Option.bind_eq_some_iff.1 hcall
    exact ⟨_, _, ms, hx, hms, happly⟩
  · cases hcall

/-- The first item gives its meaning, or the items of the tuple that it spreads. -/
theorem ofItems_cons {p : Phrase} {ps : List Phrase} {ms : List Meaning} (h : ofItems (p :: ps) = some ms) :
    ∃ rest, ofItems ps = some rest ∧
      ((∃ x, ofPhrase p = some x ∧ ms = x :: rest) ∨
        ∃ a items, p = .star a ∧ ofPhrase a = some (tuple items) ∧ ms = items ++ rest) := by
  by_cases hstar : ∃ a, p = .star a
  · obtain ⟨a, rfl⟩ := hstar
    rw [ofItems] at h
    obtain ⟨x, hx, hrest⟩ := Option.bind_eq_some_iff.1 h
    obtain ⟨items, hitems, hmap⟩ := Option.bind_eq_some_iff.1 hrest
    obtain ⟨rest, hps, rfl⟩ := Option.map_eq_some_iff.1 hmap
    unfold spread at hitems
    split at hitems
    · cases hitems
      exact ⟨rest, hps, Or.inr ⟨a, _, rfl, hx, rfl⟩⟩
    · cases hitems
  · rw [ofItems] at h
    · obtain ⟨x, hx, hmap⟩ := Option.bind_eq_some_iff.1 h
      obtain ⟨rest, hps, rfl⟩ := Option.map_eq_some_iff.1 hmap
      exact ⟨rest, hps, Or.inl ⟨x, hx, rfl⟩⟩
    · exact fun a heq => hstar ⟨a, heq⟩

end

end Meaning

/-! ## Texts -/

theorem exists_phrase_of_exprOf {t : List Char} {e : Expr} (h : exprOf t = .ok e) :
    ∃ ts p, Token.tokens t = some ts ∧ Phrase.ofTokens ts = some p ∧ Meaning.ofPhrase p = some (.expr e) := by
  unfold exprOf at h
  split at h
  · cases h
  · rename_i hsome
    cases h
    obtain ⟨p, hp, hmeaning⟩ := Option.bind_eq_some_iff.1 hsome
    obtain ⟨ts, hts, hphrase⟩ := Option.bind_eq_some_iff.1 hp
    exact ⟨ts, p, hts, hphrase, hmeaning⟩
  · cases h

end Heightfield.Formula
