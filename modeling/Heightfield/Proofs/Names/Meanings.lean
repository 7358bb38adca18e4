import Heightfield.Proofs.Formula.Meaning
import Heightfield.Proofs.Formula.Variables
import Heightfield.Proofs.Names.Phrases
/-!
# The variables of what a phrase means

What a closed phrase means keeps the names of all its operands: signs, operators and calls only join what their
operands mean, and the extrema leave out repetitions.  The one exception is a call of `pow` with three operands,
which forgets the third; a phrase without one (`Phrase.hasTriplePow`) means an expression whose variables are the
names of the phrase (`Meaning.ofPhrase_names`).  With or without one, no function stands in it where a number should.
-/
namespace Heightfield.Formula

open Token (callNames standsAlone)

/-! ## Expressions that join others -/

namespace Expr

/-- The variables of the expression are those of `vs`, and no function stands in it where a number should. -/
structure Keeps (e : Expr) (vs : List String) : Prop where
  names_eq : e.names = vs
  hasBare_eq : e.hasBare = false

/-- The variables of the expressions are those of `vs`, and no function stands where a number should. -/
structure AllKeep (es : List Expr) (vs : List String) : Prop where
  names_eq : es.flatMap names = vs
  hasBare_eq : es.any hasBare = false

section
variable {a b e : Expr} {es : List Expr} {us vs : List String}

theorem keeps_ofInt (n : Int) : (ofInt n).Keeps [] := by
  unfold ofInt
  split <;> exact ⟨rfl, rfl⟩

theorem keeps_of_literal? : ∀ {e : Expr} {n : Int}, e.literal? = some n → e.Keeps []
  | int _, _, _ => ⟨rfl, rfl⟩
  | neg a, _, h => by
    obtain ⟨k, hk, -⟩ := Option.map_eq_some_iff.1 h
    have ha : a.Keeps [] := keeps_of_literal? hk
    exact ⟨ha.names_eq, ha.hasBare_eq⟩
  | decimal _ _, _, h | constant _, _, h | var _, _, h | apply _ _, _, h | binary _ _ _, _, h | undefined _, _, h
  | applied _ _, _, h | bare, _, h => nomatch h

theorem Keeps.opposite (h : e.Keeps vs) : e.opposite.Keeps vs :=
  ⟨(names_opposite e).trans h.names_eq, (hasBare_opposite e).trans h.hasBare_eq⟩

theorem Keeps.apply (h : e.Keeps vs) (f : Function) : (apply f e).Keeps vs := ⟨h.names_eq, h.hasBare_eq⟩

theorem Keeps.binary (h : a.Keeps us) (h' : b.Keeps vs) (op : Operation) : (binary op a b).Keeps (us ++ vs) :=
  ⟨by rw [names, h.names_eq, h'.names_eq], by rw [hasBare, h.hasBare_eq, h'.hasBare_eq]; rfl⟩

theorem Keeps.applied (h : a.Keeps us) (h' : b.Keeps vs) : (applied a b).Keeps (us ++ vs) :=
  ⟨by rw [names, h.names_eq, h'.names_eq], by rw [hasBare, h.hasBare_eq, h'.hasBare_eq]; rfl⟩

theorem AllKeep.cons (h : e.Keeps us) (h' : AllKeep es vs) : AllKeep (e :: es) (us ++ vs) :=
  ⟨by rw [List.flatMap_cons, h.names_eq, h'.names_eq], by rw [List.any_cons, h.hasBare_eq, h'.hasBare_eq]; rfl⟩

theorem AllKeep.of_cons (h : AllKeep (e :: es) vs) : ∃ us ws, vs = us ++ ws ∧ e.Keeps us ∧ AllKeep es ws := by
  obtain ⟨he, hes⟩ := Bool.or_eq_false_iff.1 h.hasBare_eq
  exact ⟨e.names, es.flatMap names, h.names_eq.symm, ⟨rfl, he⟩, ⟨rfl, hes⟩⟩

theorem AllKeep.foldl {g : Expr → Expr → Expr}
    (hg : ∀ {a b us vs}, Keeps a us → Keeps b vs → Keeps (g a b) (us ++ vs)) :
    ∀ {es : List Expr} {a : Expr} {us vs : List String}, a.Keeps us → AllKeep es vs → (es.foldl g a).Keeps (us ++ vs)
  | [], a, us, vs, ha, hes => by
    rw [← hes.names_eq, List.flatMap_nil, List.append_nil]
    exact ha
  | e :: es, a, us, vs, ha, hes => by
    obtain ⟨vs, ws, rfl, he, hes'⟩ := hes.of_cons
    rw [List.foldl_cons, ← List.append_assoc]
    exact AllKeep.foldl hg (hg ha he) hes'

end

end Expr

namespace Meaning

/-! ## Names -/

mutual

/-- The names of the variables, from left to right, with repetitions. -/
def names : Meaning → List String
  | expr e => e.names
  | tuple items => allNames items
  | _ => []

def allNames : List Meaning → List String
  | [] => []
  | a :: as => a.names ++ allNames as

end

mutual

/-- Whether a function stands somewhere where a number should. -/
def hasFunction : Meaning → Bool
  | expr e => e.hasBare
  | tuple items => anyFunction items
  | callee _ _ => true
  | _ => false

def anyFunction : List Meaning → Bool
  | [] => false
  | a :: as => a.hasFunction || anyFunction as

end

theorem allNames_append : ∀ (ms ms' : List Meaning), allNames (ms ++ ms') = allNames ms ++ allNames ms'
  | [], _ => rfl
  | m :: ms, ms' => by rw [List.cons_append, allNames, allNames_append ms ms', allNames, List.append_assoc]

theorem anyFunction_append : ∀ (ms ms' : List Meaning), anyFunction (ms ++ ms') = (anyFunction ms || anyFunction ms')
  | [], _ => rfl
  | m :: ms, ms' => by rw [List.cons_append, anyFunction, anyFunction_append ms ms', anyFunction, Bool.or_assoc]

/-! ## Operands -/

section
variable {m m' : Meaning} {a b : Meaning} {e : Expr}

theorem undefined_keeps {es : List Expr} {vs : List String} (name : String) (h : Expr.AllKeep es vs) :
    (undefined name es).Keeps vs := by
  have hstart : (Expr.undefined name).Keeps [] := ⟨rfl, rfl⟩
  exact Expr.AllKeep.foldl Expr.Keeps.applied hstart h

mutual

theorem toOperand_keeps : ∀ {m : Meaning} {e : Expr}, m.hasFunction = false → toOperand m = some e → e.Keeps m.names
  | expr e, _, hm, h => by
    rw [toOperand] at h
    cases h
    exact ⟨rfl, hm⟩
  | truth b, _, _, h => by
    rw [toOperand] at h
    cases h
    exact ⟨rfl, rfl⟩
  | count n, _, _, h => by
    rw [toOperand] at h
    cases h
    exact Expr.keeps_ofInt n
  | tuple items, _, hm, h => by
    rw [toOperand] at h
    obtain ⟨es, hes, rfl⟩ := Option.map_eq_some_iff.1 h
    exact undefined_keeps "tuple" (toOperands_keep hm hes)
  | callee _ _, _, hm, _ => nomatch hm
  | nothing, _, _, h => by
    rw [toOperand] at h
    cases h
  | ellipsis, _, _, h => by
    rw [toOperand] at h
    cases h

theorem toOperands_keep : ∀ {ms : List Meaning} {es : List Expr}, anyFunction ms = false → toOperands ms = some es →
    Expr.AllKeep es (allNames ms)
  | [], _, _, h => by
    rw [toOperands] at h
    cases h
    exact ⟨rfl, rfl⟩
  | m :: ms, _, hms, h => by
    rw [anyFunction, Bool.or_eq_false_iff] at hms
    rw [toOperands] at h
    obtain ⟨e, he, hrest⟩ := Option.bind_eq_some_iff.1 h
    obtain ⟨es, hes, rfl⟩ := Option.map_eq_some_iff.1 hrest
    exact .cons (toOperand_keeps hms.1 he) (toOperands_keep hms.2 hes)

end

/-! ## Operators -/

theorem Signed.names (hm : m.hasFunction = false) (h : Signed m m') : m'.hasFunction = false ∧ m'.names = m.names := by
  cases h with
  | same e => exact ⟨hm, rfl⟩
  | opposite e =>
    have hkeeps : e.opposite.Keeps e.names := Expr.Keeps.opposite ⟨rfl, hm⟩
    exact ⟨hkeeps.hasBare_eq, hkeeps.names_eq⟩
  | truth b n => exact ⟨rfl, rfl⟩
  | count k n => exact ⟨rfl, rfl⟩

theorem Floored.keeps {x y : Expr} {us vs : List String} (hx : x.Keeps us) (hy : y.Keeps vs) (h : Floored x y e) :
    e.Keeps (us ++ vs) := by
  cases h with
  | integers hp hq n =>
    rw [← hx.names_eq, ← hy.names_eq, (Expr.keeps_of_literal? hp).names_eq, (Expr.keeps_of_literal? hq).names_eq]
    exact Expr.keeps_ofInt n
  | floor => exact (hx.binary hy .div).apply .floor

theorem Combined.keeps (ha : a.hasFunction = false) (hb : b.hasFunction = false) (h : Combined a b e) :
    e.Keeps (a.names ++ b.names) := by
  cases h with
  | binary hx hy op => exact (toOperand_keeps ha hx).binary (toOperand_keeps hb hy) op
  | quotient hx hy he => exact he.keeps (toOperand_keeps ha hx) (toOperand_keeps hb hy)

/-! ## Calls -/

/-- The meaning has no function where a number should stand, and, unless some are hidden, it has the names `vs`, in
whatever order and number. -/
structure Names (m : Meaning) (vs : List String) (hidden : Bool) : Prop where
  hasFunction_eq : m.hasFunction = false
  mem_iff : hidden = false → ∀ s, s ∈ m.names ↔ s ∈ vs

variable {hidden : Bool}

theorem names_expr {vs : List String} (h : e.Keeps vs) : (expr e).Names vs hidden :=
  ⟨h.hasBare_eq, fun _ s => by rw [names, h.names_eq]⟩

theorem getD_joined_keeps {op : Operation} {es : List Expr} {vs : List String} (h : Expr.AllKeep es vs) {d : Expr}
    (hd : d.Keeps []) : ((joined op es).getD d).Keeps vs := by
  cases es with
  | nil => rwa [← h.names_eq]
  | cons a es =>
    obtain ⟨us, ws, rfl, ha, hes⟩ := h.of_cons
    exact Expr.AllKeep.foldl (fun ha hb => ha.binary hb op) ha hes

theorem names_extremum {op : Operation} {es : List Expr} {vs : List String} (h : Expr.AllKeep es vs) :
    (expr ((joined op es.eraseDups).getD (emptyExtremum op))).Names vs hidden := by
  have hbare : es.eraseDups.any Expr.hasBare = false := by
    rw [List.any_eq_false]
    exact fun e he => List.any_eq_false.1 h.hasBare_eq e (List.mem_eraseDups.1 he)
  have hempty : (emptyExtremum op).Keeps [] := by
    unfold emptyExtremum
    split <;> exact ⟨rfl, rfl⟩
  have hkeeps : ((joined op es.eraseDups).getD (emptyExtremum op)).Keeps (es.eraseDups.flatMap Expr.names) :=
    getD_joined_keeps ⟨rfl, hbare⟩ hempty
  refine ⟨hkeeps.hasBare_eq, fun _ s => ?_⟩
  rw [names, hkeeps.names_eq, ← h.names_eq]
  simp only [List.mem_flatMap, List.mem_eraseDups]

theorem applyLenient_keeps {name : String} {c : Callee} {es : List Expr} {vs : List String} (h : Expr.AllKeep es vs) :
    (applyLenient name c es).Keeps vs := by
  unfold applyLenient
  split
  · obtain ⟨us, ws, rfl, hx, hnil⟩ := h.of_cons
    rw [← hnil.names_eq, List.flatMap_nil, List.append_nil]
    exact hx.apply _
  · obtain ⟨us, ws, rfl, hx, hrest⟩ := h.of_cons
    obtain ⟨us', ws', rfl, hy, hnil⟩ := hrest.of_cons
    rw [← hnil.names_eq, List.flatMap_nil, List.append_nil]
    exact hx.binary hy _
  · exact undefined_keeps _ h

theorem Powered.hasBare {x y : Expr} (hx : x.hasBare = false) (hy : y.hasBare = false) (h : Powered x y e) :
    e.hasBare = false := by
  cases h with
  | integer n => exact (Expr.keeps_ofInt n).hasBare_eq
  | base => exact hx
  | power =>
    rw [Expr.hasBare, hx, hy]
    rfl

/-- **A call has the names of its operands**, unless it is a power of three, which forgets the last. -/
theorem Applied.names {name : String} {c : Callee} {as : List Meaning} (has : anyFunction as = false)
    (hpower : c = .power → as.length = 3 → hidden = true) (h : Applied name c as m) : m.Names (allNames as) hidden := by
  cases h with
  | one hx f =>
    rw [anyFunction, anyFunction, Bool.or_false] at has
    rw [allNames, allNames, List.append_nil]
    exact names_expr ((toOperand_keeps has hx).apply f)
  | two hx hy op =>
    rw [anyFunction, anyFunction, anyFunction, Bool.or_false, Bool.or_eq_false_iff] at has
    rw [allNames, allNames, allNames, List.append_nil]
    exact names_expr ((toOperand_keeps has.1 hx).binary (toOperand_keeps has.2 hy) op)
  | power hc hx hy he =>
    simp only [anyFunction, Bool.or_eq_false_iff] at has
    refine ⟨he.hasBare (toOperand_keeps has.1 hx).hasBare_eq (toOperand_keeps has.2.1 hy).hasBare_eq, fun hno => ?_⟩
    rw [hpower hc rfl] at hno
    cases hno
  | lenient hc hxs => exact names_expr (applyLenient_keeps (toOperands_keep has hxs))
  | extremum hxs op => exact names_extremum (toOperands_keep has hxs)
  | self n k => cases has

end

end Meaning

/-! ## Phrases -/

namespace Phrase

def isPow : Phrase → Bool
  | name s => s == "pow"
  | _ => false

mutual

/-- Whether some call of `pow` has three operands. -/
def hasTriplePow : Phrase → Bool
  | tuple as => anyTriplePow as
  | star a | sign _ a | not a => a.hasTriplePow
  | binary _ a b | and a b | or a b => a.hasTriplePow || b.hasTriplePow
  | conditional c a b => c.hasTriplePow || a.hasTriplePow || b.hasTriplePow
  | call f as =>
    (f.isPow && (Meaning.ofItems as).any (·.length == 3)) || f.hasTriplePow || anyTriplePow as
  | _ => false

def anyTriplePow : List Phrase → Bool
  | [] => false
  | a :: as => a.hasTriplePow || anyTriplePow as

end

end Phrase

namespace Meaning

open Phrase (allClosed allFreeNames anyTriplePow)

theorem callee?_of_mem_callNames : ∀ f ∈ callNames, constant? f = none ∧ (callee? f).any Callee.isNumeric = true ∧
    (callee? f = some .power → f = "pow") := by decide

theorem callee?_of_standsAlone {w : String} (h : standsAlone w = true) : callee? w = none := by
  rcases Bool.or_eq_true_iff.1 h with hword | hunderscore
  · rcases isWord_iff.1 hword with hk | ⟨c, rfl, -⟩
    · exact (by decide : ∀ k ∈ constantNames, callee? k = none) w hk
    · exact callee?_singleton c
  · have hreserved := Token.isReserved_of_underscore (List.contains_iff_mem.1 hunderscore)
    rw [isReserved, Bool.or_eq_false_iff, Bool.or_eq_false_iff] at hreserved
    exact Option.isSome_eq_false_iff.1 hreserved.1.2 |> Option.isNone_iff_eq_none.1

/-- A function of a text means itself. -/
theorem isNumeric_of_ofName {f g : String} {c : Callee} (hf : f ∈ callNames) (h : ofName f = callee g c) :
    c.isNumeric = true ∧ (c = .power → f = "pow") := by
  obtain ⟨hconstant, hnumeric, hpow⟩ := callee?_of_mem_callNames f hf
  obtain ⟨k, hk, hkn⟩ := (Option.any_eq_true _ _).1 hnumeric
  rw [ofName, hconstant, hk] at h
  cases h
  exact ⟨hkn, fun hc => hpow (by rw [hk, hc])⟩

variable {hidden hidden' : Bool}

/-- A name that stands alone means a number, or the variable of its name. -/
theorem names_ofName {w : String} (h : standsAlone w = true) : (ofName w).Names (Phrase.name w).freeNames hidden := by
  have hcallee := callee?_of_standsAlone h
  have hkeyword := isKeyword_of_named (Or.inl h)
  have hreserved : isReserved w = (constant? w).isSome := by rw [isReserved, hkeyword, hcallee]; rfl
  rw [ofName, hcallee, Phrase.freeNames, hreserved]
  cases constant? w with
  | none => exact ⟨rfl, fun _ s => Iff.rfl⟩
  | some c => cases c <;> exact ⟨rfl, fun _ s => Iff.rfl⟩

theorem Names.of_expr {e : Expr} {us vs : List String} (h : e.Keeps us)
    (huv : hidden = false → ∀ s, s ∈ us ↔ s ∈ vs) : (expr e).Names vs hidden :=
  ⟨h.hasBare_eq, fun hno s => by rw [names, h.names_eq, huv hno]⟩

theorem Names.cons {m : Meaning} {ms : List Meaning} {us vs : List String} (h : m.Names us hidden)
    (h' : (tuple ms).Names vs hidden') : (tuple (m :: ms)).Names (us ++ vs) (hidden || hidden') := by
  refine ⟨by rw [hasFunction, anyFunction, h.hasFunction_eq]; exact h'.hasFunction_eq, fun hno s => ?_⟩
  obtain ⟨hno, hno'⟩ := Bool.or_eq_false_iff.1 hno
  rw [names, allNames, List.mem_append, List.mem_append, h.mem_iff hno]
  exact or_congr_right (h'.mem_iff hno' s)

theorem Names.append {ms ms' : List Meaning} {us vs : List String} (h : (tuple ms).Names us hidden)
    (h' : (tuple ms').Names vs hidden') : (tuple (ms ++ ms')).Names (us ++ vs) (hidden || hidden') := by
  refine ⟨?_, fun hno s => ?_⟩
  · rw [hasFunction, anyFunction_append]
    exact Bool.or_eq_false_iff.2 ⟨h.hasFunction_eq, h'.hasFunction_eq⟩
  · obtain ⟨hno, hno'⟩ := Bool.or_eq_false_iff.1 hno
    rw [names, allNames_append, List.mem_append, List.mem_append]
    exact or_congr (h.mem_iff hno s) (h'.mem_iff hno' s)

theorem names_called {f : Phrase} {as : List Phrase} {g : String} {c : Callee} {ms : List Meaning} {m : Meaning}
    (hf : f.isFunction = true) (hx : ofPhrase f = some (callee g c)) (hms : ofItems as = some ms)
    (has : (tuple ms).Names (allFreeNames as) (anyTriplePow as)) (h : apply g c ms = some m) :
    m.Names (f.freeNames ++ allFreeNames as) (Phrase.call f as).hasTriplePow := by
  have hcalled : c.isNumeric = true ∧ (c = .power → f.isPow = true) ∧ f.freeNames = [] := by
    cases f with
    | name s =>
      have hs : s ∈ callNames := List.contains_iff_mem.1 hf
      rw [ofPhrase] at hx
      obtain ⟨hnumeric, hpower⟩ := isNumeric_of_ofName hs (Option.some.inj hx)
      refine ⟨hnumeric, fun hc => by rw [hpower hc]; rfl, ?_⟩
      rw [Phrase.freeNames, Token.isReserved_of_mem_callNames _ hs, if_pos rfl]
    | undefined s =>
      rw [ofPhrase] at hx
      cases hx
      exact ⟨rfl, (fun hc => by cases hc), rfl⟩
    | _ => cases hf
  obtain ⟨hnumeric, hpower, hnone⟩ := hcalled
  have hm : m.Names (allNames ms) (Phrase.call f as).hasTriplePow :=
    (apply_cases hnumeric h).names has.hasFunction_eq fun hc hlength => by
      rw [Phrase.hasTriplePow, hpower hc, hms, Option.any_some, hlength]
      rfl
  refine ⟨hm.hasFunction_eq, fun hno s => ?_⟩
  have hno' : anyTriplePow as = false := by
    rw [Phrase.hasTriplePow, Bool.or_eq_false_iff] at hno
    exact hno.2
  rw [hnone, List.nil_append, hm.mem_iff hno]
  exact has.mem_iff hno' s

mutual

/-- **What a closed phrase means has the names of the phrase**, unless it has a call of `pow` with three operands, and in
any case no function where a number should stand. -/
theorem ofPhrase_names : ∀ {p : Phrase} {m : Meaning}, p.isClosed = true → ofPhrase p = some m →
    m.Names p.freeNames p.hasTriplePow
  | .integer n, m, _, h => by
    rw [ofPhrase] at h
    cases h
    exact ⟨rfl, fun _ s => Iff.rfl⟩
  | .decimal d e, m, _, h => by
    rw [ofPhrase] at h
    cases h
    exact ⟨rfl, fun _ s => Iff.rfl⟩
  | .ellipsis, m, _, h => by
    rw [ofPhrase] at h
    cases h
    exact ⟨rfl, fun _ s => Iff.rfl⟩
  | .name w, m, hclosed, h => by
    rw [ofPhrase] at h
    cases h
    exact names_ofName hclosed
  | .tuple as, m, hclosed, h => by
    rw [ofPhrase] at h
    obtain ⟨ms, hms, rfl⟩ := Option.map_eq_some_iff.1 h
    exact ofItems_names hclosed hms
  | .star a, m, _, h => by
    rw [ofPhrase] at h
    cases h
  | .sign s a, m, hclosed, h => by
    obtain ⟨x, hx, hsigned⟩ := ofPhrase_sign h
    have ha := ofPhrase_names (p := a) hclosed hx
    obtain ⟨hfunction, hnames⟩ := hsigned.names ha.hasFunction_eq
    exact ⟨hfunction, fun hno s => by rw [hnames]; exact ha.mem_iff hno s⟩
  | .binary op a b, m, hclosed, h => by
    rw [Phrase.isClosed, Bool.and_eq_true] at hclosed
    obtain ⟨x, y, e, hx, hy, he, rfl⟩ := ofPhrase_binary h
    have ha := ofPhrase_names hclosed.1 hx
    have hb := ofPhrase_names hclosed.2 hy
    refine .of_expr (he.keeps ha.hasFunction_eq hb.hasFunction_eq) fun hno s => ?_
    rw [Phrase.hasTriplePow, Bool.or_eq_false_iff] at hno
    rw [Phrase.freeNames, List.mem_append, List.mem_append, ha.mem_iff hno.1, hb.mem_iff hno.2]
  | .call f as, m, hclosed, h => by
    rw [Phrase.isClosed, Bool.and_eq_true] at hclosed
    obtain ⟨g, c, ms, hx, hms, happly⟩ := ofPhrase_call h
    rcases Bool.or_eq_true_iff.1 hclosed.1 with hf | hf
    · exact names_called hf hx hms (ofItems_names hclosed.2 hms) happly
    · -- a closed phrase means a value, and no function
      cases (ofPhrase_names hf hx).hasFunction_eq
  | .undefined _, _, hclosed, _ | .truth _, _, hclosed, _ | .nothing, _, hclosed, _ | .not _, _, hclosed, _
  | .and _ _, _, hclosed, _ | .or _ _, _, hclosed, _ | .conditional _ _ _, _, hclosed, _ => nomatch hclosed

theorem ofItems_names : ∀ {ps : List Phrase} {ms : List Meaning}, allClosed ps = true → ofItems ps = some ms →
    (tuple ms).Names (allFreeNames ps) (anyTriplePow ps)
  | [], ms, _, h => by
    rw [ofItems] at h
    cases h
    exact ⟨rfl, fun _ s => Iff.rfl⟩
  | p :: ps, ms, hclosed, h => by
    rw [allClosed, Bool.and_eq_true] at hclosed
    obtain ⟨rest, hrest, ⟨x, hx, rfl⟩ | ⟨a, items, rfl, ha, rfl⟩⟩ := ofItems_cons h
    · exact (ofPhrase_names hclosed.1 hx).cons (ofItems_names hclosed.2 hrest)
    · exact (ofPhrase_names (p := a) hclosed.1 ha).append (ofItems_names hclosed.2 hrest)

end

end Meaning

end Heightfield.Formula
