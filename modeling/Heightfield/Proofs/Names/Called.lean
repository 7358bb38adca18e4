import Heightfield.Proofs.Formula.Text
import Heightfield.Proofs.Names.Undefined
/-!
# Functions that a formula calls

What a closed phrase means calls no other function without a definition than those its names say, but for the
functions of the vocabulary, which also stand for calls with a wrong number of operands, and for tuples among the
operands (`Meaning.ofPhrase_within`).  So every function that an accepted text calls is one of the vocabulary,
unless its name has an underscore (`parse_calls`).
-/
namespace Heightfield.Formula

open Juxtaposition (explicit)
open Token (callNames standsAlone)

/-- The name is among those of the list, or stands for a call of the vocabulary or for a tuple. -/
def Known (us : List String) (u : String) : Prop := u ∈ us ∨ u ∈ functionNames ∨ u = "tuple"

/-! ## Expressions -/

namespace Expr

/-- The names of what has no value in the expression: functions nobody defined, or called with a wrong number of
operands, and tuples. -/
def undefinedNames : Expr → List String
  | undefined name => [name]
  | neg a | apply _ a => a.undefinedNames
  | binary _ a b | applied a b => a.undefinedNames ++ b.undefinedNames
  | _ => []

def Within (us : List String) (e : Expr) : Prop := ∀ u ∈ e.undefinedNames, Known us u

section
variable {us : List String} {a b e : Expr} {es : List Expr}

theorem within_of_nil (h : e.undefinedNames = []) : e.Within us := fun u hu => by
  rw [h] at hu
  cases hu

theorem within_ofInt (n : Int) : (ofInt n).Within us := by
  unfold ofInt
  split <;> exact within_of_nil rfl

theorem Within.append (ha : a.Within us) (hb : b.Within us) :
    ∀ u ∈ a.undefinedNames ++ b.undefinedNames, Known us u := fun u hu =>
  (List.mem_append.1 hu).elim (ha u) (hb u)

theorem Within.apply (ha : a.Within us) (f : Function) : (apply f a).Within us := ha

theorem Within.binary (ha : a.Within us) (hb : b.Within us) (op : Operation) : (binary op a b).Within us := ha.append hb

theorem Within.applied (ha : a.Within us) (hb : b.Within us) : (applied a b).Within us := ha.append hb

theorem Within.opposite (h : e.Within us) : e.opposite.Within us := by
  unfold Expr.opposite
  split
  · exact within_of_nil rfl
  · exact h

theorem Within.foldl {g : Expr → Expr → Expr} (hg : ∀ {a b}, Within us a → Within us b → Within us (g a b)) :
    ∀ {es : List Expr} {a : Expr}, a.Within us → (∀ e ∈ es, e.Within us) → (es.foldl g a).Within us := by
  intro es
  induction es with
  | nil => exact fun ha _ => ha
  | cons e es ih =>
    intro a ha hes
    obtain ⟨he, hes⟩ := List.forall_mem_cons.1 hes
    exact ih (hg ha he) hes

end

end Expr

/-! ## Meanings -/

namespace Meaning

mutual

/-- The names in the meaning are known; of a function, only if it can be called with any number of operands. -/
def Within (us : List String) : Meaning → Prop
  | expr e => e.Within us
  | tuple items => AllWithin us items
  | callee name c => c.isNumeric = true ∧ ((callee name c).isLenient = true → Known us name)
  | _ => True

def AllWithin (us : List String) : List Meaning → Prop
  | [] => True
  | m :: ms => m.Within us ∧ AllWithin us ms

end

theorem AllWithin.append {us : List String} : ∀ {ms ms' : List Meaning}, AllWithin us ms → AllWithin us ms' →
    AllWithin us (ms ++ ms')
  | [], _, _, h' => h'
  | _ :: _, _, h, h' => ⟨h.1, h.2.append h'⟩

section
variable {us : List String} {m m' a b : Meaning} {e : Expr} {es : List Expr} {ms : List Meaning}

/-! ### Operands -/

theorem undefined_within {name : String} (hname : Known us name) (hes : ∀ e ∈ es, e.Within us) :
    (undefined name es).Within us := by
  have hstart : (Expr.undefined name).Within us := fun u hu => by rwa [List.mem_singleton.1 hu]
  exact Expr.Within.foldl Expr.Within.applied hstart hes

mutual

theorem toOperand_within : ∀ {m : Meaning} {e : Expr}, m.Within us → toOperand m = some e → e.Within us
  | expr _, _, hm, h => by
    rw [toOperand] at h
    cases h
    exact hm
  | truth _, _, _, h => by
    rw [toOperand] at h
    cases h
    exact Expr.within_of_nil rfl
  | count n, _, _, h => by
    rw [toOperand] at h
    cases h
    exact Expr.within_ofInt n
  | tuple items, _, hm, h => by
    rw [toOperand] at h
    obtain ⟨es, hes, rfl⟩ := Option.map_eq_some_iff.1 h
    exact undefined_within (Or.inr (Or.inr rfl)) (toOperands_within hm hes)
  | callee _ c, _, _, h => by
    rw [toOperand] at h
    split at h
    · cases h
    · cases h
      exact Expr.within_of_nil rfl
  | nothing, _, _, h => by
    rw [toOperand] at h
    cases h
  | ellipsis, _, _, h => by
    rw [toOperand] at h
    cases h

theorem toOperands_within : ∀ {ms : List Meaning} {es : List Expr}, AllWithin us ms → toOperands ms = some es →
    ∀ e ∈ es, e.Within us
  | [], _, _, h => by
    rw [toOperands] at h
    cases h
    exact fun e he => by cases he
  | m :: ms, _, hms, h => by
    rw [toOperands] at h
    obtain ⟨e, he, hrest⟩ := Option.bind_eq_some_iff.1 h
    obtain ⟨es, hes, rfl⟩ := Option.map_eq_some_iff.1 hrest
    exact List.forall_mem_cons.2 ⟨toOperand_within hms.1 he, toOperands_within hms.2 hes⟩

end

/-! ### Operators -/

theorem Signed.within (hm : m.Within us) (h : Signed m m') : m'.Within us := by
  cases h with
  | same e => exact hm
  | opposite e => exact Expr.Within.opposite hm
  | truth b n => trivial
  | count k n => trivial

theorem Floored.within {x y : Expr} (hx : x.Within us) (hy : y.Within us) (h : Floored x y e) : e.Within us := by
  cases h with
  | integers hp hq n => exact Expr.within_ofInt n
  | floor => exact hx.binary hy .div

theorem Combined.within (ha : a.Within us) (hb : b.Within us) (h : Combined a b e) : e.Within us := by
  cases h with
  | binary hx hy op => exact (toOperand_within ha hx).binary (toOperand_within hb hy) op
  | quotient hx hy he => exact he.within (toOperand_within ha hx) (toOperand_within hb hy)

/-! ### Calls -/

theorem getD_joined_within {op : Operation} (hes : ∀ e ∈ es, e.Within us) {d : Expr} (hd : d.Within us) :
    ((joined op es).getD d).Within us := by
  cases es with
  | nil => exact hd
  | cons a es =>
    obtain ⟨ha, hes⟩ := List.forall_mem_cons.1 hes
    exact Expr.Within.foldl (fun ha hb => ha.binary hb op) ha hes

theorem emptyExtremum_within (op : Operation) : (emptyExtremum op).Within us := by
  unfold emptyExtremum
  split <;> exact Expr.within_of_nil rfl

theorem applyLenient_within {name : String} {c : Callee} (hname : Known us name) (hes : ∀ e ∈ es, e.Within us) :
    (applyLenient name c es).Within us := by
  unfold applyLenient
  split
  · exact (hes _ List.mem_cons_self).apply _
  · exact (hes _ List.mem_cons_self).binary (hes _ (List.mem_cons_of_mem _ List.mem_cons_self)) _
  · exact undefined_within hname hes

theorem Powered.within {x y : Expr} (hx : x.Within us) (hy : y.Within us) (h : Powered x y e) : e.Within us := by
  cases h with
  | integer n => exact Expr.within_ofInt n
  | base => exact hx
  | power => exact hx.binary hy .pow

/-- **A call brings no name in but that of its function.** -/
theorem Applied.within {name : String} {c : Callee} (hc : (callee name c).Within us) (hms : AllWithin us ms)
    (h : Applied name c ms m) : m.Within us := by
  cases h with
  | one hx f => exact (toOperand_within hms.1 hx).apply f
  | two hx hy op => exact (toOperand_within hms.1 hx).binary (toOperand_within hms.2.1 hy) op
  | power _ hx hy he => exact he.within (toOperand_within hms.1 hx) (toOperand_within hms.2.1 hy)
  | lenient hlenient hxs => exact applyLenient_within (hc.2 hlenient) (toOperands_within hms hxs)
  | extremum hxs op =>
    refine getD_joined_within (fun e he => ?_) (emptyExtremum_within op)
    exact toOperands_within hms hxs e (List.mem_eraseDups.1 he)
  | self n k => exact hms.1

/-! ### Phrases -/

theorem within_ofName {w : String} (h : standsAlone w = true ∨ w ∈ callNames) : (ofName w).Within us := by
  rcases h with halone | hcall
  · rw [ofName, callee?_of_standsAlone halone]
    cases constant? w with
    | none => exact Expr.within_of_nil rfl
    | some c => cases c <;> exact Expr.within_of_nil rfl
  · have hlenient : ∀ f ∈ callNames, (ofName f).isLenient = true → f ∈ functionNames := by decide
    obtain ⟨hconstant, hnumeric, -⟩ := callee?_of_mem_callNames w hcall
    obtain ⟨c, hc, hcn⟩ := (Option.any_eq_true _ _).1 hnumeric
    have hname : ofName w = callee w c := by rw [ofName, hconstant, hc]
    have hw := hlenient w hcall
    rw [hname] at hw ⊢
    exact ⟨hcn, fun hl => Or.inr (Or.inl (hw hl))⟩

theorem within_function {f : Phrase} (hf : f.isFunction = true) (hus : f.undefinedNames ⊆ us)
    (h : ofPhrase f = some m) : m.Within us := by
  cases f with
  | name s =>
    rw [ofPhrase] at h
    cases h
    exact within_ofName (Or.inr (List.contains_iff_mem.1 hf))
  | undefined s =>
    rw [ofPhrase] at h
    cases h
    exact ⟨rfl, fun _ => Or.inl (hus (List.mem_singleton.2 rfl))⟩
  | _ => cases hf

end

mutual

/-- **What a closed phrase means has no names that nobody defined but those of the phrase.** -/
theorem ofPhrase_within {us : List String} : ∀ {p : Phrase} {m : Meaning}, p.isClosed = true →
    p.undefinedNames ⊆ us → ofPhrase p = some m → m.Within us
  | .integer _, _, _, _, h | .decimal _ _, _, _, _, h => by
    rw [ofPhrase] at h
    cases h
    exact Expr.within_of_nil rfl
  | .ellipsis, _, _, _, h => by
    rw [ofPhrase] at h
    cases h
    trivial
  | .name w, _, hclosed, _, h => by
    rw [ofPhrase] at h
    cases h
    exact within_ofName (Or.inl hclosed)
  | .tuple as, _, hclosed, hus, h => by
    rw [ofPhrase] at h
    obtain ⟨ms, hms, rfl⟩ := Option.map_eq_some_iff.1 h
    exact ofItems_within hclosed hus hms
  | .star a, _, _, _, h => by
    rw [ofPhrase] at h
    cases h
  | .sign s a, _, hclosed, hus, h => by
    obtain ⟨x, hx, hsigned⟩ := ofPhrase_sign h
    exact hsigned.within (ofPhrase_within (p := a) hclosed hus hx)
  | .binary op a b, _, hclosed, hus, h => by
    rw [Phrase.isClosed, Bool.and_eq_true] at hclosed
    obtain ⟨ha, hb⟩ := List.append_subset.1 hus
    obtain ⟨x, y, e, hx, hy, he, rfl⟩ := ofPhrase_binary h
    exact he.within (ofPhrase_within hclosed.1 ha hx) (ofPhrase_within hclosed.2 hb hy)
  | .call f as, _, hclosed, hus, h => by
    rw [Phrase.isClosed, Bool.and_eq_true] at hclosed
    obtain ⟨hf, has⟩ := List.append_subset.1 hus
    obtain ⟨name, c, ms, hx, hms, happly⟩ := ofPhrase_call h
    have hcallee := (Bool.or_eq_true_iff.1 hclosed.1).elim (fun hfunction => within_function hfunction hf hx)
      fun hclosed => ofPhrase_within hclosed hf hx
    exact (apply_cases hcallee.1 happly).within hcallee (ofItems_within hclosed.2 has hms)
  | .undefined _, _, hclosed, _, _ | .truth _, _, hclosed, _, _ | .nothing, _, hclosed, _, _
  | .not _, _, hclosed, _, _ | .and _ _, _, hclosed, _, _ | .or _ _, _, hclosed, _, _
  | .conditional _ _ _, _, hclosed, _, _ => by cases hclosed

theorem ofItems_within {us : List String} : ∀ {ps : List Phrase} {ms : List Meaning}, Phrase.allClosed ps = true →
    Phrase.allUndefinedNames ps ⊆ us → ofItems ps = some ms → AllWithin us ms
  | [], _, _, _, h => by
    rw [ofItems] at h
    cases h
    trivial
  | p :: ps, _, hclosed, hus, h => by
    rw [Phrase.allClosed, Bool.and_eq_true] at hclosed
    obtain ⟨hp, hps⟩ := List.append_subset.1 hus
    obtain ⟨rest, hrest, ⟨x, hx, rfl⟩ | ⟨a, items, rfl, ha, rfl⟩⟩ := ofItems_cons h
    · exact ⟨ofPhrase_within hclosed.1 hp hx, ofItems_within hclosed.2 hps hrest⟩
    · exact AllWithin.append (ofPhrase_within (p := a) hclosed.1 hp ha) (ofItems_within hclosed.2 hps hrest)

end

end Meaning

/-! ## Formulas -/

/-- **The names that nobody defined in what a text means** have an underscore, and stand in the text. -/
theorem undefinedNames_of_exprOf {t : List Char} {e : Expr} (hspelled : Spelled t) (hclean : Clean t)
    (h : exprOf t = .ok e) : ∀ u ∈ e.undefinedNames,
      u ∈ functionNames ∨ u = "tuple" ∨ '_' ∈ u.toList ∧ u.toList <:+: t := by
  obtain ⟨ts, p, hts, hp, hmeaning⟩ := exists_phrase_of_exprOf h
  have hnamed := (Token.tokens_named ⟨hspelled, hclean⟩ hts).1
  have hwithin := Meaning.ofPhrase_within (Phrase.ofTokens_isClosed hnamed hp) (List.Subset.refl _) hmeaning
  intro u hu
  rcases hwithin u hu with hphrase | hfunction | htuple
  · have htoken := Phrase.undefinedNames_of_ofTokens hp u hphrase
    exact Or.inr (Or.inr (Token.undefined_of_tokens ⟨hspelled, hclean⟩ hts htoken))
  · exact Or.inl hfunction
  · exact Or.inr (Or.inl htuple)

/-- What a normalized text calls, accepted or not, is a function of the vocabulary or has an underscore. -/
theorem mem_functionNames_of_calls {t : List Char} {name : String} (hname : Calls (explicit (trim t)) name.toList) :
    name ∈ functionNames ∨ '_' ∈ name.toList := by
  by_cases hunderscore : '_' ∈ name.toList
  · exact Or.inr hunderscore
  · obtain ⟨g, hg, heq⟩ := (spelled_explicit (trim t)).called hname hunderscore
    exact Or.inl (String.toList_inj.1 heq ▸ hg)

/-- **An accepted text calls functions of the vocabulary only, unless it has an underscore.**  Every name that stands
before a parenthesis in the text of a formula is one of them or has an underscore, and what has no value in the
formula is a call of one of them, a tuple, or a function whose name has an underscore and stands in the text.  No
other name stands before a parenthesis even where the text is refused, once its products are written out. -/
theorem parse_calls (mode : Except String Mode) (latex : Bool) (raw : String) :
    (∀ s, rightHandSide (if latex then latexToPlain raw else raw) = .ok s →
      ∀ name : String, Calls (explicitProducts s).toList name.toList → name ∈ functionNames ∨ '_' ∈ name.toList) ∧
    ∀ f, parse mode latex raw = .ok f →
      (∀ name : String, Calls f.text.toList name.toList → name ∈ functionNames ∨ '_' ∈ name.toList) ∧
      (∀ u ∈ f.expr.undefinedNames,
        u ∈ functionNames ∨ u = "tuple" ∨ '_' ∈ u.toList ∧ u.toList <:+: f.text.toList) ∧
      ('_' ∉ f.text.toList → (∀ name : String, Calls f.text.toList name.toList → name ∈ functionNames) ∧
        ∀ u ∈ f.expr.undefinedNames, u ∈ functionNames ∨ u = "tuple") := by
  refine ⟨fun s hside name hname => ?_, fun f hparse => ?_⟩
  · obtain ⟨u, hu, -⟩ := eq_trim_of_rightHandSide hside
    rw [explicitProducts, String.toList_ofList, hu] at hname
    exact mem_functionNames_of_calls hname
  obtain ⟨t, htext, -, hcompiles⟩ := exists_text_of_parse hparse
  have hundefined := undefinedNames_of_exprOf (spelled_explicit (trim t)) (clean_of_findForbidden hcompiles.allowed)
    hcompiles.expr
  rw [htext, String.toList_ofList]
  refine ⟨fun _ => mem_functionNames_of_calls, hundefined, fun hno => ⟨fun name hname => ?_, fun u hu => ?_⟩⟩
  · refine (mem_functionNames_of_calls hname).resolve_right fun hunderscore => hno ?_
    obtain ⟨l, blanks, r, hs, -⟩ := hname.stands
    rw [hs]
    exact List.mem_append_right _ (List.mem_append_left _ hunderscore)
  · rcases hundefined u hu with hfunction | htuple | ⟨hunderscore, hstands⟩
    · exact Or.inl hfunction
    · exact Or.inr htuple
    · exact absurd (hstands.mem hunderscore) hno

theorem parse_calls_nested :
    parse (.ok .real) false "x sin(pi y)" = .ok ⟨"x *sin(pi *y)", .real,
      .binary .mul (.var "x") (.apply (.elementary .sin) (.binary .mul (.constant .pi) (.var "y")))⟩ ∧
    ∀ name : String, Calls "x *sin(pi *y)".toList name.toList → name ∈ functionNames := by
  have hparse : parse (.ok .real) false "x sin(pi y)" = .ok ⟨"x *sin(pi *y)", .real,
      .binary .mul (.var "x") (.apply (.elementary .sin) (.binary .mul (.constant .pi) (.var "y")))⟩ := by decide +kernel
  exact ⟨hparse, (((parse_calls _ _ _).2 _ hparse).2.2 (by decide)).1⟩

/-- **A function whose name has an underscore is called**, although nobody defined it. -/
theorem valid_undefined : valid (.ok .real) false "f_(x)" = .ok true ∧
    parse (.ok .real) false "f_(x)" = .ok ⟨"f_(x)", .real, .applied (.undefined "f_") (.var "x")⟩ ∧
    Calls "f_(x)".toList "f_".toList ∧ "f_" ∉ functionNames := by
  have hcalls : Calls "f_(x)".toList "f_".toList :=
    ⟨by decide, by decide, [], [], ['x', ')'], by decide, (fun c hc => by cases hc), fun c hc => by cases hc⟩
  exact ⟨by decide +kernel, by decide +kernel, hcalls, by decide⟩

end Heightfield.Formula
