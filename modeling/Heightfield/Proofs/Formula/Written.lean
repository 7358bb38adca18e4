import Heightfield.Proofs.Formula.Dialect
import Heightfield.Proofs.Formula.Explicit
import Heightfield.Proofs.Formula.Grammar
import Heightfield.Proofs.Formula.Text
/-!
# Lexemes that are read as an expression

Lexemes are written as an expression if they stand where they can and their tokens are a phrase that means the
expression (`Written`).  Their text is then compiled, and parsed, to the expression, whatever blanks are around it, unless
it has too long an integer (`Written.compile_eq`, `Written.parse_eq`).

Formulas are written from the leaves up: for each way to put formulas together there is one lemma, which says that the
lexemes of the whole are written as its expression, at every level, if those of the parts are (`WrittenAt`).
-/
namespace Heightfield.Formula

open Lexeme (Placed Follows)
open Phrase (ReadsAt ReadsOperands writtenLevels)

/-! ## One line -/

theorem Lexeme.tokens_inLine (x : Lexeme) : ∀ t ∈ x.tokens, t ≠ .lineEnd ∧ t ≠ .name "return" := by
  cases x with
  | word w =>
    have hall : ∀ w ∈ words, w ≠ "return" := by decide
    simp [tokens, hall w.1 w.2]
  | call f =>
    have hall : ∀ f ∈ functionNames, f ≠ "return" := by decide
    simp [tokens, hall f.1 f.2]
  | _ => simp [tokens]

/-! ## Texts -/

namespace Lexeme

variable {style : PowerStyle} {xs : List Lexeme}

theorem mem_flatMap_text {c : Char} (hc : c ∈ xs.flatMap (text style)) : isAlphanumeric c = true ∨ c ∈ marks := by
  obtain ⟨x, -, hx⟩ := List.mem_flatMap.1 hc
  exact x.mem_text style c hx

theorem isDialect_of_mem_flatMap : ∀ c ∈ xs.flatMap (text style), isDialect c = true := by
  intro c hc
  rcases mem_flatMap_text hc with h | h
  · rw [isDialect, h]
    rfl
  · exact (by decide : ∀ c ∈ marks, isDialect c = true) c h

theorem isBlank_of_mem_flatMap : ∀ c ∈ xs.flatMap (text style), isBlank c = false := by
  intro c hc
  rcases mem_flatMap_text hc with h | h
  · exact isBlank_eq_false_of_isAlphanumeric h
  · exact (by decide : ∀ c ∈ marks, isBlank c = false) c h

theorem trim_flatMap_text {l r : List Char} (hl : ∀ c ∈ l, isBlank c = true) (hr : ∀ c ∈ r, isBlank c = true) :
    trim (l ++ (xs.flatMap (text style) ++ r)) = xs.flatMap (text style) :=
  trim_append hl hr (fun c hc => isBlank_of_mem_flatMap c (List.mem_of_mem_head? hc))
    (fun c hc => isBlank_of_mem_flatMap c (List.mem_of_mem_getLast? hc))

end Lexeme

/-- The lexemes stand where they can, and their tokens are a phrase that means the expression. -/
structure Written (xs : List Lexeme) (e : Expr) : Prop where
  placed : Placed true xs
  reads : ∃ p : Phrase, p.isStar = false ∧ ReadsAt (xs.flatMap Lexeme.tokens) p Phrase.sumLevel ∧
    Meaning.ofPhrase p = some (.expr e)

namespace Written

variable {xs : List Lexeme} {e : Expr} (h : Written xs e) (mode : Mode) (style : PowerStyle)
include h

/-- The text is read as the expression, unless it has too long an integer. -/
theorem exprOf_text : exprOf (xs.flatMap (Lexeme.text style)) =
    if xs.all Lexeme.isShort then .ok e else .error .malformed := by
  obtain ⟨p, hstar, hreads, hmeaning⟩ := h.reads
  unfold exprOf
  rw [tokens_flatMap style h.placed]
  cases xs.all Lexeme.isShort with
  | false => rfl
  | true =>
    have htokens : Phrase.ofTokens (xs.flatMap Lexeme.tokens) = some p :=
      Phrase.ofTokens_of_readsAt hreads hstar fun u hu => by
        obtain ⟨x, -, hx⟩ := List.mem_flatMap.1 hu
        exact x.tokens_inLine u hx
    rw [if_pos rfl, Option.bind_some, htokens, Option.bind_some, hmeaning]
    rfl

theorem text_ne_nil : xs.flatMap (Lexeme.text style) ≠ [] := by
  obtain ⟨c, r, hcons, -⟩ := Lexeme.follows style h.placed
  rw [hcons]
  exact List.cons_ne_nil c r

section
variable {l r : List Char} (hl : ∀ c ∈ l, isBlank c = true) (hr : ∀ c ∈ r, isBlank c = true)
include hl hr

/-- **The text is compiled to the expression, if the mode may have it**, whatever blanks are around it. -/
theorem compile_eq : compile (.ok mode) (String.ofList (l ++ (xs.flatMap (Lexeme.text style) ++ r))) =
    if xs.all Lexeme.isShort then
      (checked mode e).map fun e => ⟨String.ofList (xs.flatMap (Lexeme.text style)), mode, e⟩
    else .error .malformed := by
  have htrim : trim (String.ofList (l ++ (xs.flatMap (Lexeme.text style) ++ r))).toList =
      xs.flatMap (Lexeme.text style) := by
    rw [String.toList_ofList, Lexeme.trim_flatMap_text hl hr]
  have hallowed : findForbidden 0 (xs.flatMap (Lexeme.text style)) = none :=
    findForbidden_eq_none 0 (Lexeme.clean_placed style h.placed)
  have hdialect : foreign (xs.flatMap (Lexeme.text style)) = [] := foreign_eq_nil Lexeme.isDialect_of_mem_flatMap
  rw [compile_eq_of_allowed mode (by rw [htrim]; exact h.text_ne_nil style) (by rw [htrim]; exact hdialect)
    (by rw [htrim]; exact hallowed), htrim, h.exprOf_text]
  cases xs.all Lexeme.isShort <;> rfl

/-- **The text is parsed as it is compiled.**  It is no equation, and its products are written out. -/
theorem parse_eq : parse (.ok mode) false (String.ofList (l ++ (xs.flatMap (Lexeme.text style) ++ r))) =
    compile (.ok mode) (String.ofList (l ++ (xs.flatMap (Lexeme.text style) ++ r))) := by
  have htrim : trim (String.ofList (l ++ (xs.flatMap (Lexeme.text style) ++ r))).toList =
      xs.flatMap (Lexeme.text style) := by
    rw [String.toList_ofList, Lexeme.trim_flatMap_text hl hr]
  have hequals : '=' ∉ xs.flatMap (Lexeme.text style) := fun hmem =>
    absurd (Lexeme.isDialect_of_mem_flatMap '=' hmem) (by decide)
  have hside := rightHandSide_of_not_mem (htrim.symm ▸ hequals)
  have hexplicit : explicitProducts (String.ofList (xs.flatMap (Lexeme.text style))) =
      String.ofList (xs.flatMap (Lexeme.text style)) := by
    rw [explicitProducts, String.toList_ofList, Lexeme.explicit_flatMap style h.placed]
  rw [htrim] at hside
  rw [Formula.parse_eq mode hside, hexplicit, h.compile_eq mode style hl hr]
  · have hbare := h.compile_eq mode style (l := []) (r := []) (by simp) (by simp)
    rwa [List.nil_append, List.append_nil] at hbare
  · rw [hexplicit, String.toList_ofList]
    exact h.text_ne_nil style

end

end Written

/-! ## Meaning -/

namespace Meaning

theorem ofName_variable : ∀ v ∈ Mode.complex.permitted, ofName v = expr (.var v) := by
  have hnone : ∀ v ∈ Mode.complex.permitted, constant? v = none ∧ callee? v = none := by decide
  intro v hv
  rw [ofName, (hnone v hv).1, (hnone v hv).2]

theorem constant?_of_mem_functionNames : ∀ f ∈ functionNames, constant? f = none := by decide

theorem combined_expr (s : ArithmeticSign) (a b : Expr) :
    combined s.operator (expr a) (expr b) = some (.binary s.operation a b) := by
  cases s <;> rfl

theorem apply_unary {name : String} {c : Callee} {f : Function} (h : c.unary? = some f) (a : Expr) :
    apply name c [expr a] = some (expr (.apply f a)) := by
  cases c with
  | function g => obtain rfl := Option.some.inj h; rfl
  | lenient g => obtain rfl := Option.some.inj h; rfl
  | logarithm => obtain rfl := Option.some.inj h; rfl
  | root => obtain rfl := Option.some.inj h; rfl
  | _ => cases h

theorem ofItems_operand {p : Phrase} (hp : p.isStar = false) {m : Meaning} (h : ofPhrase p = some m) {ps : List Phrase}
    {ms : List Meaning} (hs : ofItems ps = some ms) : ofItems (p :: ps) = some (m :: ms) := by
  cases p with
  | star a => cases hp
  | _ => rw [ofItems, h, Option.bind_some, hs]; rfl; nofun

end Meaning

/-! ## From the leaves up -/

/-- Lexemes, for each level at which they may be asked for, that are written as the expression. -/
structure WrittenAt (xs : Nat → List Lexeme) (e : Expr) : Prop where
  placed : ∀ level ys, Placed true (xs level ++ ys) ↔ Placed false ys
  reads : ∃ p : Phrase, p.isStar = false ∧ (∀ level ∈ writtenLevels, ReadsAt ((xs level).flatMap Lexeme.tokens) p level) ∧
    Meaning.ofPhrase p = some (.expr e)

/-- Lexemes that are written as the operands of a call. -/
structure WrittenOperands (xs : List Lexeme) (es : List Expr) : Prop where
  placed : ∀ ys, Placed true (xs ++ ys) ↔ Placed false ys
  reads : ∃ ps : List Phrase, ReadsOperands (xs.flatMap Lexeme.tokens) ps ∧ Meaning.ofItems ps = some (es.map .expr)

namespace WrittenAt

variable {xs ys : Nat → List Lexeme} {a b e : Expr} {us : List Lexeme} {es : List Expr}

theorem written (h : WrittenAt xs e) : Written (xs Phrase.sumLevel) e where
  placed := by
    have hplaced := (h.placed Phrase.sumLevel []).2 rfl
    rwa [List.append_nil] at hplaced
  reads := by
    obtain ⟨p, hstar, hreads, hmeaning⟩ := h.reads
    exact ⟨p, hstar, hreads Phrase.sumLevel (by decide), hmeaning⟩

/-! ### Leaves -/

theorem of_operand {x : Lexeme} {p : Phrase} {t : Token} (hplaced : x.begins = true ∧ x.ends = true)
    (hstar : p.isStar = false) (htokens : x.tokens = [t]) (ht : t ≠ .mark .closing ∧ t ≠ .mark .times)
    (hoperand : ∀ fuel reader rest, Phrase.operand (fuel + 1) reader (t :: rest) = some (p, rest))
    (hmeaning : Meaning.ofPhrase p = some (.expr e)) : WrittenAt (fun _ => [x]) e where
  placed level ys := by simp [Placed, hplaced]
  reads := ⟨p, hstar, fun level _ => by simpa [htokens] using ReadsAt.of_operand ht hoperand, hmeaning⟩

theorem integer (n : IntegerLiteral) : WrittenAt (fun _ => [.integer n]) (.int n.value) :=
  of_operand (p := .integer n.value) ⟨rfl, rfl⟩ rfl rfl ⟨by simp, by simp⟩
    (fun fuel reader rest => by rw [Phrase.operand]) (by rw [Meaning.ofPhrase])

theorem decimal (d : DecimalLiteral) : WrittenAt (fun _ => [.decimal d]) (.decimal d.digits d.exponent) :=
  of_operand (p := .decimal d.digits d.exponent) ⟨rfl, rfl⟩ rfl rfl ⟨by simp, by simp⟩
    (fun fuel reader rest => by rw [Phrase.operand]) (by rw [Meaning.ofPhrase])

theorem word {w : String} (hw : w ∈ words) (h : Meaning.ofName w = .expr e) : WrittenAt (fun _ => [.word ⟨w, hw⟩]) e :=
  of_operand (p := .name w) ⟨rfl, rfl⟩ rfl rfl ⟨by simp, by simp⟩
    (Phrase.operand_name (Phrase.isKeyword_of_mem_words w hw)) (by rw [Meaning.ofPhrase, h])

theorem ofVariable {mode : Mode} (v : Variable mode) : WrittenAt (fun _ => [.word ⟨v.1, v.mem_words⟩]) (.var v.1) := by
  have hall : ∀ mode : Mode, ∀ v ∈ mode.permitted, v ∈ Mode.complex.permitted := by rintro (_ | _) <;> decide
  exact word v.mem_words (Meaning.ofName_variable v.1 (hall mode v.1 v.2))

/-! ### Signs and parentheses -/

theorem placed_enclosed {own level : Nat} (h : ∀ ys, Placed true (us ++ ys) ↔ Placed false ys) (ys : List Lexeme) :
    Placed true (enclosed own level us ++ ys) ↔ Placed false ys := by
  unfold enclosed
  split
  · simp [Placed, Lexeme.begins, Lexeme.ends, h]
  · exact h ys

theorem neg (h : WrittenAt xs a) :
    WrittenAt (fun level => enclosed minusLevel level (.minus :: xs minusLevel)) a.opposite where
  placed level := placed_enclosed fun ys => by simp [Placed, Lexeme.begins, Lexeme.ends, h.placed]
  reads := by
    obtain ⟨p, -, hreads, hmeaning⟩ := h.reads
    refine ⟨.sign .minus p, rfl, ReadsAt.enclosed (by decide) rfl fun level _ hlevel => ?_, ?_⟩
    · exact Phrase.readsAt_minus (hreads minusLevel (by decide)) hlevel
    · rw [Meaning.ofPhrase, hmeaning]
      rfl

theorem binary (s : ArithmeticSign) (h : WrittenAt xs a) (h' : WrittenAt ys b) :
    WrittenAt (fun level => enclosed s.level level (xs s.leftLevel ++ .sign s :: ys s.rightLevel))
      (.binary s.operation a b) where
  placed level := placed_enclosed fun us => by simp [Placed, Lexeme.begins, Lexeme.ends, h.placed, h'.placed]
  reads := by
    obtain ⟨p, -, hreads, hmeaning⟩ := h.reads
    obtain ⟨q, -, hreads', hmeaning'⟩ := h'.reads
    refine ⟨.binary s.operator p q, rfl, ReadsAt.enclosed (by cases s <;> decide) rfl fun level hmem hlevel => ?_, ?_⟩
    · rw [List.flatMap_append, List.flatMap_cons]
      exact Phrase.readsAt_binary (hreads s.leftLevel (by cases s <;> decide))
        (hreads' s.rightLevel (by cases s <;> decide)) hmem hlevel
    · rw [Meaning.ofPhrase, hmeaning, hmeaning', Option.bind_some, Option.bind_some, Meaning.combined_expr]
      rfl

theorem group (h : WrittenAt xs a) : WrittenAt (fun _ => .opening :: (xs Phrase.sumLevel ++ [.closing])) a where
  placed level ys := by simp [Placed, Lexeme.begins, Lexeme.ends, h.placed]
  reads := by
    obtain ⟨p, hstar, hreads, hmeaning⟩ := h.reads
    refine ⟨p, hstar, fun level _ => ?_, hmeaning⟩
    rw [List.flatMap_cons, List.flatMap_append]
    exact (hreads Phrase.sumLevel (by decide)).parentheses hstar

/-! ### Calls -/

theorem last (h : WrittenAt xs a) : WrittenOperands (xs Phrase.sumLevel) [a] where
  placed := h.placed Phrase.sumLevel
  reads := by
    obtain ⟨p, hstar, hreads, hmeaning⟩ := h.reads
    exact ⟨[p], (hreads Phrase.sumLevel (by decide)).last, Meaning.ofItems_operand hstar hmeaning rfl⟩

theorem more (h : WrittenAt xs a) (hs : WrittenOperands us es) :
    WrittenOperands (xs Phrase.sumLevel ++ .comma :: us) (a :: es) where
  placed ys := by simp [Placed, Lexeme.begins, Lexeme.ends, h.placed, hs.placed]
  reads := by
    obtain ⟨p, hstar, hreads, hmeaning⟩ := h.reads
    obtain ⟨ps, hps, hmeanings⟩ := hs.reads
    refine ⟨p :: ps, ?_, Meaning.ofItems_operand hstar hmeaning hmeanings⟩
    rw [List.flatMap_append, List.flatMap_cons]
    exact (hreads Phrase.sumLevel (by decide)).more hps

/-- **A call is written as what its callee makes of its operands.** -/
theorem call (f : FunctionName) {c : Callee} (hc : callee? f.1 = some c) (h : WrittenOperands us es)
    (happly : Meaning.apply f.1 c (es.map .expr) = some (.expr e)) :
    WrittenAt (fun _ => .call f :: (us ++ [.closing])) e where
  placed level ys := by simp [Placed, Lexeme.begins, Lexeme.ends, h.placed]
  reads := by
    obtain ⟨ps, hps, hmeanings⟩ := h.reads
    refine ⟨.call (.name f.1) ps, rfl, fun level _ => ?_, ?_⟩
    · rw [List.flatMap_cons, List.flatMap_append]
      exact Phrase.readsAt_call f hps
    · rw [Meaning.ofPhrase, Meaning.ofPhrase, Meaning.ofName, Meaning.constant?_of_mem_functionNames f.1 f.2, hc]
      simp only [Option.bind_some, hmeanings]
      exact happly

theorem unary (f : UnaryName) (h : WrittenAt xs a) :
    WrittenAt (fun _ => .call f.name :: (xs Phrase.sumLevel ++ [.closing])) (.apply f.function a) := by
  obtain ⟨c, hc, hunary⟩ := Option.bind_eq_some_iff.1 (Option.some_get f.2.2).symm
  exact call f.name hc h.last (Meaning.apply_unary hunary a)

end WrittenAt

end Heightfield.Formula
