import Heightfield.Proofs.Formula.Variables
import Heightfield.Proofs.Juxtaposition.Ends
import Heightfield.Proofs.Names.Meanings
/-!
# Which variables are reported

A text that reads as one expression is accepted just if its variables are those of the mode; otherwise every other
one is reported.  Its variables can be told from the text, before it is cut or read: they are the letters that stand
alone once the products are written out (`parse_variables`).
-/
namespace Heightfield.Formula

open Juxtaposition

/-! ## The text that is compiled -/

theorem clean_of_findForbidden : ∀ {s : List Char} {position : Nat}, findForbidden position s = none → Clean s
  | [], _, _ => fun u hu => by rw [List.suffix_nil.1 hu]; rfl
  | c :: s, position, h => by
    rw [findForbidden] at h
    cases hforbidden : forbidden? (c :: s) with
    | none =>
      rw [hforbidden] at h
      exact .cons hforbidden (clean_of_findForbidden h)
    | some t =>
      rw [hforbidden] at h
      cases h

/-- The right-hand side is a trimmed part of the text. -/
theorem eq_trim_of_rightHandSide {raw s : String} (h : rightHandSide raw = .ok s) :
    ∃ u, s.toList = trim u ∧ ∀ c ∈ u, c ∈ raw.toList := by
  unfold rightHandSide at h
  simp only at h
  split at h
  · cases h
    exact ⟨raw.toList, String.toList_ofList, fun c hc => hc⟩
  · rename_i d r hdrop
    split at h
    · cases h
    · cases h
      refine ⟨r, String.toList_ofList, fun c hc => mem_of_mem_trim ?_⟩
      have hsuffix := List.dropWhile_suffix (l := trim raw.toList) (· != '=')
      rw [hdrop] at hsuffix
      exact hsuffix.mem (List.mem_cons_of_mem d hc)

/-- The text reads as the expression: it has the characters of the dialect and nothing forbidden, and it is one line
that is cut into tokens, is a phrase, and means the expression. -/
structure ReadsAs (t : List Char) (e : Expr) : Prop where
  dialect : foreign t = []
  allowed : findForbidden 0 t = none
  oneLine : (Token.tokens t).all (!·.contains .lineEnd) = true
  expr : exprOf t = .ok e

/-- Whether the text has a call of `pow` with three operands. -/
def callsTriplePow (t : List Char) : Bool := ((Token.tokens t).bind Phrase.ofTokens).any Phrase.hasTriplePow

section
variable {t : List Char} {e : Expr}

theorem ReadsAs.exists_phrase (h : ReadsAs t e) : ∃ ts p, Token.tokens t = some ts ∧ (∀ u ∈ ts, u ≠ .lineEnd) ∧
    Phrase.ofTokens ts = some p ∧ Meaning.ofPhrase p = some (.expr e) := by
  obtain ⟨ts, p, hts, hp, hmeaning⟩ := exists_phrase_of_exprOf h.expr
  have hline := h.oneLine
  rw [hts, Option.all_some, Bool.not_eq_true', ← Bool.not_eq_true, List.contains_iff_mem] at hline
  exact ⟨ts, p, hts, fun u hu heq => hline (heq ▸ hu), hp, hmeaning⟩

/-- **What a plain text reads as has the text's variables.** -/
theorem ReadsAs.names_eq (h : ReadsAs t e) (hspelled : Spelled t) (hunderscore : '_' ∉ t)
    (hpow : callsTriplePow t = false) :
    e.hasBare = false ∧ ∀ v, v ∈ e.names ↔ ∃ c ∈ variableLetters t, v = String.singleton c := by
  obtain ⟨ts, p, hts, hline, hp, hmeaning⟩ := h.exists_phrase
  obtain ⟨hnamed, htokens⟩ := Token.tokens_named ⟨hspelled, clean_of_findForbidden h.allowed⟩ hts
  rw [callsTriplePow, hts, Option.bind_some, hp, Option.any_some] at hpow
  have hnames := Meaning.ofPhrase_names (Phrase.ofTokens_isClosed hnamed hp) hmeaning
  refine ⟨hnames.hasFunction_eq, fun v => (hnames.mem_iff hpow v).trans ?_⟩
  rw [Phrase.ofTokens_freeNames hnamed hline hp, htokens hunderscore, List.mem_map]
  exact exists_congr fun c => and_congr_right fun _ => eq_comm

/-! ## Compiling -/

theorem checked_eq (mode : Mode) (hbare : e.hasBare = false) : checked mode e =
    if e.freeVariables.all mode.permitted.contains then
      if e.hasLeadingNaN false then .error .malformed else .ok e
    else .error (.invalidVariables (e.freeVariables.filter (!mode.permitted.contains ·)) mode) := by
  have hempty : (e.freeVariables.filter (!mode.permitted.contains ·)).isEmpty =
      e.freeVariables.all mode.permitted.contains := by
    rw [Bool.eq_iff_iff, List.isEmpty_iff, List.filter_eq_nil_iff, List.all_eq_true]
    simp
  unfold checked
  simp only [hbare, hempty]
  cases e.freeVariables.all mode.permitted.contains <;> rfl

theorem ReadsAs.ne_nil (h : ReadsAs t e) : t ≠ [] := by
  rintro rfl
  obtain ⟨ts, p, hts, -, hp, -⟩ := h.exists_phrase
  cases hts
  cases hp

/-- A text of the dialect is compiled if it reads as an expression that the mode may have. -/
theorem compile_eq_of_allowed (mode : Mode) {s : String} (hne : trim s.toList ≠ []) (hdialect : foreign (trim s.toList) = [])
    (hallowed : findForbidden 0 (trim s.toList) = none) : compile (.ok mode) s =
      (exprOf (trim s.toList)).bind fun e => (checked mode e).map fun e => ⟨String.ofList (trim s.toList), mode, e⟩ := by
  unfold compile
  simp only [List.isEmpty_eq_false_iff.2 hne, hdialect, hallowed]
  rfl

theorem ReadsAs.compile_eq (mode : Mode) {s : String} (htrim : trim s.toList = s.toList) (h : ReadsAs s.toList e) :
    compile (.ok mode) s = (checked mode e).map fun e => ⟨s, mode, e⟩ := by
  rw [← htrim] at h
  rw [compile_eq_of_allowed mode h.ne_nil h.dialect h.allowed, h.expr, htrim, String.ofList_toList]
  rfl

theorem compile_eq (mode : Mode) {s : String} (htrim : trim s.toList = s.toList) (h : ReadsAs s.toList e)
    (hbare : e.hasBare = false) : compile (.ok mode) s =
      if e.freeVariables.all mode.permitted.contains then
        if e.hasLeadingNaN false then .error .malformed else .ok ⟨s, mode, e⟩
      else .error (.invalidVariables (e.freeVariables.filter (!mode.permitted.contains ·)) mode) := by
  rw [h.compile_eq mode htrim, checked_eq mode hbare]
  cases e.freeVariables.all mode.permitted.contains <;> cases e.hasLeadingNaN false <;> rfl

/-- What is parsed is the right-hand side, its products written out. -/
theorem parse_eq_compile (mode : Mode) (latex : Bool) {raw s : String}
    (hside : rightHandSide (if latex then latexToPlain raw else raw) = .ok s) (hne : (explicitProducts s).toList ≠ []) :
    parse (.ok mode) latex raw = compile (.ok mode) (explicitProducts s) := by
  unfold parse
  generalize (if latex then latexToPlain raw else raw) = plain at hside ⊢
  have htrim : (trim plain.toList).isEmpty = false := by
    rw [List.isEmpty_eq_false_iff]
    intro hempty
    unfold rightHandSide at hside
    simp only [hempty, List.dropWhile_nil] at hside
    cases hside
    exact hne (by decide +kernel)
  simp only [Bool.false_eq_true, if_false, htrim, hside]

theorem parse_eq (mode : Mode) {raw s : String} (hside : rightHandSide raw = .ok s)
    (hne : (explicitProducts s).toList ≠ []) : parse (.ok mode) false raw = compile (.ok mode) (explicitProducts s) :=
  parse_eq_compile mode false hside hne

end

/-! ## The report -/

/-- **The variables of a formula are the letters that stand alone in its text**, the constants apart, whatever calls
they are operands of: in either mode the formula is accepted with them, in increasing order, if they are permitted,
and otherwise those that are not are reported.  Only a call of `pow` with three operands can hide a variable, and
only a product that begins with what is not a number is refused though its variables are permitted. -/
theorem parse_variables {raw s : String} {e : Expr} (hunderscore : '_' ∉ raw.toList) (hside : rightHandSide raw = .ok s)
    (hreads : ReadsAs (explicitProducts s).toList e) (hpow : callsTriplePow (explicitProducts s).toList = false) :
    ∃ names : List String, names.Pairwise (· < ·) ∧
      (∀ v, v ∈ names ↔ ∃ c ∈ variableLetters (explicitProducts s).toList, v = String.singleton c) ∧
      ∀ mode : Mode, (⟨explicitProducts s, mode, e⟩ : Formula).freeVariables = names ∧
        parse (.ok mode) false raw =
          if names.all mode.permitted.contains then
            if e.hasLeadingNaN false then .error .malformed else .ok ⟨explicitProducts s, mode, e⟩
          else .error (.invalidVariables (names.filter (!mode.permitted.contains ·)) mode) := by
  obtain ⟨u, hu, hmem⟩ := eq_trim_of_rightHandSide hside
  have htext : (explicitProducts s).toList = explicit (trim u) := by
    rw [← hu]
    exact String.toList_ofList
  have htrim : trim (explicitProducts s).toList = (explicitProducts s).toList := by rw [htext, trim_explicit]
  have hspelled : Spelled (explicitProducts s).toList := by
    rw [htext]
    exact spelled_explicit _
  have hno : '_' ∉ (explicitProducts s).toList := by
    rw [htext]
    intro h
    rcases mem_explicit h with h | h
    · exact hunderscore (hmem _ (mem_of_mem_trim h))
    · cases h
  obtain ⟨hbare, hnames⟩ := hreads.names_eq hspelled hno hpow
  refine ⟨e.freeVariables, e.freeVariables_sorted, fun v => Expr.mem_freeVariables.trans (hnames v), fun mode => ⟨rfl, ?_⟩⟩
  rw [parse_eq mode hside hreads.ne_nil, compile_eq mode htrim hreads hbare]

/-- Twice `e` times the sine of a product. -/
def stray : Expr :=
  .binary .mul (.binary .mul (.int 2) (.constant .euler)) (.apply (.elementary .sin) (.binary .mul (.var "b") (.var "x")))

theorem readsAs_stray : ReadsAs (explicitProducts "2e sin(b x)").toList stray where
  dialect := by decide +kernel
  allowed := by decide +kernel
  oneLine := by decide +kernel
  expr := by decide +kernel

theorem parse_stray : '_' ∉ "z = 2e sin(b x)".toList ∧ rightHandSide "z = 2e sin(b x)" = .ok "2e sin(b x)" ∧
    ReadsAs (explicitProducts "2e sin(b x)").toList stray ∧ callsTriplePow (explicitProducts "2e sin(b x)").toList = false ∧
    parse (.ok .real) false "z = 2e sin(b x)" = .error (.invalidVariables ["b"] .real) := by
  have hunderscore : '_' ∉ "z = 2e sin(b x)".toList := by decide
  have hside : rightHandSide "z = 2e sin(b x)" = .ok "2e sin(b x)" := by decide +kernel
  have hpow : callsTriplePow (explicitProducts "2e sin(b x)").toList = false := by decide +kernel
  obtain ⟨names, -, -, hparse⟩ := parse_variables hunderscore hside readsAs_stray hpow
  obtain ⟨hnames, hreal⟩ := hparse .real
  obtain rfl : ["b", "x"] = names := Eq.trans (by decide +kernel) hnames
  exact ⟨hunderscore, hside, readsAs_stray, hpow, hreal⟩

/-- **A variable is hidden by a call of `pow` with three operands**: the formula is accepted, and the last operand is
no variable of it. -/
theorem parse_hidden : variableLetters (explicitProducts "pow(x,y,w)").toList = ['x', 'y', 'w'] ∧
    "w" ∉ Mode.real.permitted ∧
    parse (.ok .real) false "pow(x,y,w)" = .ok ⟨"pow(x,y,w)", .real, .binary .pow (.var "x") (.var "y")⟩ :=
  ⟨by decide +kernel, by decide, by decide +kernel⟩

end Heightfield.Formula
