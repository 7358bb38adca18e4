import Heightfield.Proofs.Juxtaposition.Repeat
import Heightfield.Proofs.Names.Report
/-!
# The text of a formula

A formula keeps the text that it was compiled from: a right-hand side, trimmed, with its products written out
(`exists_text_of_parse`).  Its characters are those of the dialect, so it is no equation, and parsed as plain text it gives
the formula again (`parse_text`).
-/
namespace Heightfield

/-! ## Right-hand sides -/

/-- A text that is no equation is its own right-hand side, once it is trimmed. -/
theorem rightHandSide_of_not_mem {s : String} (h : '=' ∉ trim s.toList) :
    rightHandSide s = .ok (String.ofList (trim s.toList)) := by
  have hdrop : (trim s.toList).dropWhile (· != '=') = [] := by
    refine List.dropWhile_eq_nil_iff.2 fun c hc => bne_iff_ne.2 ?_
    rintro rfl
    exact h hc
  simp only [rightHandSide, hdrop]

namespace Formula

open Juxtaposition

/-! ## What a compiled text is like -/

theorem isDialect_of_foreign {s : List Char} (h : foreign s = []) : ∀ c ∈ s, isDialect c = true := by
  have hinsert : ∀ (c : Char) (l : List Char), insertChar c l ≠ [] := by
    intro c l
    cases l with
    | nil => exact List.cons_ne_nil _ _
    | cons d ds =>
      rw [insertChar]
      split
      · exact List.cons_ne_nil _ _
      · split <;> exact List.cons_ne_nil _ _
  intro c hc
  cases hd : isDialect c with
  | true => rfl
  | false =>
    have hmem : c ∈ s.filter (!isDialect ·) := List.mem_filter.2 ⟨hc, by rw [hd]; rfl⟩
    obtain ⟨d, ds, hds⟩ := List.exists_cons_of_ne_nil (List.ne_nil_of_mem hmem)
    rw [foreign, hds, List.foldr_cons] at h
    exact absurd h (hinsert _ _)

theorem permitted_of_checked {mode : Mode} {e e' : Expr} (h : checked mode e = .ok e') :
    e' = e ∧ ∀ name ∈ e.freeVariables, name ∈ mode.permitted := by
  unfold checked at h
  dsimp only at h
  split at h
  · cases h
  split at h
  · cases h
  rename_i hinvalid
  split at h
  · cases h
  cases h
  rw [Bool.not_eq_true', Bool.not_eq_false, List.isEmpty_iff, List.filter_eq_nil_iff] at hinvalid
  refine ⟨rfl, fun name hname => ?_⟩
  have hcontains := hinvalid name hname
  rwa [Bool.not_eq_true', Bool.not_eq_false, List.contains_iff_mem] at hcontains

/-- The text passes every check of the mode, and means the expression. -/
structure Compiles (mode : Mode) (t : List Char) (e : Expr) : Prop where
  ne_nil : t ≠ []
  dialect : foreign t = []
  allowed : findForbidden 0 t = none
  expr : exprOf t = .ok e
  checked : checked mode e = .ok e

theorem compile_of_compiles {mode : Mode} {s : String} {e : Expr} (h : Compiles mode (trim s.toList) e) :
    compile (.ok mode) s = .ok ⟨String.ofList (trim s.toList), mode, e⟩ := by
  rw [compile_eq_of_allowed mode h.ne_nil h.dialect h.allowed, h.expr]
  change (Formula.checked mode e).map _ = _
  rw [h.checked]
  rfl

/-- **A formula is compiled just from a text that passes every check.** -/
theorem compiles_of_compile {mode : Except String Mode} {s : String} {f : Formula} (h : compile mode s = .ok f) :
    mode = .ok f.mode ∧ f.text = String.ofList (trim s.toList) ∧ Compiles f.mode (trim s.toList) f.expr := by
  unfold compile at h
  split at h
  · cases h
  dsimp only at h
  split at h
  · cases h
  rename_i mode hempty
  split at h
  · cases h
  rename_i hforeign
  split at h
  · cases h
  rename_i hallowed
  cases hexpr : exprOf (trim s.toList) with
  | error e =>
    rw [hexpr] at h
    cases h
  | ok e =>
    rw [hexpr] at h
    cases hchecked : Formula.checked mode e with
    | error e' =>
      simp only [bind, Except.bind, hchecked] at h
      cases h
    | ok e' =>
      simp only [bind, Except.bind, hchecked] at h
      obtain ⟨rfl, -⟩ := permitted_of_checked hchecked
      cases h
      refine ⟨rfl, rfl, ⟨?_, ?_, hallowed, hexpr, hchecked⟩⟩
      · simpa using hempty
      · simpa using hforeign

/-! ## Parsing the text again -/

/-- **The text of a formula is a trimmed text with its products written out.** -/
theorem exists_text_of_parse {mode : Except String Mode} {latex : Bool} {raw : String} {f : Formula}
    (h : parse mode latex raw = .ok f) : ∃ u, f.text = String.ofList (explicit (trim u)) ∧
      mode = .ok f.mode ∧ Compiles f.mode (explicit (trim u)) f.expr := by
  unfold parse at h
  dsimp only at h
  generalize (if latex then latexToPlain raw else raw) = plain at h
  split at h
  · cases h
  split at h
  · cases h
  rename_i s hside
  obtain ⟨u, hu, -⟩ := eq_trim_of_rightHandSide hside
  obtain ⟨hmode, htext, hcompiles⟩ := compiles_of_compile h
  have htrim : trim (explicitProducts s).toList = explicit (trim u) := by
    rw [← trim_explicit, ← hu]
    exact congrArg trim String.toList_ofList
  rw [htrim] at htext hcompiles
  exact ⟨u, htext, hmode, hcompiles⟩

theorem permitted_of_parse {mode : Except String Mode} {latex : Bool} {raw : String} {f : Formula}
    (h : parse mode latex raw = .ok f) : ∀ name ∈ f.freeVariables, name ∈ f.mode.permitted := by
  obtain ⟨u, -, -, hcompiles⟩ := exists_text_of_parse h
  exact (permitted_of_checked hcompiles.checked).2

/-- **A formula is parsed from its own text.** -/
theorem parse_text {mode : Except String Mode} {latex : Bool} {raw : String} {f : Formula}
    (h : parse mode latex raw = .ok f) : parse mode false f.text = .ok f := by
  obtain ⟨u, htext, rfl, hcompiles⟩ := exists_text_of_parse h
  have htrim : trim f.text.toList = explicit (trim u) := by rw [htext, String.toList_ofList, trim_explicit]
  have hequals : '=' ∉ trim f.text.toList := by
    intro hmem
    rw [htrim] at hmem
    exact absurd (isDialect_of_foreign hcompiles.dialect _ hmem) (by decide)
  have hside : rightHandSide f.text = .ok f.text := by
    rw [rightHandSide_of_not_mem hequals, htrim, htext]
  have hproducts : explicitProducts f.text = f.text := by
    rw [htext, explicitProducts, String.toList_ofList, explicit_explicit]
  have hcompile : compile (.ok f.mode) f.text = .ok f := by
    rw [← htrim] at hcompiles
    rw [compile_of_compiles hcompiles, htrim, ← htext]
  rw [parse_eq f.mode hside, hproducts, hcompile]
  rw [hproducts]
  intro hnil
  exact hcompiles.ne_nil (by rw [← htrim, hnil]; rfl)

end Formula

end Heightfield
