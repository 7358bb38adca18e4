import Heightfield.Proofs.Names.Report
/-!
# No function is an operand

A text that a user types has functions only where they are called, so what is wrong with it is never that a function
stands where a number should (`parse_ne_functionOperand`).  Hence a text without a formula has a fault of some kind, and
whether there is a formula can always be told.
-/
namespace Heightfield.Formula

open Juxtaposition

section
variable {t : List Char} {e : Expr}

/-- **No function stands where a number should** in what a spelled text means. -/
theorem hasBare_of_exprOf (hspelled : Spelled t) (hclean : Clean t) (h : exprOf t = .ok e) : e.hasBare = false := by
  obtain ⟨ts, p, hts, hp, hmeaning⟩ := exists_phrase_of_exprOf h
  have hnamed := (Token.tokens_named ⟨hspelled, hclean⟩ hts).1
  exact (Meaning.ofPhrase_names (Phrase.ofTokens_isClosed hnamed hp) hmeaning).hasFunction_eq

theorem kind?_of_exprOf {fault : FormulaError} (h : exprOf t = .error fault) : fault.kind? = some "SyntaxError" := by
  unfold exprOf at h
  split at h
  · cases h
    rfl
  · cases h
  · cases h
    rfl

theorem kind?_of_checked {mode : Mode} {fault : FormulaError} (hbare : e.hasBare = false) (h : checked mode e = .error fault) :
    ∃ kind, fault.kind? = some kind := by
  rw [checked_eq mode hbare] at h
  split at h
  · split at h
    · cases h
      exact ⟨_, rfl⟩
    · cases h
  · cases h
    exact ⟨_, rfl⟩

theorem kind?_of_compile {mode : Mode} {s : String} (hspelled : Spelled (trim s.toList)) {fault : FormulaError}
    (h : compile (.ok mode) s = .error fault) : ∃ kind, fault.kind? = some kind := by
  unfold compile at h
  simp only at h
  split at h
  · cases h
    exact ⟨_, rfl⟩
  split at h
  · cases h
    exact ⟨_, rfl⟩
  split at h
  · cases h
    exact ⟨_, rfl⟩
  rename_i hallowed
  cases hread : exprOf (trim s.toList) with
  | error fault' =>
    rw [hread] at h
    cases h
    exact ⟨_, kind?_of_exprOf hread⟩
  | ok e =>
    have hbare := hasBare_of_exprOf hspelled (clean_of_findForbidden hallowed) hread
    cases hchecked : checked mode e with
    | error fault' =>
      rw [hread] at h
      change (checked mode e >>= fun e => pure (⟨String.ofList (trim s.toList), mode, e⟩ : Formula)) = _ at h
      rw [hchecked] at h
      cases h
      exact kind?_of_checked hbare hchecked
    | ok e' =>
      rw [hread] at h
      change (checked mode e >>= fun e => pure (⟨String.ofList (trim s.toList), mode, e⟩ : Formula)) = _ at h
      rw [hchecked] at h
      cases h

end

section
variable {mode : Mode} {latex : Bool} {raw : String}

/-- **A text without a formula has a fault of some kind.** -/
theorem kind?_of_parse {fault : FormulaError} (h : parse (.ok mode) latex raw = .error fault) :
    ∃ kind, fault.kind? = some kind := by
  unfold parse at h
  simp only at h
  generalize (if latex then latexToPlain raw else raw) = plain at h
  cases hempty : (trim plain.toList).isEmpty with
  | true =>
    rw [hempty, if_pos rfl] at h
    cases h
    exact ⟨_, rfl⟩
  | false =>
    rw [hempty, if_neg Bool.false_ne_true] at h
    cases hside : rightHandSide plain with
    | error _ =>
      rw [hside] at h
      cases h
      exact ⟨_, rfl⟩
    | ok s =>
      rw [hside] at h
      obtain ⟨u, hu, -⟩ := eq_trim_of_rightHandSide hside
      refine kind?_of_compile ?_ h
      rw [explicitProducts, String.toList_ofList, hu, trim_explicit]
      exact spelled_explicit _

theorem parse_ne_functionOperand : parse (.ok mode) latex raw ≠ .error .functionOperand := fun h => by
  obtain ⟨kind, hkind⟩ := kind?_of_parse h
  cases hkind

/-- Whether there is a formula can always be told. -/
theorem valid_eq_ok : valid (.ok mode) latex raw = .ok (parse (.ok mode) latex raw).isOk := by
  unfold valid
  split
  · rename_i h
    rw [h]
    rfl
  · rename_i h
    exact absurd h parse_ne_functionOperand
  · rename_i h
    rw [h]
    rfl

end

end Heightfield.Formula
