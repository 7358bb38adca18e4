import Heightfield.Proofs.Formula.Scan
/-!
# Written formulas belong to the dialect

The text of lexemes that take turns has characters of the dialect only (`Lexeme.mem_text`), and nothing in it
is forbidden (`Lexeme.clean_placed`).
-/
namespace Heightfield.Formula

open Lexeme (Placed Follows)

/-! ## The dialect -/

theorem foreign_eq_nil {s : List Char} (h : ∀ c ∈ s, isDialect c = true) : foreign s = [] := by
  have hfilter : s.filter (!isDialect ·) = [] := List.filter_eq_nil_iff.2 fun c hc => by rw [h c hc]; decide
  rw [foreign, hfilter]
  rfl

/-- Nothing forbidden begins anywhere in the text. -/
def Clean (s : List Char) : Prop := ∀ u, u <:+ s → forbidden? u = none

theorem findForbidden_eq_none : ∀ {s : List Char} (position : Nat), Clean s → findForbidden position s = none
  | [], _, _ => rfl
  | c :: s, position, h => by
    rw [findForbidden, h (c :: s) List.suffix_rfl]
    exact findForbidden_eq_none (position + 1) fun u hu => h u (hu.trans (List.suffix_cons c s))

theorem Clean.cons {c : Char} {s : List Char} (hc : forbidden? (c :: s) = none) (hs : Clean s) : Clean (c :: s) :=
  fun u hu => (List.suffix_cons_iff.1 hu).elim (fun heq => heq ▸ hc) (hs u)

theorem Clean.append {l s : List Char} (hl : ∀ c ∈ l, c ≠ '_' ∧ c ≠ '.') (hs : Clean s) : Clean (l ++ s) := by
  induction l with
  | nil => exact hs
  | cons c l ih =>
    obtain ⟨hunderscore, hpoint⟩ := hl c List.mem_cons_self
    refine .cons ?_ (ih fun d hd => hl d (List.mem_cons_of_mem c hd))
    unfold forbidden?
    split
    · rename_i heq
      exact absurd (List.cons.inj heq).1 hunderscore
    · rename_i heq
      exact absurd (List.cons.inj heq).1 hpoint
    · rfl

theorem ne_of_isAlphanumeric {c : Char} (h : isAlphanumeric c = true) : c ≠ '_' ∧ c ≠ '.' := by
  constructor <;>
  · rintro rfl
    cases h

/-- A point before something that is no name is not forbidden. -/
theorem Clean.point {s : List Char} (hs : Clean s) (h : ∀ c ∈ s.head?, isBlank c = false ∧ Token.isNameStart c = false) :
    Clean ('.' :: s) := by
  refine .cons ?_ hs
  cases s with
  | nil => rfl
  | cons c s =>
    obtain ⟨hblank, hname⟩ := h c rfl
    have hdrop : (c :: s).dropWhile isBlank = c :: s :=
      List.dropWhile_cons_of_neg (by rw [hblank]; exact Bool.false_ne_true)
    simp only [forbidden?, hdrop, hname, Bool.false_eq_true, if_false]

namespace Lexeme

/-- The characters of lexemes besides letters and digits. -/
def marks : List Char := ['.', '(', ')', ',', '+', '-', '*', '/', '^']

theorem mem_text (style : PowerStyle) (x : Lexeme) : ∀ c ∈ x.text style, isAlphanumeric c = true ∨ c ∈ marks := by
  intro c hc
  cases x with
  | integer n => exact Or.inl (isAlphanumeric_of_isDigit (n.isDigit_of_mem c hc))
  | decimal d =>
    rcases List.mem_append.1 hc with hc | hc
    · exact Or.inl (isAlphanumeric_of_isDigit (d.isDigit_of_mem c (List.mem_append_left _ hc)))
    · rcases List.mem_cons.1 hc with rfl | hc
      · exact Or.inr (by decide)
      · exact Or.inl (isAlphanumeric_of_isDigit (d.isDigit_of_mem c (List.mem_append_right _ hc)))
  | word w => exact Or.inl (isAlphanumeric_of_isLetter ((letters_of_mem_words w.1 w.2).2 c hc))
  | call f =>
    rcases List.mem_append.1 hc with hc | hc
    · have halphanumeric : ∀ f ∈ functionNames, ∀ c ∈ f.toList, isAlphanumeric c = true := by decide
      exact Or.inl (halphanumeric f.1 f.2 c hc)
    · exact Or.inr ((by decide : ∀ c ∈ ['('], c ∈ marks) c hc)
  | opening => exact Or.inr ((by decide : ∀ c ∈ ['('], c ∈ marks) c hc)
  | closing => exact Or.inr ((by decide : ∀ c ∈ [')'], c ∈ marks) c hc)
  | comma => exact Or.inr ((by decide : ∀ c ∈ [','], c ∈ marks) c hc)
  | minus => exact Or.inr ((by decide : ∀ c ∈ ['-'], c ∈ marks) c hc)
  | sign s =>
    have h : ∀ style s, ∀ c ∈ ArithmeticSign.text style s, c ∈ marks := by
      rintro (_ | _) (_ | _ | _ | _ | _) <;> decide
    exact Or.inr (h style s c hc)

theorem clean_append (style : PowerStyle) (x : Lexeme) {rest : List Char} (h : Follows (!x.ends) rest) (hrest : Clean rest) :
    Clean (x.text style ++ rest) := by
  by_cases hpoint : ∃ d, x = .decimal d
  · obtain ⟨d, rfl⟩ := hpoint
    have hdigits : ∀ c ∈ d.whole ++ d.fraction, c ≠ '_' ∧ c ≠ '.' := fun c hc =>
      ne_of_isAlphanumeric (isAlphanumeric_of_isDigit (d.isDigit_of_mem c hc))
    rw [text, DecimalLiteral.text, List.append_assoc, List.cons_append]
    refine .append (fun c hc => hdigits c (List.mem_append_left _ hc))
      (.point (.append (fun c hc => hdigits c (List.mem_append_right _ hc)) hrest) fun c hc => ?_)
    cases hf : d.fraction with
    | nil =>
      rw [hf] at hc
      exact (by decide : ∀ c ∈ stops, isBlank c = false ∧ Token.isNameStart c = false) c (h c hc)
    | cons e f =>
      rw [hf] at hc
      obtain rfl := Option.some.inj hc
      have he := d.isDigit_of_mem e (by rw [hf]; simp)
      refine ⟨isBlank_eq_false_of_isAlphanumeric (isAlphanumeric_of_isDigit he), ?_⟩
      rw [Token.isNameStart, isLetter_eq_false_of_isDigit he, decide_eq_false (ne_underscore_of_isDigit he)]
      rfl
  · refine .append (fun c hc => ?_) hrest
    cases x with
    | decimal d => exact absurd ⟨d, rfl⟩ hpoint
    | sign s =>
      have hall : ∀ style s, ∀ c ∈ ArithmeticSign.text style s, c ≠ '_' ∧ c ≠ '.' := by
        rintro (_ | _) (_ | _ | _ | _ | _) <;> decide
      exact hall style s c hc
    | call f =>
      have hall : ∀ f ∈ functionNames, ∀ c ∈ f.toList ++ ['('], c ≠ '_' ∧ c ≠ '.' := by decide
      exact hall f.1 f.2 c hc
    | word w => exact ne_of_isAlphanumeric (isAlphanumeric_of_isLetter ((letters_of_mem_words w.1 w.2).2 c hc))
    | integer n => exact ne_of_isAlphanumeric (isAlphanumeric_of_isDigit (n.isDigit_of_mem c hc))
    | opening => exact (by decide : ∀ c ∈ ['('], c ≠ '_' ∧ c ≠ '.') c hc
    | closing => exact (by decide : ∀ c ∈ [')'], c ≠ '_' ∧ c ≠ '.') c hc
    | comma => exact (by decide : ∀ c ∈ [','], c ≠ '_' ∧ c ≠ '.') c hc
    | minus => exact (by decide : ∀ c ∈ ['-'], c ≠ '_' ∧ c ≠ '.') c hc

theorem clean_placed (style : PowerStyle) : ∀ {xs : List Lexeme} {expected : Bool}, Placed expected xs →
    Clean (xs.flatMap (text style))
  | [], _, _ => fun u hu => by rw [List.suffix_nil.1 hu]; rfl
  | x :: xs, _, ⟨_, hxs⟩ => by
    rw [List.flatMap_cons]
    exact clean_append style x (follows style hxs) (clean_placed style hxs)

end Lexeme

end Heightfield.Formula
