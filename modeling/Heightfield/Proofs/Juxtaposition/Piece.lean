import Heightfield.Juxtaposition
/-!
# What the pieces of a text look like at their ends

Whether a product stands between two pieces depends only on the last character of the first and on
the first character of the second (`Piece.first_eq_ofChar`, `Piece.last_multiplies`): a call ends with
a parenthesis, and a constant ends, as it begins, with a letter.  So the rule for pieces is a rule for
characters, `juxtaposed`.
-/
namespace Heightfield
namespace Juxtaposition

/-! ## Two characters side by side -/

/-- Whether a product is meant when `b` is the next character after `a` that is no blank.  Two
digits are one number. -/
def juxtaposed (a b : Char) : Bool :=
  (isLetter a || isDigit a || a == ')') && (isLetter b || b == '(' || (isDigit b && !isDigit a))

namespace Kind

theorem isDigit_eq_decide (c : Char) : isDigit c = decide (ofChar c = .digit) := by
  unfold ofChar
  grind

theorem isLetter_eq_decide (c : Char) : isLetter c = decide (ofChar c = .letter) := by
  have hd := @isLetter_eq_false_of_isDigit c
  unfold ofChar
  grind

theorem opening_eq_decide (c : Char) : (c == '(') = decide (ofChar c = .opening) := by
  have hd : isDigit '(' = false := by decide
  have hl : isLetter '(' = false := by decide
  unfold ofChar
  grind

theorem closing_eq_decide (c : Char) : (c == ')') = decide (ofChar c = .closing) := by
  have hd : isDigit ')' = false := by decide
  have hl : isLetter ')' = false := by decide
  unfold ofChar
  grind

theorem ofChar_ne_constant (c : Char) : ofChar c ≠ .constant := by
  unfold ofChar
  grind

/-- The rule for kinds is the rule for characters. -/
theorem multiplies_ofChar (a b : Char) : (ofChar a).multiplies (ofChar b) = juxtaposed a b := by
  have ha := ofChar_ne_constant a
  simp only [juxtaposed, isDigit_eq_decide, isLetter_eq_decide, opening_eq_decide, closing_eq_decide]
  cases hk : ofChar a with
  | constant => exact absurd hk ha
  | _ => cases ofChar b <;> rfl

theorem constant_multiplies (k : Kind) : constant.multiplies k = letter.multiplies k := rfl

end Kind

theorem isBlank_eq_false_of_juxtaposed {a b : Char} (h : juxtaposed a b = true) :
    isBlank a = false ∧ isBlank b = false := by
  simp only [juxtaposed, Bool.and_eq_true, Bool.or_eq_true, beq_iff_eq] at h
  obtain ⟨ha, hb⟩ := h
  constructor
  · rcases ha with ha | rfl
    · exact isBlank_eq_false_of_isAlphanumeric (by simpa [isAlphanumeric] using ha)
    · decide
  · rcases hb with (hb | rfl) | hb
    · exact isBlank_eq_false_of_isAlphanumeric (by simp [isAlphanumeric, hb])
    · decide
    · exact isBlank_eq_false_of_isAlphanumeric (by simp [isAlphanumeric, hb.1])

/-! ## The names of the tables -/

theorem head_of_mem_functionNames {f : String} (hf : f ∈ functionNames) :
    ∃ c s, f.toList = c :: s ∧ isLetter c = true := by
  have h : ∀ f ∈ functionNames, f.toList.head?.any isLetter = true := by decide
  obtain ⟨c, hc, hl⟩ := (Option.any_eq_true _ _).1 (h f hf)
  obtain ⟨s, hs⟩ := List.head?_eq_some_iff.1 hc
  exact ⟨c, s, hs, hl⟩

theorem isAlphanumeric_of_mem_functionNames {f : String} (hf : f ∈ functionNames) :
    ∀ c ∈ f.toList, isAlphanumeric c = true := by
  have h : (functionNames.all fun f => f.toList.all isAlphanumeric) = true := by decide
  exact List.all_eq_true.1 (List.all_eq_true.1 h f hf)

theorem isLetter_of_mem_constantNames {k : String} (hk : k ∈ constantNames) :
    ∀ c ∈ k.toList, isLetter c = true := by
  have h : (constantNames.all fun k => k.toList.all isLetter) = true := by decide
  exact List.all_eq_true.1 (List.all_eq_true.1 h k hk)

namespace Piece

/-- The piece is one that a text is cut into. -/
def Recognised : Piece → Prop
  | call f => f ∈ functionNames
  | constant k => k ∈ constantNames
  | blank c => isBlank c = true
  | char c => isBlank c = false

/-- The piece is no blank. -/
def IsSolid (p : Piece) : Prop := ∀ c, p ≠ blank c

theorem blank_or_isSolid (p : Piece) : (∃ c, p = blank c) ∨ p.IsSolid := by
  cases p with
  | blank c => exact Or.inl ⟨c, rfl⟩
  | _ => exact Or.inr fun _ h => by cases h

variable {p : Piece}

theorem Recognised.text_ne_nil (h : p.Recognised) : p.text ≠ [] := by
  cases p with
  | constant k => exact List.length_pos_iff.1 (length_pos_of_mem_constantNames k h)
  | _ => simp [text]

theorem Recognised.isBlank_eq_false (h : p.Recognised) (hs : p.IsSolid) {c : Char} (hc : c ∈ p.text) :
    isBlank c = false := by
  cases p with
  | call f =>
    rcases List.mem_append.1 hc with hc | hc
    · exact isBlank_eq_false_of_isAlphanumeric (isAlphanumeric_of_mem_functionNames h c hc)
    · obtain rfl : c = '(' := List.mem_singleton.1 hc
      decide
  | constant k =>
    have hl := isLetter_of_mem_constantNames h c hc
    exact isBlank_eq_false_of_isAlphanumeric (by rw [isAlphanumeric, hl, Bool.true_or])
  | blank c => exact absurd rfl (hs c)
  | char d =>
    obtain rfl : c = d := List.mem_singleton.1 hc
    exact h

theorem ofChar_of_isLetter {c : Char} (h : isLetter c = true) : Kind.ofChar c = .letter := by
  simpa [Kind.isLetter_eq_decide] using h

/-- **A piece begins as its first character does.** -/
theorem first_eq_ofChar (h : p.Recognised) (hs : p.IsSolid) {b : Char} {t : List Char}
    (hb : p.text = b :: t) : p.first = Kind.ofChar b := by
  cases p with
  | call f =>
    obtain ⟨c, s, hf, hc⟩ := head_of_mem_functionNames h
    simp only [text, hf, List.cons_append, List.cons.injEq] at hb
    rw [first, ← hb.1, ofChar_of_isLetter hc]
  | constant k =>
    have hk : b ∈ k.toList := by rw [show k.toList = b :: t from hb]; exact List.mem_cons_self
    rw [first, ofChar_of_isLetter (isLetter_of_mem_constantNames h b hk)]
  | blank c => exact absurd rfl (hs c)
  | char c =>
    simp only [text, List.cons.injEq] at hb
    rw [first, hb.1]

/-- **A piece is multiplied by what follows as its last character is.** -/
theorem last_multiplies (h : p.Recognised) (hs : p.IsSolid) {a : Char} {u : List Char}
    (ha : p.text = u ++ [a]) (b : Char) : p.last.multiplies (Kind.ofChar b) = juxtaposed a b := by
  cases p with
  | call f =>
    obtain rfl : a = '(' := by simpa [text] using (congrArg List.getLast? ha).symm
    rw [← Kind.multiplies_ofChar]
    rfl
  | constant k =>
    have hk : a ∈ k.toList := by rw [show k.toList = u ++ [a] from ha]; simp
    have hl := ofChar_of_isLetter (isLetter_of_mem_constantNames h a hk)
    rw [← Kind.multiplies_ofChar, hl]
    exact Kind.constant_multiplies _
  | blank c => exact absurd rfl (hs c)
  | char c =>
    obtain rfl : a = c := by simpa [text] using (congrArg List.getLast? ha).symm
    exact Kind.multiplies_ofChar a b

end Piece

/-! ## The pieces of a text -/

theorem recognised_piece (c : Char) (s : List Char) : (piece c s).Recognised := by
  unfold piece
  split
  · assumption
  · rename_i hb
    split
    · next f hf => exact (eq_append_of_calledFunction? hf).1
    · split
      · next k hk => exact (eq_append_of_leadingConstant? hk).1
      · simpa [Piece.Recognised] using hb

theorem recognised_of_mem_pieces (s : List Char) : ∀ p ∈ pieces s, p.Recognised := by
  fun_induction pieces s with
  | case1 => intro p hp; cases hp
  | case2 c s ih =>
    intro p hp
    rcases List.mem_cons.1 hp with rfl | hp
    · exact recognised_piece c s
    · exact ih p hp

end Juxtaposition
end Heightfield
