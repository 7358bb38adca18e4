import Mathlib.Data.List.SplitBy
import Heightfield.Proofs.Formula.Scan
/-!
# Reading what was written

Tokens are read as a phrase at every level at which they are written (`Phrase.ReadsAt`).  The parentheses stand
where they do because of what a reader of some level does with the operators behind a phrase (`EndsAt`): it goes
on with those that bind tightly enough and leaves the others.
-/
namespace Heightfield.Formula

namespace Phrase

/-! ## What stands behind a phrase -/

/-- The end, a closing parenthesis, a comma or a sign that binds no tighter than `level`. -/
inductive EndsAt (level : Nat) : List Token → Prop where
  | nil : EndsAt level []
  | closing (rest : List Token) : EndsAt level (.mark .closing :: rest)
  | comma (rest : List Token) : EndsAt level (.mark .comma :: rest)
  | sign {s : ArithmeticSign} (h : s.level ≤ level) (rest : List Token) : EndsAt level (.mark s.mark :: rest)

theorem EndsAt.mono {level level' : Nat} (h : level ≤ level') {ts : List Token} : EndsAt level ts → EndsAt level' ts
  | .nil => .nil
  | .closing rest => .closing rest
  | .comma rest => .comma rest
  | .sign hs rest => .sign (Nat.le_trans hs h) rest

/-- The level at which the right operand of a sign is read. -/
def operandLevel : ArithmeticSign → Nat
  | .add | .sub => productLevel
  | .mul | .div => minusLevel
  | .pow => powerLevel

theorem operator?_mark (s : ArithmeticSign) : operator? s.mark = some (s.operator, s.level, operandLevel s) := by
  cases s <;> rfl

section
variable {fuel level own : Nat} {p : Phrase} {rest : List Token}

theorem following_nil : following (fuel + 1) level p [] = some (p, []) := by
  rw [following] <;> simp

theorem following_closing :
    following (fuel + 1) level p (.mark .closing :: rest) = some (p, .mark .closing :: rest) := by
  rw [following]
  · rfl
  · simp

theorem following_comma : following (fuel + 1) level p (.mark .comma :: rest) = some (p, .mark .comma :: rest) := by
  rw [following]
  · rfl
  · simp

theorem following_mark {s : ArithmeticSign} : following (fuel + 1) level p (.mark s.mark :: rest) =
    if s.level < level then some (p, .mark s.mark :: rest)
    else (expression fuel (operandLevel s) rest).bind fun r => following fuel level (binary s.operator p r.1) r.2 := by
  rw [following]
  · rw [operator?_mark]
  · cases s <;> simp [ArithmeticSign.mark]

/-- A sign that binds tightly enough is read with its right operand. -/
theorem following_sign {s : ArithmeticSign} (h : level ≤ s.level) :
    following (fuel + 1) level p (.mark s.mark :: rest) =
      (expression fuel (operandLevel s) rest).bind fun r => following fuel level (binary s.operator p r.1) r.2 := by
  rw [following_mark, if_neg (Nat.not_lt.2 h)]

/-- A reader of a tighter level leaves what is behind the phrase. -/
theorem following_of_endsAt (h : EndsAt own rest) (hlevel : own < level) :
    following (fuel + 1) level p rest = some (p, rest) := by
  cases h with
  | nil => exact following_nil
  | closing rest => exact following_closing
  | comma rest => exact following_comma
  | @sign s hs rest => rw [following_mark, if_pos (Nat.lt_of_le_of_lt hs hlevel)]

theorem following_opening : following (fuel + 1) level p (.mark .opening :: rest) =
    (operands fuel conditionalLevel rest).bind fun r => following fuel level (call p r.1) r.2 := by
  rw [following]

theorem item_cons {starred : Nat} {t : Token} (ht : t ≠ .mark .times) :
    item (fuel + 1) starred (t :: rest) = expression fuel conditionalLevel (t :: rest) := by
  rw [item]
  exact fun _ heq => ht (List.cons.inj heq).1

theorem group_cons {t : Token} (ht : t ≠ .mark .closing) (hp : p.isStar = false) {ts : List Token}
    (h : item fuel sumLevel (t :: ts) = some (p, .mark .closing :: rest)) :
    group (fuel + 1) (t :: ts) = some (p, rest) := by
  rw [group, h, Option.bind_some]
  · simp only [hp, Bool.false_eq_true, if_false]
  · exact fun _ heq => ht (List.cons.inj heq).1

theorem operands_last {starred : Nat} {t : Token} (ht : t ≠ .mark .closing) {ts : List Token}
    (h : item fuel starred (t :: ts) = some (p, .mark .closing :: rest)) :
    operands (fuel + 1) starred (t :: ts) = some ([p], rest) := by
  rw [operands, h, Option.bind_some]
  exact fun _ heq => ht (List.cons.inj heq).1

theorem operands_more {starred : Nat} {t : Token} (ht : t ≠ .mark .closing) {ts : List Token}
    (h : item fuel starred (t :: ts) = some (p, .mark .comma :: rest)) :
    operands (fuel + 1) starred (t :: ts) = (operands fuel starred rest).map fun r => (p :: r.1, r.2) := by
  rw [operands, h, Option.bind_some]
  exact fun _ heq => ht (List.cons.inj heq).1

end

/-! ## Tokens that read as a phrase -/

/-- The tokens, written where `level` is asked for, are read as the phrase, before whatever can stand there; `c`
units of fuel are spent. -/
structure ReadsAt (ts : List Token) (p : Phrase) (level : Nat) : Prop where
  head : ∀ t ∈ ts.head?, t ≠ .mark .closing ∧ t ≠ .mark .times
  reads : ∃ c, 0 < c ∧ c ≤ ts.length ∧ ∀ fuel reader rest, 4 * ts.length < fuel → reader ≤ powerLevel →
    reader ≤ level ∨ minusLevel ≤ level → EndsAt level rest →
      expression fuel reader (ts ++ rest) = following (fuel - c) reader p rest

/-- The levels at which trees are written. -/
def writtenLevels : List Nat := [sumLevel, productLevel, minusLevel, atomLevel]

namespace ReadsAt

variable {ts : List Token} {p : Phrase} {level : Nat}

theorem of_operand {t : Token} (ht : t ≠ .mark .closing ∧ t ≠ .mark .times)
    (h : ∀ fuel reader rest, operand (fuel + 1) reader (t :: rest) = some (p, rest)) : ReadsAt [t] p level where
  head u hu := by
    obtain rfl := Option.some.inj hu
    exact ht
  reads := by
    refine ⟨1, Nat.one_pos, Nat.le_refl 1, fun fuel reader rest hfuel _ _ _ => ?_⟩
    obtain ⟨fuel, rfl⟩ := Nat.exists_eq_add_of_le' (show 2 ≤ fuel by simp at hfuel; omega)
    rw [List.singleton_append, expression, h]
    rfl

theorem exists_cons (h : ReadsAt ts p level) : ∃ t us, ts = t :: us ∧ t ≠ .mark .closing ∧ t ≠ .mark .times := by
  obtain ⟨c, hpos, hc, -⟩ := h.reads
  obtain ⟨t, us, rfl⟩ := List.exists_cons_of_ne_nil (show ts ≠ [] by rintro rfl; simp at hc; omega)
  exact ⟨t, us, rfl, h.head t rfl⟩

/-- Before the end of an item the tokens are one. -/
theorem item_of_endsAt (h : ReadsAt ts p sumLevel) (fuel starred : Nat) {rest : List Token} (hrest : EndsAt 0 rest)
    (hfuel : 4 * ts.length + 1 < fuel) : item fuel starred (ts ++ rest) = some (p, rest) := by
  obtain ⟨c, hpos, hc, hreads⟩ := h.reads
  obtain ⟨fuel, rfl⟩ := Nat.exists_eq_add_of_le' (show 1 ≤ fuel by omega)
  have hexpr := hreads fuel conditionalLevel rest (by omega) (by decide) (Or.inl (by decide)) (hrest.mono (Nat.zero_le _))
  obtain ⟨n, hn⟩ := Nat.exists_eq_add_of_le' (show 1 ≤ fuel - c by omega)
  rw [hn] at hexpr
  obtain ⟨t, us, rfl, -, ht⟩ := h.exists_cons
  rw [List.cons_append] at hexpr ⊢
  rw [item_cons ht, hexpr, following_of_endsAt hrest (by decide)]

theorem parentheses (h : ReadsAt ts p sumLevel) (hp : p.isStar = false) :
    ReadsAt (.mark .opening :: (ts ++ [.mark .closing])) p level where
  head u hu := by
    obtain rfl := Option.some.inj hu
    exact ⟨by simp, by simp⟩
  reads := by
    refine ⟨1, Nat.one_pos, by simp, fun fuel reader rest hfuel _ _ _ => ?_⟩
    simp only [List.length_cons, List.length_append, List.length_nil] at hfuel
    obtain ⟨fuel, rfl⟩ := Nat.exists_eq_add_of_le' (show 3 ≤ fuel by omega)
    have hitem := h.item_of_endsAt fuel sumLevel (.closing rest) (by omega)
    have hgroup : group (fuel + 1) (ts ++ .mark .closing :: rest) = some (p, rest) := by
      obtain ⟨t, us, rfl, ht, -⟩ := h.exists_cons
      rw [List.cons_append] at hitem ⊢
      exact group_cons ht hp hitem
    have hoperand : operand (fuel + 2) reader (.mark .opening :: (ts ++ .mark .closing :: rest)) = some (p, rest) := by
      rw [operand, hgroup]
    rw [List.cons_append, List.append_assoc, List.singleton_append, expression, hoperand]
    rfl

theorem enclosed {own : Nat} {xs : List Lexeme} (hown : sumLevel ≤ own) (hp : p.isStar = false)
    (h : ∀ level ∈ writtenLevels, level ≤ own → ReadsAt (xs.flatMap Lexeme.tokens) p level) :
    ∀ level ∈ writtenLevels, ReadsAt ((Formula.enclosed own level xs).flatMap Lexeme.tokens) p level := by
  intro level hlevel
  unfold Formula.enclosed
  split
  · rw [List.flatMap_cons, List.flatMap_append]
    exact (h sumLevel (by decide) hown).parentheses hp
  · rename_i hle
    exact h level hlevel (Nat.not_lt.1 hle)

end ReadsAt

/-! ## Names -/

theorem isKeyword_of_mem_words : ∀ w ∈ words, isKeyword w = false := by decide

theorem isKeyword_of_mem_functionNames : ∀ f ∈ functionNames, isKeyword f = false := by decide

theorem ne_of_isKeyword {s w : String} (h : isKeyword s = false) (hw : isKeyword w = true) : s ≠ w := by
  rintro rfl
  rw [h] at hw
  cases hw

theorem ofWord_eq_name {s : String} (h : isKeyword s = false) : ofWord s = some (name s) := by
  rw [ofWord, if_neg (ne_of_isKeyword h rfl), if_neg (ne_of_isKeyword h rfl), if_neg (ne_of_isKeyword h rfl),
    if_neg (by rw [h]; exact Bool.false_ne_true)]

theorem operand_name {s : String} (h : isKeyword s = false) (fuel level : Nat) (rest : List Token) :
    operand (fuel + 1) level (.name s :: rest) = some (name s, rest) := by
  rw [operand]
  · rw [ofWord_eq_name h]
    rfl
  · exact ne_of_isKeyword h rfl

/-! ## Calls -/

/-- The tokens are read as the operands of a call, up to a closing parenthesis. -/
def ReadsOperands (ts : List Token) (ps : List Phrase) : Prop :=
  ∀ fuel rest, 4 * ts.length + 2 < fuel → operands fuel conditionalLevel (ts ++ .mark .closing :: rest) = some (ps, rest)

section
variable {ts us : List Token} {p : Phrase} {ps : List Phrase} {level : Nat}

theorem ReadsAt.last (h : ReadsAt ts p sumLevel) : ReadsOperands ts [p] := fun fuel rest hfuel => by
  obtain ⟨fuel, rfl⟩ := Nat.exists_eq_add_of_le' (show 1 ≤ fuel by omega)
  have hitem := h.item_of_endsAt fuel conditionalLevel (.closing rest) (by omega)
  obtain ⟨t, vs, rfl, ht, -⟩ := h.exists_cons
  exact operands_last ht hitem

theorem ReadsAt.more (h : ReadsAt ts p sumLevel) (hps : ReadsOperands us ps) :
    ReadsOperands (ts ++ .mark .comma :: us) (p :: ps) := fun fuel rest hfuel => by
  rw [List.length_append, List.length_cons] at hfuel
  obtain ⟨fuel, rfl⟩ := Nat.exists_eq_add_of_le' (show 1 ≤ fuel by omega)
  have hitem := h.item_of_endsAt fuel conditionalLevel (.comma (us ++ .mark .closing :: rest)) (by omega)
  obtain ⟨t, vs, rfl, ht, -⟩ := h.exists_cons
  rw [List.append_assoc, List.cons_append]
  refine (operands_more ht hitem).trans ?_
  rw [hps fuel rest (by omega)]
  rfl

/-- **A call is read with all its operands.** -/
theorem readsAt_call (f : FunctionName) (h : ReadsOperands ts ps) :
    ReadsAt (.name f.1 :: .mark .opening :: (ts ++ [.mark .closing])) (.call (.name f.1) ps) level where
  head u hu := by
    obtain rfl := Option.some.inj hu
    exact ⟨by simp, by simp⟩
  reads := by
    refine ⟨2, Nat.two_pos, by simp, fun fuel reader rest hfuel _ _ _ => ?_⟩
    simp only [List.length_cons, List.length_append, List.length_nil] at hfuel
    obtain ⟨fuel, rfl⟩ := Nat.exists_eq_add_of_le' (show 3 ≤ fuel by omega)
    have hoperands := h (fuel + 1) rest (by omega)
    have hoperand := operand_name (isKeyword_of_mem_functionNames f.1 f.2) (fuel + 1) reader
      (.mark .opening :: (ts ++ .mark .closing :: rest))
    simp only [List.cons_append, List.append_assoc, List.nil_append]
    rw [expression, hoperand, Option.bind_some]
    simp only
    rw [following_opening, hoperands]
    rfl

end

/-! ## Signs -/

section
variable {ts us : List Token} {p q : Phrase} {level : Nat}

theorem readsAt_minus (h : ReadsAt ts p minusLevel) (hlevel : level ≤ minusLevel) :
    ReadsAt (.mark .minus :: ts) (.sign .minus p) level where
  head u hu := by
    obtain rfl := Option.some.inj hu
    exact ⟨by simp, by simp⟩
  reads := by
    obtain ⟨c, hpos, hc, hreads⟩ := h.reads
    refine ⟨1, Nat.one_pos, by simp, fun fuel reader rest hfuel _ _ hrest => ?_⟩
    rw [List.length_cons] at hfuel
    obtain ⟨fuel, rfl⟩ := Nat.exists_eq_add_of_le' (show 2 ≤ fuel by omega)
    have hend := hrest.mono hlevel
    have hoperand : operand (fuel + 1) reader (.mark .minus :: (ts ++ rest)) = some (.sign .minus p, rest) := by
      obtain ⟨n, hn⟩ := Nat.exists_eq_add_of_le' (show 1 ≤ fuel - c by omega)
      rw [operand, hreads fuel powerLevel rest (by omega) (Nat.le_refl _) (Or.inr (Nat.le_refl _)) hend, hn,
        following_of_endsAt hend (by decide)]
      rfl
    rw [List.cons_append, expression, hoperand]
    rfl

theorem levels_of_mem_writtenLevels (s : ArithmeticSign) : ∀ level ∈ writtenLevels, level ≤ s.level →
    s.level ≤ s.leftLevel ∧ level ≤ s.rightLevel ∧ level < operandLevel s ∧
      (∀ reader ≤ powerLevel, reader ≤ level ∨ minusLevel ≤ level →
        reader ≤ s.level ∧ (reader ≤ s.leftLevel ∨ minusLevel ≤ s.leftLevel)) := by
  cases s <;> decide

theorem operandLevel_le (s : ArithmeticSign) : operandLevel s ≤ powerLevel ∧
    (operandLevel s ≤ s.rightLevel ∨ minusLevel ≤ s.rightLevel) := by
  cases s <;> decide

theorem readsAt_binary {s : ArithmeticSign} (h : ReadsAt ts p s.leftLevel) (h' : ReadsAt us q s.rightLevel)
    (hmem : level ∈ writtenLevels) (hlevel : level ≤ s.level) :
    ReadsAt (ts ++ .mark s.mark :: us) (.binary s.operator p q) level := by
  obtain ⟨c, hpos, hc, hreads⟩ := h.reads
  obtain ⟨c', hpos', hc', hreads'⟩ := h'.reads
  obtain ⟨hleft, hright, hoperand, hreader⟩ := levels_of_mem_writtenLevels s level hmem hlevel
  have hhead : (ts ++ .mark s.mark :: us).head? = ts.head? := by
    obtain ⟨t, vs, rfl, -, -⟩ := h.exists_cons
    rfl
  refine ⟨fun u hu => h.head u (hhead ▸ hu), c + 1, Nat.succ_pos c, ?_, fun fuel reader rest hfuel hpower hle hrest => ?_⟩
  · simp only [List.length_append, List.length_cons]
    omega
  simp only [List.length_append, List.length_cons] at hfuel
  obtain ⟨hown, hside⟩ := hreader reader hpower hle
  obtain ⟨n, hn⟩ := Nat.exists_eq_add_of_le' (show 1 ≤ fuel - c by omega)
  obtain ⟨m, hm⟩ := Nat.exists_eq_add_of_le' (show 1 ≤ n - c' by omega)
  calc expression fuel reader (ts ++ .mark s.mark :: us ++ rest)
      = expression fuel reader (ts ++ .mark s.mark :: (us ++ rest)) := by rw [List.append_assoc]; rfl
    _ = following (n + 1) reader p (.mark s.mark :: (us ++ rest)) := by
      rw [hreads fuel reader _ (by omega) hpower hside (.sign hleft _), hn]
    _ = (expression n (operandLevel s) (us ++ rest)).bind fun r =>
        following n reader (.binary s.operator p r.1) r.2 := following_sign hown
    _ = (following (m + 1) (operandLevel s) q rest).bind fun r =>
        following n reader (.binary s.operator p r.1) r.2 := by
      rw [hreads' n _ rest (by omega) (operandLevel_le s).1 (operandLevel_le s).2 (hrest.mono hright), hm]
    _ = following n reader (.binary s.operator p q) rest := by
      rw [following_of_endsAt hrest hoperand, Option.bind_some]
    _ = following (fuel - (c + 1)) reader (.binary s.operator p q) rest := by
      rw [show n = fuel - (c + 1) by omega]

end

/-! ## One line -/

theorem lines_eq_singleton {ts : List Token} (hne : ts ≠ []) (h : ∀ t ∈ ts, t ≠ .lineEnd) : lines ts = [ts] := by
  have hchain : ts.IsChain fun a b => (a ≠ .lineEnd && b ≠ .lineEnd) = true :=
    (List.pairwise_of_forall_mem_list fun a ha b hb => by simp [h a ha, h b hb]).isChain
  rw [lines, List.splitBy_of_isChain hne hchain, List.filter_singleton]
  obtain ⟨t, ts, rfl⟩ := List.exists_cons_of_ne_nil hne
  simp [h t List.mem_cons_self]

theorem ofTokens_of_readsAt {ts : List Token} {p : Phrase} (h : ReadsAt ts p sumLevel) (hp : p.isStar = false)
    (hline : ∀ t ∈ ts, t ≠ .lineEnd ∧ t ≠ .name "return") : ofTokens ts = some p := by
  obtain ⟨t, us, rfl, -, -⟩ := h.exists_cons
  have hitem : item (fuelFor (t :: us) - 1) sumLevel (t :: us) = some (p, []) := by
    have hread := h.item_of_endsAt (fuelFor (t :: us) - 1) sumLevel .nil (by unfold fuelFor; omega)
    rwa [List.append_nil] at hread
  have hitems : items (fuelFor (t :: us)) (t :: us) = some ([p], false) := by
    rw [show fuelFor (t :: us) = fuelFor (t :: us) - 1 + 1 by unfold fuelFor; omega, items, hitem]
    rfl
  have hofLine : ofLine (t :: us) = some p := by
    unfold ofLine
    split
    · rename_i heq
      exact absurd (List.cons.inj heq).1 (hline t List.mem_cons_self).2
    · simp only [hitems]
  rw [ofTokens, lines_eq_singleton (List.cons_ne_nil t us) fun u hu => (hline u hu).1]
  simp [hofLine, hp]

end Phrase

end Heightfield.Formula
