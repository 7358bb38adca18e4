import Heightfield.Latex.Plain
import Heightfield.Proofs.Latex.Term
/-!
# Functions and groups of a term

The rules before groups replace control words.  A rule for one word passes over every other
(`Rule.ReadsWord`), so each function command of a term is replaced by its own rule and nothing else of the
term changes.  What remains are groups among inert text, which unwind (`Term.unwinds`).
-/
namespace Heightfield.Latex

open Lexeme (Placed Spelling)

/-! ## Rules for control words -/

/-- The rule applies only where a backslash stands. -/
def Rule.ReadsBackslash (rule : Rule) : Prop := ∀ c s, c ≠ '\\' → rule (c :: s) = none

theorem Rule.ReadsBackslash.turns_of_not_mem {rule : Rule} (h : rule.ReadsBackslash) {l : List Char} (hl : '\\' ∉ l) :
    rule.Turns l l :=
  .of_forall_mem fun c hc => .of_none fun rest => h c rest (by rintro rfl; exact hl hc)

/-- The rule applies only where a backslash stands before the word `w`. -/
structure Rule.ReadsWord (rule : Rule) (w : List Char) : Prop where
  readsBackslash : rule.ReadsBackslash
  eq_none_of_ne_word : ∀ v d r, (∀ c ∈ v, isLetter c = true) → isLetter d = false → v ≠ w →
    rule ('\\' :: (v ++ d :: r)) = none

theorem takeWhile_append_cons {p : Char → Bool} {v : List Char} (hv : ∀ c ∈ v, p c = true) {d : Char}
    (hd : p d = false) (r : List Char) : (v ++ d :: r).takeWhile p = v := by
  rw [List.takeWhile_append_of_pos hv, List.takeWhile_cons_of_neg (by rw [hd]; exact Bool.false_ne_true),
    List.append_nil]

theorem afterWord?_eq_none {w : String} (hw : ∀ c ∈ w.toList, isLetter c = true) {v : List Char}
    (hv : ∀ c ∈ v, isLetter c = true) {d : Char} (hd : isLetter d = false) (hne : v ≠ w.toList) (r : List Char) :
    afterWord? w ('\\' :: (v ++ d :: r)) = none := by
  rw [afterWord?]
  cases h : after? w.toList (v ++ d :: r) with
  | none => rfl
  | some s =>
    have heq := eq_append_of_after? h
    cases s with
    | nil =>
      rw [List.append_nil] at heq
      have hd' := hw d (by rw [← heq]; simp)
      rw [hd] at hd'
      cases hd'
    | cons e s =>
      cases he : isLetter e with
      | true => rw [Option.bind_some]; exact if_pos he
      | false =>
        have hwords := congrArg (List.takeWhile isLetter) heq
        rw [takeWhile_append_cons hv hd, takeWhile_append_cons hw he] at hwords
        exact absurd hwords hne

theorem afterWord?_of_ne_backslash {w : String} {c : Char} (hc : c ≠ '\\') (s : List Char) :
    afterWord? w (c :: s) = none := by
  unfold afterWord?
  split
  · rename_i heq
    exact absurd (List.cons.inj heq).1 hc
  · rfl

theorem functionCommand_readsWord {word : String} (hw : ∀ c ∈ word.toList, isLetter c = true) (name : String) :
    Rule.ReadsWord (functionCommand word name) word.toList where
  readsBackslash c s hc := by rw [functionCommand, afterWord?_of_ne_backslash hc]; rfl
  eq_none_of_ne_word v d r hv hd hne := by rw [functionCommand, afterWord?_eq_none hw hv hd hne]; rfl

theorem letterCommand_readsWord {word : String} (hw : ∀ c ∈ word.toList, isLetter c = true) (name : String) :
    Rule.ReadsWord (letterCommand word name) word.toList where
  readsBackslash c s hc := by rw [letterCommand, afterWord?_of_ne_backslash hc]; rfl
  eq_none_of_ne_word v d r hv hd hne := by rw [letterCommand, afterWord?_eq_none hw hv hd hne]; rfl

theorem namedGroup_readsWord {word : String} (hw : ∀ c ∈ word.toList, isLetter c = true) :
    Rule.ReadsWord (namedGroup word) word.toList where
  readsBackslash c s hc := congrArg (Option.bind · _) (if_neg (Ne.symm hc))
  eq_none_of_ne_word v d r hv hd hne := by
    cases h : after? ('\\' :: word.toList ++ ['{']) ('\\' :: (v ++ d :: r)) with
    | none => rw [namedGroup, h]; rfl
    | some s =>
      have heq := eq_append_of_after? h
      rw [List.cons_append, List.cons_append, List.append_assoc] at heq
      have hwords := congrArg (List.takeWhile isLetter) (List.cons.inj heq).2
      rw [takeWhile_append_cons hv hd, List.singleton_append, takeWhile_append_cons hw (by decide)] at hwords
      exact absurd hwords hne

namespace Rule.ReadsWord

variable {rule : Rule} {w : List Char}

theorem turns_of_not_mem (h : rule.ReadsWord w) {l : List Char} (hl : '\\' ∉ l) : rule.Turns l l :=
  h.readsBackslash.turns_of_not_mem hl

/-- Such a rule passes over any other control word. -/
theorem turns_word (h : rule.ReadsWord w) {v : List Char} (hv : ∀ c ∈ v, isLetter c = true) (hne : v ≠ w) {d : Char}
    (hd : isLetter d = false) {l l' : List Char} (hl : rule.Turns (d :: l) l') :
    rule.Turns ('\\' :: (v ++ d :: l)) ('\\' :: (v ++ l')) := by
  have hslash : '\\' ∉ v := fun hmem => by cases hv _ hmem
  refine .cons_of_none (fun rest => ?_) ((h.turns_of_not_mem hslash).append hl)
  rw [List.append_assoc]
  exact h.eq_none_of_ne_word v d (l ++ rest) hv hd hne

end Rule.ReadsWord

/-! ## The words of a term -/

/-- The control words of a term besides its functions. -/
def structureWords : List (List Char) := ["frac", "sqrt", "left", "right", "cdot"].map String.toList

theorem isLetter_of_mem_structureWords : ∀ v ∈ structureWords, ∀ c ∈ v, isLetter c = true := by decide

theorem isLetter_of_mem_functionCommands : ∀ f ∈ functionCommands, ∀ c ∈ f.1.toList, isLetter c = true := by decide

theorem not_mem_structureWords : ∀ f ∈ functionCommands, f.1.toList ∉ structureWords := by decide

theorem functionCommands_eq_of_word_eq :
    ∀ f ∈ functionCommands, ∀ g ∈ functionCommands, f.1.toList = g.1.toList → f = g := by decide

theorem isAlphanumeric_of_mem_functionCommands :
    ∀ f ∈ functionCommands, ∀ c ∈ f.2.toList, isAlphanumeric c = true := by decide

theorem backslash_not_mem {l : List Char} (h : ∀ c ∈ l, isAlphanumeric c = true) : '\\' ∉ l := fun hmem => by
  cases h _ hmem

theorem Letter.backslash_not_mem (c : Letter) : '\\' ∉ [c.1] :=
  Latex.backslash_not_mem fun d hd => by
    rw [List.mem_singleton.1 hd]
    exact isAlphanumeric_of_isLetter c.2

theorem Numeral.backslash_not_mem (n : Numeral) : '\\' ∉ n.digits :=
  Latex.backslash_not_mem fun d hd => isAlphanumeric_of_isDigit (n.isDigit_of_mem d hd)

theorem GroupMark.mem_plain (g : GroupMark) : ∀ c ∈ g.plain, isAlphanumeric c = true ∨ c ∈ ['(', ')', '^', '/'] := by
  cases g with
  | nthClosing n =>
    intro c hc
    rcases List.mem_append.1 hc with hc | hc
    · exact (by decide : ∀ c ∈ ")^(1/(".toList, isAlphanumeric c = true ∨ c ∈ ['(', ')', '^', '/']) c hc
    · rcases List.mem_append.1 hc with hc | hc
      · exact Or.inl (isAlphanumeric_of_isDigit (n.isDigit_of_mem c hc))
      · exact (by decide : ∀ c ∈ ")))".toList, isAlphanumeric c = true ∨ c ∈ ['(', ')', '^', '/']) c hc
  | nthOpening n => exact (by decide : ∀ c ∈ "((".toList, isAlphanumeric c = true ∨ c ∈ ['(', ')', '^', '/'])
  | _ => decide

theorem GroupMark.backslash_not_mem_plain (g : GroupMark) : '\\' ∉ g.plain := fun hmem => by
  rcases g.mem_plain '\\' hmem with h | h
  · cases h
  · exact absurd h (by decide)

namespace Rule.ReadsWord

variable {rule : Rule} {w : List Char}

theorem turns_structure (h : rule.ReadsWord w) (hw : w ∉ structureWords) {v : List Char} (hv : v ∈ structureWords)
    {d : Char} (hd : isLetter d = false) {l : List Char} (hl : '\\' ∉ d :: l) :
    rule.Turns ('\\' :: (v ++ d :: l)) ('\\' :: (v ++ d :: l)) :=
  h.turns_word (isLetter_of_mem_structureWords v hv) (by rintro rfl; exact hw hv) hd (h.turns_of_not_mem hl)

theorem turns_opening (h : rule.ReadsWord w) (hw : w ∉ structureWords) :
    rule.Turns "\\left(".toList "\\left(".toList :=
  h.turns_structure hw (v := "left".toList) (by decide) (d := '(') rfl (by decide)

theorem turns_closing (h : rule.ReadsWord w) (hw : w ∉ structureWords) :
    rule.Turns "\\right)".toList "\\right)".toList :=
  h.turns_structure hw (v := "right".toList) (by decide) (d := ')') rfl (by decide)

theorem turns_sign (h : rule.ReadsWord w) (hw : w ∉ structureWords) (s : Sign) : rule.Turns s.latex s.latex := by
  cases s with
  | plus => exact h.turns_of_not_mem (by decide)
  | minus => exact h.turns_of_not_mem (by decide)
  | dot =>
    exact (h.turns_of_not_mem (l := [' ']) (by decide)).append
      (h.turns_structure hw (v := "cdot".toList) (by decide) (d := ' ') rfl (by decide))

theorem turns_mark (h : rule.ReadsWord w) (hw : w ∉ structureWords) (g : GroupMark) : rule.Turns g.latex g.latex := by
  cases g with
  | fractionOpening =>
    exact h.turns_structure hw (v := "frac".toList) (by decide) (d := '{') rfl (by decide)
  | rootOpening =>
    exact h.turns_structure hw (v := "sqrt".toList) (by decide) (d := '{') rfl (by decide)
  | nthOpening n =>
    refine h.turns_structure hw (v := "sqrt".toList) (by decide) (d := '[')
      (l := n.digits ++ "]\x7b".toList) rfl ?_
    exact List.not_mem_cons_of_ne_of_not_mem (by decide) (List.not_mem_append n.backslash_not_mem (by decide))
  | exponentOpening => exact h.turns_of_not_mem (l := "^\x7b".toList) (by decide)
  | fractionBar => exact h.turns_of_not_mem (l := "\x7d\x7b".toList) (by decide)
  | fractionClosing | rootClosing | nthClosing _ | exponentClosing =>
    exact h.turns_of_not_mem (l := "\x7d".toList) (by decide)

end Rule.ReadsWord

/-! ## The rules before groups -/

namespace Lexeme.Spelling

/-- The functions in `done` are written with their names, the others as commands. -/
def named (done : List (String × String)) : Spelling where
  name f := if f.1 ∈ done then f.1.2.toList else '\\' :: f.1.1.toList
  mark := GroupMark.latex
  opening := "\\left(".toList
  closing := "\\right)".toList
  sign := Sign.latex

/-- All functions are written with their names. -/
def opened : Spelling := { latex with name := plain.name }

theorem named_nil : named [] = latex := rfl

theorem named_functionCommands : named functionCommands = opened := by
  unfold named opened
  congr 1
  funext f
  exact if_pos f.2

end Lexeme.Spelling

theorem functionCommand_turns {word : String} (name : String) {d : Char} (hletter : isLetter d = false)
    (hblank : isBlank d = false) {l l' : List Char} (h : (functionCommand word name).Turns (d :: l) l') :
    (functionCommand word name).Turns ('\\' :: word.toList ++ d :: l) (name.toList ++ l') := fun rest => by
  have hfires : functionCommand word name ('\\' :: word.toList ++ d :: l ++ rest) = some (name.toList, d :: l ++ rest) := by
    rw [functionCommand, List.cons_append, List.cons_append, afterWord?, List.append_assoc, after?_append,
      Option.bind_some]
    simp only [List.cons_append, hletter, Bool.false_eq_true, if_false, Option.map_some, trimLeft_cons hblank]
  rw [substitute_of_some hfires (by simp only [List.length_append, List.length_cons]; omega), h rest, List.append_assoc]

/-- Each of these rules writes one function with its name. -/
theorem functionCommand_turns_text {c : String × String} (hc : c ∈ functionCommands) (done : List (String × String))
    (x : Lexeme) : (functionCommand c.1 c.2).Turns (x.text (.named done)) (x.text (.named (done ++ [c]))) := by
  have h := functionCommand_readsWord (isLetter_of_mem_functionCommands c hc) c.2
  have hw := not_mem_structureWords c hc
  cases x with
  | letter d => exact h.turns_of_not_mem d.backslash_not_mem
  | number n => exact h.turns_of_not_mem n.backslash_not_mem
  | mark g => exact h.turns_mark hw g
  | opening => exact h.turns_opening hw
  | closing => exact h.turns_closing hw
  | sign s => exact h.turns_sign hw s
  | call f =>
    simp only [Lexeme.text, Spelling.named, List.mem_append, List.mem_singleton]
    by_cases hdone : f.1 ∈ done
    · rw [if_pos hdone, if_pos (Or.inl hdone)]
      exact (h.turns_of_not_mem (backslash_not_mem (isAlphanumeric_of_mem_functionCommands f.1 f.2))).append
        (h.turns_opening hw)
    · rw [if_neg hdone]
      by_cases hf : f.1 = c
      · rw [if_pos (Or.inr hf), hf]
        exact functionCommand_turns c.2 (d := '\\') rfl rfl (h.turns_opening hw)
      · rw [if_neg (by rintro (hmem | heq); exacts [hdone hmem, hf heq])]
        refine h.turns_word (isLetter_of_mem_functionCommands f.1 f.2) (fun heq => ?_) (d := '\\') rfl
          (h.turns_opening hw)
        exact hf (functionCommands_eq_of_word_eq f.1 f.2 c hc heq)

theorem substituteAll_functionCommands (t : Term) : ∀ {cs done : List (String × String)},
    (∀ c ∈ cs, c ∈ functionCommands) →
      substituteAll (cs.map fun f => functionCommand f.1 f.2) (t.text (.named done)) = t.text (.named (done ++ cs))
  | [], done, _ => by rw [List.append_nil]; rfl
  | c :: cs, done, h => by
    have hturns := Rule.Turns.flatMap (l := t.lexemes) fun x _ =>
      functionCommand_turns_text (h c List.mem_cons_self) done x
    rw [List.map_cons, substituteAll_cons, Term.text, hturns.substitute_eq, ← Term.text,
      substituteAll_functionCommands t fun d hd => h d (List.mem_cons_of_mem c hd), List.append_assoc,
      List.singleton_append]

theorem namedGroup_turns_text {word : String} (hletters : ∀ c ∈ word.toList, isLetter c = true)
    (hw : word.toList ∉ structureWords) (hfun : ∀ f ∈ functionCommands, f.1.toList ≠ word.toList) (x : Lexeme) :
    (namedGroup word).Turns (x.text .latex) (x.text .latex) := by
  have h := namedGroup_readsWord hletters
  cases x with
  | letter d => exact h.turns_of_not_mem d.backslash_not_mem
  | number n => exact h.turns_of_not_mem n.backslash_not_mem
  | mark g => exact h.turns_mark hw g
  | opening => exact h.turns_opening hw
  | closing => exact h.turns_closing hw
  | sign s => exact h.turns_sign hw s
  | call f =>
    exact h.turns_word (isLetter_of_mem_functionCommands f.1 f.2) (hfun f.1 f.2) (d := '\\') rfl (h.turns_opening hw)

/-- **The rules before groups write all functions with their names**, and change nothing else. -/
theorem substituteAll_openingRules (t : Term) : substituteAll openingRules (t.text .latex) = t.text .opened := by
  have hgroups : substituteAll [namedGroup "operatorname", namedGroup "mathrm", namedGroup "text"] (t.text .latex) =
      t.text .latex := by
    refine substituteAll_eq_self fun rule hr => (Rule.Turns.flatMap fun x _ => ?_).substitute_eq
    simp only [List.mem_cons, List.not_mem_nil, or_false] at hr
    rcases hr with rfl | rfl | rfl <;>
      exact namedGroup_turns_text (by decide) (by decide) (by decide) x
  rw [openingRules, substituteAll_append, hgroups, ← Spelling.named_nil,
    substituteAll_functionCommands t fun c hc => hc, List.nil_append, Spelling.named_functionCommands]

/-! ## Groups -/

/-- Functions are written with their names and marks as in the dialect. -/
def Lexeme.Spelling.unwound : Spelling := { opened with mark := plain.mark }

theorem inert_of_isAlphanumeric {s : List Char} (h : ∀ c ∈ s, isAlphanumeric c = true) : Inert s :=
  .of_forall_mem fun c hc hmem => by
    have hnot : ∀ d ∈ ['\\', '^', '|', '{', '}'], isAlphanumeric d = false := by decide
    have hc := h c hc
    rw [hnot c hmem] at hc
    cases hc

theorem inert_word : ∀ v ∈ ["left(", "right)", "cdot "].map String.toList, Inert ('\\' :: v) := by
  intro v hv
  simp only [List.map_cons, List.map_nil, List.mem_cons, List.not_mem_nil, or_false] at hv
  have hnone : ∀ rule ∈ groupRules, ∀ rest, rule ('\\' :: (v ++ rest)) = none := fun rule hr rest => by
    simp only [groupRules, List.mem_cons, List.not_mem_nil, or_false] at hr
    rcases hv with rfl | rfl | rfl <;>
      rcases hr with rfl | rfl | rfl | rfl | rfl | rfl | rfl | rfl <;> rfl
  refine .cons (by decide) hnone (.of_forall_mem ?_)
  rcases hv with rfl | rfl | rfl <;> decide

theorem inert_opening : Inert "\\left(".toList := inert_word "left(".toList (by decide)

theorem inert_closing : Inert "\\right)".toList := inert_word "right)".toList (by decide)

theorem Sign.inert_latex (s : Sign) : Inert s.latex := by
  cases s with
  | plus => exact .of_forall_mem (by decide)
  | minus => exact .of_forall_mem (by decide)
  | dot => exact (Inert.of_forall_mem (s := [' ']) (by decide)).append (inert_word "cdot ".toList (by decide))

/-- **A term unwinds to itself with its groups written as in the dialect.** -/
theorem Term.unwinds (t : Term) : Unwinds (t.text .opened) (t.text .unwound) := by
  unfold text
  induction t with
  | letter c =>
    refine .inert (inert_of_isAlphanumeric fun d hd => ?_)
    have hd : d = c.1 := List.mem_singleton.1 hd
    rw [hd]
    exact isAlphanumeric_of_isLetter c.2
  | number n =>
    rw [lexemes, List.flatMap_singleton, List.flatMap_singleton]
    exact .inert (inert_of_isDigit n.isDigit_of_mem)
  | fraction a b iha ihb =>
    simp only [lexemes, List.flatMap_append, List.flatMap_cons, List.flatMap_nil, List.append_nil]
    exact .fraction iha ihb
  | squareRoot a ih =>
    simp only [lexemes, List.flatMap_append, List.flatMap_cons, List.flatMap_nil, List.append_nil]
    exact .wrap Wrapper.squareRoot_sound ih
  | nthRoot n a ih =>
    simp only [lexemes, List.flatMap_append, List.flatMap_cons, List.flatMap_nil, List.append_nil]
    exact .wrap (Wrapper.nthRoot_sound n.ne_nil n.isDigit_of_mem) ih
  | parenthesis a ih =>
    simp only [lexemes, List.flatMap_append, List.flatMap_cons, List.flatMap_nil, List.append_nil]
    exact .append (.inert inert_opening) (.append ih (.inert inert_closing))
  | power a b iha ihb =>
    simp only [lexemes, List.flatMap_append, List.flatMap_cons, List.flatMap_nil, List.append_nil]
    exact .append iha (.wrap Wrapper.exponent_sound ihb)
  | call f a ih =>
    simp only [lexemes, List.flatMap_append, List.flatMap_cons, List.flatMap_nil, List.append_nil]
    have hname : Inert f.1.2.toList := inert_of_isAlphanumeric (isAlphanumeric_of_mem_functionCommands f.1 f.2)
    exact .append (.inert (hname.append inert_opening)) (.append ih (.inert inert_closing))
  | binary s a b iha ihb =>
    simp only [lexemes, List.flatMap_append, List.flatMap_cons]
    exact .append iha (.append (.inert s.inert_latex) ihb)

/-- **Groups are taken apart in place.** -/
theorem ungroup_text (t : Term) : ungroup (t.text .opened) = t.text .unwound := ungroup_eq_of_unwinds t.unwinds

end Heightfield.Latex
