import Heightfield.Formula.Compile
import Heightfield.Proofs.Juxtaposition.Seam
import Heightfield.Proofs.Latex.Conversion
/-!
# The converter on ordinary text

In a text without control words, braces, bars and dollar signs the converter finds nothing to do but to write
products.  It does so by five rules that look at two characters, or at a run of them before a parenthesis.  Each star
that they write stands at a seam, where the text is cut anyway (`plainText_starred`), so the formula that the text
stands for is the same with the converter and without it (`Formula.parse_of_ordinary`).
-/
namespace Heightfield

open Juxtaposition

namespace Latex

/-- The text is ASCII and has no character with which LaTeX marks anything, and no parenthesis follows a point. -/
structure Ordinary (s : List Char) : Prop where
  ascii : ∀ c ∈ s, c.toNat < 128
  unmarked : ∀ c ∈ s, c ∉ ['\\', '{', '}', '|', '$']
  noPoint : ¬['.', '('] <:+: s

theorem Ordinary.trim {s : List Char} (h : Ordinary s) : Ordinary (Heightfield.trim s) where
  ascii c hc := h.ascii c (mem_of_mem_trim hc)
  unmarked c hc := h.unmarked c (mem_of_mem_trim hc)
  noPoint hpoint := by
    obtain ⟨l, r, hs, -, -⟩ := exists_eq_append_trim s
    exact h.noPoint (hpoint.trans ⟨l, r, by rw [List.append_assoc, ← hs]⟩)

/-! ## Rules for two characters -/

theorem isDigit_of_isDecimalDigit {c : Char} (hc : c.toNat < 128) (h : isDecimalDigit c = true) : isDigit c = true := by
  rw [isDecimalDigit, digitValue?, Option.isSome_map] at h
  obtain ⟨z, hz⟩ := Option.isSome_iff_exists.1 h
  have hrange := List.find?_some hz
  rw [Bool.and_eq_true, decide_eq_true_eq, decide_eq_true_eq] at hrange
  -- the digits of other scripts are no ASCII characters
  have hzeros : ∀ z ∈ digitZeros, z = 0x30 ∨ 128 ≤ z := by decide
  rcases hzeros z (List.mem_of_find?_eq_some hz) with rfl | hle
  · rw [isDigit_iff]
    omega
  · omega

/-- On ASCII texts the rule writes a star between two characters that no name has side by side. -/
def Rule.PutsStars (rule : Rule) : Prop := ∀ s written rest, (∀ c ∈ s, c.toNat < 128) → rule s = some (written, rest) →
  ∃ a b, s = a :: b :: rest ∧ written = [a, '*', b] ∧ Parted a b

theorem Rule.PutsStars.starred {rule : Rule} (h : rule.PutsStars) {s : List Char} (hs : ∀ c ∈ s, c.toNat < 128)
    (w : List Char) : Starred (w ++ s) (w ++ substitute rule s) := by
  fun_induction substitute rule s generalizing w with
  | case1 => exact .refl _
  | case2 c s written rest hrule hlt ih =>
    obtain ⟨a, b, heq, rfl, hparted⟩ := h _ _ _ hs hrule
    have hput : StarPut (w ++ c :: s) (w ++ [a, '*', b] ++ rest) :=
      ⟨w, a, b, rest, by rw [heq], by simp, hparted.1, .of_parted hparted w rest⟩
    have hrest := ih (fun d hd => hs d (by rw [heq]; simp [hd])) (w ++ [a, '*', b])
    rw [List.append_assoc w _ (substitute rule rest)] at hrest
    exact .trans (Relation.ReflTransGen.single hput) hrest
  | case3 c s written rest hrule hlt ih =>
    have hrest := ih (fun d hd => hs d (List.mem_cons_of_mem c hd)) (w ++ [c])
    rwa [List.append_assoc, List.append_assoc] at hrest
  | case4 c s hrule ih =>
    have hrest := ih (fun d hd => hs d (List.mem_cons_of_mem c hd)) (w ++ [c])
    rwa [List.append_assoc, List.append_assoc] at hrest

theorem parted_of_isDigit {a b : Char} (ha : isDigit a = true) (hb : isLetter b = true) : Parted a b :=
  ⟨by simp [juxtaposed, ha, hb], Or.inr ⟨ha, hb⟩⟩

theorem parted_closing {b : Char} (hb : isLetter b = true ∨ isDigit b = true ∨ b = '(') : Parted ')' b := by
  refine ⟨?_, Or.inl rfl⟩
  rcases hb with hb | hb | rfl
  · simp [juxtaposed, hb]
  · simp [juxtaposed, hb, show isDigit ')' = false from rfl]
  · rfl

theorem digitLetter_putsStars : Rule.PutsStars digitLetter := by
  intro s written rest hs h
  match s, h with
  | a :: b :: s, h =>
    rw [digitLetter] at h
    split at h
    · rename_i hab
      rw [Bool.and_eq_true] at hab
      cases h
      exact ⟨a, b, rfl, rfl, parted_of_isDigit (isDigit_of_isDecimalDigit (hs a List.mem_cons_self) hab.1) hab.2⟩
    · cases h

theorem closingLetter_putsStars : Rule.PutsStars closingLetter := by
  intro s written rest hs h
  unfold closingLetter at h
  split at h
  · rename_i b s
    split at h
    · rename_i hb
      cases h
      exact ⟨')', b, rfl, rfl, parted_closing (Or.inl hb)⟩
    · cases h
  · cases h

theorem closingDigit_putsStars : Rule.PutsStars closingDigit := by
  intro s written rest hs h
  unfold closingDigit at h
  split at h
  · rename_i b s
    split at h
    · rename_i hb
      cases h
      have hdigit := isDigit_of_isDecimalDigit (hs b (by simp)) hb
      exact ⟨')', b, rfl, rfl, parted_closing (Or.inr (Or.inl hdigit))⟩
    · cases h
  · cases h

theorem closingOpening_putsStars : Rule.PutsStars (literal ")(" ")*(") := by
  intro s written rest _ h
  rw [literal, Option.map_eq_some_iff] at h
  obtain ⟨r, hr, heq⟩ := h
  cases heq
  exact ⟨')', '(', eq_append_of_after? hr, rfl, parted_closing (Or.inr (Or.inr rfl))⟩

/-! ## Runs before parentheses -/

/-- No function is named at the end of a text whose last run ends in none. -/
theorem not_suffix_of_endsInFunction {w run : List Char} (hw : ∀ c ∈ w.getLast?, isRunCharacter c = false)
    (hrun : endsInFunction run = false) : ∀ f ∈ functionNames, ¬f.toList <:+ w ++ run := by
  intro f hf hsuffix
  have hnot : ¬f.toList <:+ run := fun h => by
    have hany : endsInFunction run = true := List.any_eq_true.2 ⟨f, hf, List.isSuffixOf_iff_suffix.2 h⟩
    rw [hrun] at hany
    cases hany
  rcases List.suffix_or_suffix_of_suffix hsuffix (List.suffix_append w run) with h | ⟨x, hx⟩
  · exact hnot h
  · -- the name would begin within `w`, which ends with no character of a name
    rcases List.eq_nil_or_concat x with rfl | ⟨y, a, rfl⟩
    · rw [List.nil_append] at hx
      exact hnot (hx ▸ List.suffix_rfl)
    · rw [List.concat_eq_append] at hx
      obtain ⟨t, ht⟩ := hsuffix
      rw [← hx, ← List.append_assoc, ← List.append_assoc] at ht
      have hlast := hw a (by rw [← List.append_cancel_right ht, List.getLast?_concat]; rfl)
      rw [isRunCharacter, isAlphanumeric_of_mem_functionNames hf a (by rw [← hx]; simp)] at hlast
      cases hlast

/-- A run that ends in no function is multiplied with the parentheses behind it. -/
theorem starPut_opening {w run rest : List Char} (hne : run ≠ []) (hrun : ∀ c ∈ run, isRunCharacter c = true)
    (hpoint : ¬['.', '('] <:+: run ++ '(' :: rest) (hw : ∀ c ∈ w.getLast?, isRunCharacter c = false)
    (hfun : endsInFunction run = false) :
    StarPut (w ++ (run ++ '(' :: rest)) (w ++ run ++ ['*'] ++ '(' :: rest) := by
  obtain rfl | ⟨v, a, hva⟩ := List.eq_nil_or_concat run
  · exact absurd rfl hne
  rw [List.concat_eq_append] at hva
  have ha : isAlphanumeric a = true := by
    have h := hrun a (by rw [hva]; simp)
    rw [isRunCharacter, Bool.or_eq_true, decide_eq_true_eq] at h
    refine h.resolve_right ?_
    rintro rfl
    exact hpoint ⟨v, rest, by rw [hva]; simp⟩
  have hab : juxtaposed a '(' = true := by
    rw [isAlphanumeric, Bool.or_eq_true] at ha
    rcases ha with ha | ha <;> simp [juxtaposed, ha]
  have hseam : Seam (w ++ v ++ [a]) ('(' :: rest) := by
    rw [List.append_assoc, ← hva]
    exact .of_opening (not_suffix_of_endsInFunction hw hfun) rest
  exact ⟨w ++ v, a, '(', rest, by rw [hva]; simp, by rw [hva]; simp, hab, hseam⟩

/-- **The rule for runs puts its stars at seams.**  Here `w` is the text before, which ends in no run. -/
theorem runOpening_starred {s : List Char} (hs : ¬['.', '('] <:+: s) {w : List Char}
    (hw : ∀ c ∈ w.getLast?, isRunCharacter c = false) : Starred (w ++ s) (w ++ substitute runOpening s) := by
  rcases forall_or_exists_first isRunCharacter s with hall | ⟨run, c, rest, hsplit, hrun, hc⟩
  · rw [substitute_runOpening_run hall]
    exact .refl _
  have hlt : rest.length < s.length := by
    rw [hsplit, List.length_append, List.length_cons]
    omega
  rw [hsplit] at hs ⊢
  -- the rest comes behind a text that ends with a character of no run
  have htail : ∀ v : List Char, Starred (v ++ c :: rest) (v ++ c :: substitute runOpening rest) := fun v => by
    have hpoint : ¬['.', '('] <:+: rest := fun h => hs (h.trans ⟨run ++ [c], [], by simp⟩)
    have h := runOpening_starred hpoint (w := v ++ [c]) (by
      rw [List.getLast?_concat]
      exact fun d hd => by rwa [← Option.some.inj hd])
    rwa [List.append_assoc, List.append_assoc] at h
  by_cases hopening : c = '('
  · subst hopening
    rw [substitute_runOpening_append hrun]
    by_cases hstays : run = [] ∨ endsInFunction run = true
    · rw [if_pos hstays]
      simpa only [List.append_assoc, List.singleton_append] using htail (w ++ run)
    · obtain ⟨hne, hfun⟩ := not_or.1 hstays
      have hput := starPut_opening hne hrun hs hw (Bool.eq_false_iff.2 hfun)
      have h := Starred.trans (Relation.ReflTransGen.single hput) (htail (w ++ run ++ ['*']))
      rw [if_neg hstays]
      simpa only [List.append_assoc, List.singleton_append, List.cons_append, List.nil_append] using h
  · have hfollows : ∀ d ∈ (c :: rest).head?, isRunCharacter d = false ∧ d ≠ '(' := fun d hd => by
      obtain rfl := Option.some.inj hd
      exact ⟨hc, hopening⟩
    have hturn : substitute runOpening (c :: rest) = c :: substitute runOpening rest := runOpening_turns hc rest
    rw [substitute_runOpening hfollows hrun, hturn, ← List.append_assoc, ← List.append_assoc]
    exact htail (w ++ run)
termination_by s.length

/-! ## The rules for products -/

/-- The rules after groups that read a backslash. -/
def commandRules : List Rule :=
  [letterCommand "e" "e",
   operatorCommand "cdot" " * ", operatorCommand "times" " * ", operatorCommand "div" " / ",
   literal "\\left(" "(", literal "\\right)" ")",
   literal "\\left[" "(", literal "\\right]" ")",
   literal "\\left\\\x7b" "(", literal "\\right\\\x7d" ")",
   literal "\\," "", literal "\\;" "", literal "\\:" "", literal "\\!" "", literal "\\ " "",
   quadSpace]

/-- The rules after groups that write products. -/
def productRules : List Rule := [digitLetter, closingLetter, literal ")(" ")*(", runOpening, closingDigit]

/-- **The converter's rules for products put their stars at seams.** -/
theorem productRules_starred {s : List Char} (h : Ordinary s) : Starred s (substituteAll productRules s) := by
  have hascii : ∀ {t}, Starred s t → ∀ c ∈ t, c.toNat < 128 := fun ht c hc => by
    rcases ht.mem hc with hmem | rfl
    · exact h.ascii c hmem
    · decide
  have hpair : ∀ {t rule}, Rule.PutsStars rule → Starred s t → Starred s (substitute rule t) := fun hrule ht =>
    ht.trans (hrule.starred (hascii ht) [])
  have hthree := hpair closingOpening_putsStars (hpair closingLetter_putsStars (hpair digitLetter_putsStars (.refl s)))
  have hpoint := fun hmem => h.noPoint (hthree.infix_of_infix (by decide) (by decide) hmem)
  exact hpair closingDigit_putsStars (hthree.trans (runOpening_starred hpoint (w := []) nofun))

/-! ## The other rules -/

theorem operatorCommand_eq_none {t : List Char} (h : '\\' ∉ t) (word written : String) :
    operatorCommand word written t = none := by
  rw [operatorCommand]
  cases hr : after? ('\\' :: word.toList) (trimLeft t) with
  | none => rfl
  | some r =>
    have hmem : '\\' ∈ trimLeft t := by rw [eq_append_of_after? hr]; exact List.mem_cons_self
    exact absurd ((List.dropWhile_suffix isBlank).mem hmem) h

theorem substitute_operatorCommand_eq_self {s : List Char} (h : '\\' ∉ s) (word written : String) :
    substitute (operatorCommand word written) s = s :=
  substitute_eq_self fun _ ht => operatorCommand_eq_none (fun hmem => h (ht.mem hmem)) word written

/-- A caret begins a group only before a backslash or a brace. -/
theorem groupRule_caret {rule : Rule} (hr : rule ∈ groupRules) {s : List Char} (h : ∀ c ∈ s, c ∉ ['\\', '{']) :
    rule ('^' :: s) = none := by
  have hafter : ∀ {d p}, d ∈ ['\\', '{'] → after? ('^' :: d :: p) ('^' :: s) = none := fun {d p} hd => by
    rw [after?, if_pos rfl]
    cases s with
    | nil => rfl
    | cons c s =>
      refine if_neg ?_
      rintro rfl
      exact h d List.mem_cons_self hd
  simp only [groupRules, List.mem_cons, List.not_mem_nil, or_false] at hr
  rcases hr with rfl | rfl | rfl | rfl | rfl | rfl | rfl | rfl
  · rfl
  · rfl
  · rfl
  · rfl
  · rfl
  · exact congrArg (Option.bind · _) (hafter (by decide))
  · exact congrArg (Option.bind · _) (hafter (by decide))
  · exact congrArg (Option.bind · _) (hafter (by decide))

namespace Ordinary

variable {s : List Char}

theorem backslash_not_mem (h : Ordinary s) : '\\' ∉ s := fun hmem => h.unmarked _ hmem (by decide)

theorem substitute_readsBackslash (h : Ordinary s) {rule : Rule} (hrule : rule.ReadsBackslash) : substitute rule s = s :=
  (hrule.turns_of_not_mem h.backslash_not_mem).substitute_eq

theorem undelimited (h : Ordinary s) : Latex.undelimited s = Heightfield.trim s := by
  have hnone : ∀ d ∈ delimiters, between? d.1 d.2 (Heightfield.trim s) = none := fun d hd => by
    have hbegin : ∀ d ∈ delimiters, ∃ a p, d.1 = a :: p ∧ a ∈ ['\\', '$'] := by
      simp only [delimiters, List.forall_mem_cons, List.not_mem_nil, false_implies, implies_true, and_true]
      exact ⟨⟨_, _, rfl, by decide⟩, ⟨_, _, rfl, by decide⟩, ⟨_, _, rfl, by decide⟩, ⟨_, _, rfl, by decide⟩⟩
    obtain ⟨a, p, hap, ha⟩ := hbegin d hd
    refine between?_eq_none ?_
    cases hafter : after? d.1 (Heightfield.trim s) with
    | none => rfl
    | some r =>
      have hmem : a ∈ Heightfield.trim s := by rw [eq_append_of_after? hafter, hap]; exact List.mem_cons_self
      refine absurd ?_ (h.trim.unmarked a hmem)
      exact (by decide : ∀ a ∈ ['\\', '$'], a ∈ ['\\', '{', '}', '|', '$']) a ha
  have hfind : (delimiters.findSome? fun d => between? d.1 d.2 (Heightfield.trim s)) = none :=
    List.findSome?_eq_none_iff.2 hnone
  unfold Latex.undelimited
  simp only [hfind]

theorem substituteAll_openingRules (h : Ordinary s) : substituteAll openingRules s = s := by
  refine substituteAll_eq_self fun rule hr => h.substitute_readsBackslash ?_
  rw [openingRules, List.mem_append, List.mem_map] at hr
  rcases hr with hr | ⟨f, hf, rfl⟩
  · simp only [List.mem_cons, List.not_mem_nil, or_false] at hr
    rcases hr with rfl | rfl | rfl <;> exact (namedGroup_readsWord (by decide)).readsBackslash
  · exact (functionCommand_readsWord (isLetter_of_mem_functionCommands f hf) f.2).readsBackslash

theorem ungroup (h : Ordinary s) : Latex.ungroup s = s := by
  have hself : substituteAll groupRules s = s := substituteAll_eq_self fun rule hr => substitute_eq_self fun t ht => by
    have hmark : ∀ c ∈ t, c ∉ ['\\', '{', '}', '|', '$'] := fun c hc => h.unmarked c (ht.mem hc)
    cases t with
    | nil =>
      simp only [groupRules, List.mem_cons, List.not_mem_nil, or_false] at hr
      rcases hr with rfl | rfl | rfl | rfl | rfl | rfl | rfl | rfl <;> rfl
    | cons c t =>
      by_cases hc : c = '^'
      · subst hc
        refine groupRule_caret hr fun d hd hmem => hmark d (List.mem_cons_of_mem _ hd) ?_
        exact (by decide : ∀ d ∈ ['\\', '{'], d ∈ ['\\', '{', '}', '|', '$']) d hmem
      · refine groupRule_eq_none hr (fun hmem => ?_) t
        simp only [List.mem_cons, List.not_mem_nil, or_false] at hmem
        rcases hmem with rfl | rfl | rfl
        · exact hmark _ List.mem_cons_self (by decide)
        · exact hc rfl
        · exact hmark _ List.mem_cons_self (by decide)
  rw [Latex.ungroup, hself]
  exact if_neg (Nat.lt_irrefl _)

/-- The rules after groups write the products. -/
theorem substituteAll_closingRules (h : Ordinary s) : substituteAll closingRules s = substituteAll productRules s := by
  have hliteral : ∀ read written l, read.toList = '\\' :: l → substitute (literal read written) s = s :=
    fun read written l hread => h.substitute_readsBackslash (literal_readsBackslash read written hread)
  have hletter : ∀ g ∈ "e" :: greekLetters, substitute (letterCommand g g) s = s := fun g hg =>
    h.substitute_readsBackslash (letterCommand_readsWord (letterCommands_greek g hg).1 g).readsBackslash
  have hoperator := substitute_operatorCommand_eq_self h.backslash_not_mem
  have hgreek : substituteAll (greekLetters.map fun g => letterCommand g g) s = s := substituteAll_eq_self (by
    rw [List.forall_mem_map]
    exact fun g hg => hletter g (List.mem_cons_of_mem "e" hg))
  have hcommands : substituteAll commandRules s = s := by
    refine substituteAll_eq_self ?_
    simp only [commandRules, List.forall_mem_cons]
    exact ⟨hletter "e" List.mem_cons_self, hoperator _ _, hoperator _ _, hoperator _ _,
      hliteral _ _ _ rfl, hliteral _ _ _ rfl, hliteral _ _ _ rfl, hliteral _ _ _ rfl, hliteral _ _ _ rfl,
      hliteral _ _ _ rfl, hliteral _ _ _ rfl, hliteral _ _ _ rfl, hliteral _ _ _ rfl, hliteral _ _ _ rfl,
      hliteral _ _ _ rfl, h.substitute_readsBackslash quadSpace_readsBackslash, nofun⟩
  have hslash : '\\' ∉ substituteAll productRules s := fun hmem => by
    rcases (productRules_starred h).mem hmem with hs | heq
    · exact h.backslash_not_mem hs
    · cases heq
  have hlast := ((literal_readsBackslash "\\" "" (l := []) rfl).turns_of_not_mem hslash).substitute_eq
  have hsplit : closingRules = (greekLetters.map fun g => letterCommand g g) ++
      (commandRules ++ (productRules ++ [literal "\\" ""])) := rfl
  rw [hsplit, substituteAll_append, hgreek, substituteAll_append, hcommands, substituteAll_append]
  exact hlast

end Ordinary

/-! ## Conversion -/

/-- **The converter puts stars into an ordinary text, at seams, and does nothing else** but take off the blanks around
it. -/
theorem plainText_starred {s : List Char} (h : Ordinary s) : Starred (trim s) (plainText s) := by
  have hstarred := productRules_starred h.trim
  unfold plainText
  split
  · rename_i hempty
    rw [List.isEmpty_iff.1 hempty]
    exact .refl _
  · have hbraces : (substituteAll productRules (trim s)).map parenthesis = substituteAll productRules (trim s) := by
      refine (List.map_congr_left fun c hc => ?_).trans (List.map_id _)
      have hbrace : c ≠ '{' ∧ c ≠ '}' := by
        rcases hstarred.mem hc with hmem | rfl
        · have hmark := h.trim.unmarked c hmem
          exact ⟨by rintro rfl; exact hmark (by decide), by rintro rfl; exact hmark (by decide)⟩
        · decide
      rw [parenthesis, if_neg hbrace.1, if_neg hbrace.2, id]
    have htrim : trim (substituteAll productRules (trim s)) = substituteAll productRules (trim s) :=
      trim_eq_self (by rw [hstarred.head?_eq]; exact head?_trim s) (by rw [hstarred.getLast?_eq]; exact getLast?_trim s)
    simp only [h.undelimited, h.trim.substituteAll_openingRules, h.trim.ungroup, h.trim.substituteAll_closingRules,
      hbraces, htrim]
    exact hstarred

end Latex

open Latex

/-! ## Formulas -/

theorem dropWhile_ne_of_not_mem {s : List Char} (h : '=' ∉ s) (r : List Char) :
    (s ++ r).dropWhile (· != '=') = r.dropWhile (· != '=') :=
  List.dropWhile_append_of_pos fun _ hc => bne_iff_ne.2 fun heq => h (heq ▸ hc)

/-- **Stars put in early do not change the formula on the right-hand side.** -/
theorem rightHandSide_of_starred {s t : String} (h : Starred (trim s.toList) (trim t.toList)) :
    (rightHandSide t).map explicitProducts = (rightHandSide s).map explicitProducts := by
  have htext : ∀ {v w}, explicit w = explicit v → explicitProducts (String.ofList w) = explicitProducts (String.ofList v) :=
    fun h => by rw [explicitProducts, explicitProducts, String.toList_ofList, String.toList_ofList, h]
  unfold rightHandSide
  rcases h.split_at_equals with ⟨hs, ht⟩ | ⟨x, v, y, w, hs, ht, hx, hy, hvw⟩
  · have hnone : ∀ {u : List Char}, '=' ∉ u → u.dropWhile (· != '=') = [] := fun {u} hu => by
      have hdrop := dropWhile_ne_of_not_mem hu []
      rwa [List.append_nil] at hdrop
    simp only [hnone hs, hnone ht]
    exact congrArg Except.ok (htext h.explicit_eq)
  · have hequals : ∀ {u : List Char}, ('=' :: u).dropWhile (· != '=') = '=' :: u := rfl
    have hexplicit : explicit (trim w) = explicit (trim v) := by
      rw [explicit_trim, explicit_trim, hvw.explicit_eq]
    have hnil : trim w = [] ↔ trim v = [] := by
      have hempty : ∀ u, explicit u = [] ↔ u = [] := fun u => by
        rw [← List.head?_eq_none_iff, ← List.head?_eq_none_iff, explicit, head?_join (recognised_of_mem_pieces u),
          flatMap_text_pieces]
      rw [← hempty, hexplicit, hempty]
    rw [hs, ht]
    simp only [dropWhile_ne_of_not_mem hx, dropWhile_ne_of_not_mem hy, hequals]
    cases htw : trim w with
    | nil => rw [hnil.1 htw]
    | cons c u =>
      cases htv : trim v with
      | nil =>
        rw [hnil.2 htv] at htw
        cases htw
      | cons d u' =>
        rw [htw, htv] at hexplicit
        exact congrArg Except.ok (htext hexplicit)

namespace Formula

/-- **The converter is harmless on ordinary text.**  Whether or not a text without LaTeX is converted, in every mode it
has the same error, or stands for the same formula; and the right-hand side has the same products. -/
theorem parse_of_ordinary (mode : Except String Mode) {raw : String} (h : Ordinary raw.toList) :
    parse mode true raw = parse mode false raw ∧
      (rightHandSide (latexToPlain raw)).map explicitProducts = (rightHandSide raw).map explicitProducts := by
  have hstarred := plainText_starred h
  have htext : (latexToPlain raw).toList = plainText raw.toList := String.toList_ofList
  have htrim : trim (latexToPlain raw).toList = plainText raw.toList := by
    rw [htext]
    refine trim_eq_self ?_ ?_
    · rw [hstarred.head?_eq]
      exact head?_trim _
    · rw [hstarred.getLast?_eq]
      exact getLast?_trim _
  have hright : (rightHandSide (latexToPlain raw)).map explicitProducts = (rightHandSide raw).map explicitProducts :=
    rightHandSide_of_starred (by rw [htrim]; exact hstarred)
  have hempty : (trim (latexToPlain raw).toList).isEmpty = (trim raw.toList).isEmpty := by
    rw [htrim, Bool.eq_iff_iff, List.isEmpty_iff, List.isEmpty_iff, ← List.head?_eq_none_iff,
      ← List.head?_eq_none_iff, hstarred.head?_eq]
  refine ⟨?_, hright⟩
  unfold parse
  simp only [if_true, Bool.false_eq_true, if_false, hempty]
  cases hl : rightHandSide (latexToPlain raw) with
  | error e =>
    cases hr : rightHandSide raw with
    | error e' => rfl
    | ok s =>
      rw [hl, hr] at hright
      cases hright
  | ok t =>
    cases hr : rightHandSide raw with
    | error e' =>
      rw [hl, hr] at hright
      cases hright
    | ok s =>
      rw [hl, hr] at hright
      have hproducts : explicitProducts t = explicitProducts s := Except.ok.inj hright
      simp only [hproducts]

theorem parse_ordinary_product : Ordinary "w = 2x(y+1)atan2(3y,e)5".toList ∧
    (parse (.ok .real) true "w = 2x(y+1)atan2(3y,e)5" = parse (.ok .real) false "w = 2x(y+1)atan2(3y,e)5" ∧
      (rightHandSide (latexToPlain "w = 2x(y+1)atan2(3y,e)5")).map explicitProducts =
        (rightHandSide "w = 2x(y+1)atan2(3y,e)5").map explicitProducts) := by
  have h : Ordinary "w = 2x(y+1)atan2(3y,e)5".toList := ⟨by decide, by decide +kernel, by decide +kernel⟩
  exact ⟨h, parse_of_ordinary (.ok .real) h⟩

end Formula

end Heightfield
