import Heightfield.Proofs.Latex.ControlWord
import Heightfield.Proofs.Latex.NormalForm
/-!
# Absolute values within absolute values

`AbsSum` is a sum of letters, numbers and absolute values between `\left|` and `\right|`.  The rule for these takes the
innermost ones apart (`sizedBars_turns`).  Next in the same pass comes the rule for `|a|`, which pairs any two bars.  If
there are absolute values around the innermost ones, it takes their bars from their commands before the rule for these
comes again (`exists_substitute_bars`).  So the converter is right about such a sum exactly when its absolute values are
not nested (`latexToPlain_absSum_iff`).
-/
namespace Heightfield.Latex

/-- A sign between the terms of a sum, written without blanks. -/
inductive Joint where
  | plus | minus
  deriving DecidableEq, Repr

def Joint.char : Joint → Char
  | plus => '+'
  | minus => '-'

theorem Joint.char_mem (j : Joint) : j.char ∈ ['+', '-', ')'] := by cases j <;> decide

inductive AbsSum where
  | letter (c : Letter)
  | number (n : Numeral)
  | modulus (a : AbsSum)
  | join (j : Joint) (a b : AbsSum)

namespace AbsSum

def latex : AbsSum → List Char
  | letter c => [c.1]
  | number n => n.digits
  | modulus a => "\\left|".toList ++ (a.latex ++ "\\right|".toList)
  | join j a b => a.latex ++ j.char :: b.latex

def plain : AbsSum → List Char
  | letter c => [c.1]
  | number n => n.digits
  | modulus a => "abs(".toList ++ (a.plain ++ ")".toList)
  | join j a b => a.plain ++ j.char :: b.plain

/-- How many absolute values stand within each other. -/
def depth : AbsSum → ℕ
  | letter _ | number _ => 0
  | modulus a => a.depth + 1
  | join _ a b => max a.depth b.depth

/-- The sum with its innermost absolute values written as calls. -/
def peeled : AbsSum → List Char
  | letter c => [c.1]
  | number n => n.digits
  | modulus a =>
    if a.depth = 0 then "abs(".toList ++ (a.latex ++ ")".toList) else "\\left|".toList ++ (a.peeled ++ "\\right|".toList)
  | join j a b => a.peeled ++ j.char :: b.peeled

theorem latex_modulus (a : AbsSum) : (modulus a).latex = "\\left|".toList ++ (a.latex ++ "\\right|".toList) := rfl

theorem latex_join (j : Joint) (a b : AbsSum) : (join j a b).latex = a.latex ++ j.char :: b.latex := rfl

theorem latex_of_depth_eq_zero : ∀ {t : AbsSum}, t.depth = 0 → t.latex = t.plain
  | letter _, _ | number _, _ => rfl
  | join j a b, h => by
    have hab := Nat.max_eq_zero_iff.1 h
    rw [latex_join, plain, latex_of_depth_eq_zero hab.1, latex_of_depth_eq_zero hab.2]

theorem peeled_of_depth_le_one : ∀ {t : AbsSum}, t.depth ≤ 1 → t.peeled = t.plain
  | letter _, _ | number _, _ => rfl
  | modulus a, h => by
    have ha : a.depth = 0 := Nat.le_zero.1 (Nat.le_of_succ_le_succ h)
    rw [peeled, if_pos ha, plain, latex_of_depth_eq_zero ha]
  | join j a b, h => by
    have hab := Nat.max_le.1 h
    rw [peeled, plain, peeled_of_depth_le_one hab.1, peeled_of_depth_le_one hab.2]

abbrev IsPlain (c : Char) : Prop := isAlphanumeric c = true ∨ c ∈ ['+', '-', '(', ')']

theorem isAlphanumeric_of_mem_digits (n : Numeral) : ∀ c ∈ n.digits, isAlphanumeric c = true := fun c hc =>
  isAlphanumeric_of_isDigit (n.isDigit_of_mem c hc)

theorem isPlain_of_mem_plain (t : AbsSum) : ∀ c ∈ t.plain, IsPlain c := by
  induction t with
  | letter d => exact List.forall_mem_singleton.2 (Or.inl (isAlphanumeric_of_isLetter d.2))
  | number n => exact fun c hc => Or.inl (isAlphanumeric_of_mem_digits n c hc)
  | modulus a ih =>
    have hopening : ∀ c ∈ "abs(".toList, IsPlain c := by decide
    have hclosing : ∀ c ∈ ")".toList, IsPlain c := by decide
    exact List.forall_mem_append.2 ⟨hopening, List.forall_mem_append.2 ⟨ih, hclosing⟩⟩
  | join j a b iha ihb =>
    refine List.forall_mem_append.2 ⟨iha, List.forall_mem_cons.2 ⟨Or.inr ?_, ihb⟩⟩
    cases j <;> decide

theorem not_mem_of_mem_plain (t : AbsSum) : ∀ c ∈ t.plain, c ∉ ['\\', '^', '|', '{', '}'] := by
  intro c hc hmem
  have hspecial : ∀ c ∈ ['\\', '^', '|', '{', '}'], isAlphanumeric c = false ∧ c ∉ ['+', '-', '(', ')'] := by decide
  rcases t.isPlain_of_mem_plain c hc with h | h
  · rw [(hspecial c hmem).1] at h
    cases h
  · exact (hspecial c hmem).2 h

theorem inert_plain (t : AbsSum) : Inert t.plain := .of_forall_mem t.not_mem_of_mem_plain

/-! ## Before the bars are paired -/

section
variable {rule : Rule}

/-- Rules that begin with a backslash, but at none of the two commands, leave the sum as it is. -/
theorem turns_latex (hrule : rule.ReadsBackslash) (hleft : rule.Turns "\\left|".toList "\\left|".toList)
    (hright : rule.Turns "\\right|".toList "\\right|".toList) (t : AbsSum) : rule.Turns t.latex t.latex := by
  induction t with
  | letter c => exact hrule.turns_of_not_mem c.backslash_not_mem
  | number n => exact hrule.turns_of_not_mem n.backslash_not_mem
  | modulus a ih => exact hleft.append (ih.append hright)
  | join j a b iha ihb =>
    refine iha.append (.cons (hrule.turns_of_not_mem ?_) ihb)
    cases j <;> decide

theorem turns_latex_of_readsWord {w : List Char} (h : rule.ReadsWord w) (hw : w ∉ structureWords) (t : AbsSum) :
    rule.Turns t.latex t.latex :=
  t.turns_latex h.readsBackslash (h.turns_structure hw (v := "left".toList) (by decide) (d := '|') rfl (by decide))
    (h.turns_structure hw (v := "right".toList) (by decide) (d := '|') rfl (by decide))

end

/-- **The rules before groups change nothing.** -/
theorem substituteAll_openingRules (t : AbsSum) : substituteAll openingRules t.latex = t.latex := by
  refine substituteAll_eq_self fun rule hr => Rule.Turns.substitute_eq ?_
  rw [openingRules, List.mem_append, List.mem_map] at hr
  rcases hr with hr | ⟨f, hf, rfl⟩
  · simp only [List.mem_cons, List.not_mem_nil, or_false] at hr
    rcases hr with rfl | rfl | rfl <;> exact t.turns_latex_of_readsWord (namedGroup_readsWord (by decide)) (by decide)
  · exact t.turns_latex_of_readsWord (functionCommand_readsWord (isLetter_of_mem_functionCommands f hf) f.2)
      (not_mem_structureWords f hf)

theorem beginsTerm_latex (t : AbsSum) : BeginsTerm t.latex := by
  induction t with
  | letter c => exact ⟨c.1, [], rfl, Or.inl (isAlphanumeric_of_isLetter c.2)⟩
  | number n =>
    obtain ⟨d, r, hdigits⟩ := List.exists_cons_of_ne_nil n.ne_nil
    refine ⟨d, r, hdigits, Or.inl ?_⟩
    exact isAlphanumeric_of_mem_digits n d (by rw [hdigits]; exact List.mem_cons_self)
  | modulus a _ => exact ⟨'\\', _, rfl, Or.inr ⟨rfl, 'l', _, rfl, rfl⟩⟩
  | join j a b iha _ =>
    rw [latex_join]
    exact iha.append _

theorem exists_latex_concat (t : AbsSum) : ∃ l c, t.latex = l ++ [c] ∧ isBlank c = false := by
  induction t with
  | letter c => exact ⟨[], c.1, rfl, isBlank_eq_false_of_isAlphanumeric (isAlphanumeric_of_isLetter c.2)⟩
  | number n =>
    refine ⟨n.digits.dropLast, n.digits.getLast n.ne_nil, (List.dropLast_concat_getLast n.ne_nil).symm, ?_⟩
    exact isBlank_eq_false_of_isAlphanumeric (isAlphanumeric_of_mem_digits n _ (List.getLast_mem n.ne_nil))
  | modulus a _ => exact ⟨"\\left|".toList ++ (a.latex ++ "\\right".toList), '|', by rw [latex_modulus]; simp, rfl⟩
  | join j a b _ ihb =>
    obtain ⟨l, c, hb, hc⟩ := ihb
    exact ⟨a.latex ++ j.char :: l, c, by simp [latex_join, hb], hc⟩

theorem undelimited_latex (t : AbsSum) : undelimited t.latex = t.latex := by
  obtain ⟨l, c, hlatex, hc⟩ := t.exists_latex_concat
  have h := undelimited_append t.beginsTerm_latex (fun d hd => by
    rw [hlatex, List.getLast?_concat] at hd
    obtain rfl := Option.some.inj hd
    exact hc) ([], []) List.mem_cons_self
  rwa [List.nil_append, List.append_nil] at h

end AbsSum

/-! ## Pairing the bars -/

theorem barred?_append {a : List Char} (hne : a ≠ []) (ha : '|' ∉ a) (r : List Char) : barred? (a ++ '|' :: r) = some (a, r) := by
  obtain ⟨c, a, rfl⟩ := List.exists_cons_of_ne_nil hne
  rw [barred?, span_eq_of_all (by rfl) r fun d hd => bne_iff_ne.2 (by rintro rfl; exact ha hd)]
  rfl

theorem sizedBars_readsBackslash : Rule.ReadsBackslash sizedBars := fun _ _ hc =>
  congrArg (Option.bind · _) (if_neg (Ne.symm hc))

theorem sizedBars_opening (s : List Char) : sizedBars ("\\left|".toList ++ s) = (barred? s).bind fun r =>
    (((before? "\\right".toList r.1).bind nonempty?).map absolute).map (·, r.2) := by
  rw [sizedBars_eq]
  rfl

theorem sizedBars_turns_absolute {a : List Char} (hne : a ≠ []) (ha : '|' ∉ a) :
    sizedBars.Turns ("\\left|".toList ++ (a ++ "\\right|".toList)) (absolute a) := by
  refine .of_some (List.cons_ne_nil _ _) fun rest => ?_
  have htext : "\\left|".toList ++ (a ++ "\\right|".toList) ++ rest =
      "\\left|".toList ++ (a ++ "\\right".toList ++ '|' :: rest) := by simp
  have hbefore : before? "\\right".toList (a ++ "\\right".toList) = some a := by
    rw [before?, List.reverse_append, after?_append, Option.map_some, List.reverse_reverse]
  have hright : '|' ∉ "\\right".toList := by decide
  obtain ⟨c, a, rfl⟩ := List.exists_cons_of_ne_nil hne
  rw [htext, sizedBars_opening, barred?_append (by simp) (List.not_mem_append ha hright), Option.bind_some, hbefore]
  rfl

/-- What stands between a bar and the next one begins another absolute value: it does not end with `\right`. -/
theorem sizedBars_eq_none {u : List Char} (hu : '|' ∉ u) (v : List Char) :
    sizedBars ("\\left|".toList ++ (u ++ ("\\left".toList ++ '|' :: v))) = none := by
  have hleft : '|' ∉ "\\left".toList := by decide
  have hbefore : before? "\\right".toList (u ++ "\\left".toList) = none := by
    rw [before?, List.reverse_append]
    rfl
  rw [sizedBars_opening, ← List.append_assoc, barred?_append (by simp) (List.not_mem_append hu hleft), Option.bind_some,
    hbefore]
  rfl

namespace AbsSum

theorem plain_ne_nil (t : AbsSum) : t.plain ≠ [] := by
  induction t with
  | letter c => exact List.cons_ne_nil _ _
  | number n => exact n.ne_nil
  | modulus a _ => exact List.cons_ne_nil _ _
  | join j a b iha _ => exact List.append_ne_nil_of_left_ne_nil iha _

theorem exists_bar_latex : ∀ {t : AbsSum}, t.depth ≠ 0 →
    ∃ u v, t.latex = u ++ ("\\left".toList ++ '|' :: v) ∧ '|' ∉ u
  | letter _, h | number _, h => absurd rfl h
  | modulus a, _ => ⟨[], a.latex ++ "\\right|".toList, rfl, List.not_mem_nil⟩
  | join j a b, h => by
    by_cases ha : a.depth = 0
    · have hb : b.depth ≠ 0 := by
        intro hb
        exact h (Nat.max_eq_zero_iff.2 ⟨ha, hb⟩)
      obtain ⟨u, v, hlatex, hu⟩ := exists_bar_latex hb
      refine ⟨a.plain ++ j.char :: u, v, ?_, ?_⟩
      · rw [latex_join, latex_of_depth_eq_zero ha, hlatex, List.append_assoc, List.cons_append]
      · have hj : '|' ≠ j.char := by cases j <;> decide
        exact List.not_mem_append a.inert_plain.not_bar (List.not_mem_cons_of_ne_of_not_mem hj hu)
    · obtain ⟨u, v, hlatex, hu⟩ := exists_bar_latex ha
      exact ⟨u, v ++ j.char :: b.latex, by rw [latex_join, hlatex]; simp, hu⟩

/-- **The rule for `\left|a\right|` takes the innermost absolute values apart**, and no others. -/
theorem sizedBars_turns (t : AbsSum) : sizedBars.Turns t.latex t.peeled := by
  induction t with
  | letter c => exact sizedBars_readsBackslash.turns_of_not_mem c.backslash_not_mem
  | number n => exact sizedBars_readsBackslash.turns_of_not_mem n.backslash_not_mem
  | modulus a ih =>
    rw [latex_modulus, peeled]
    split_ifs with ha
    · rw [latex_of_depth_eq_zero ha]
      exact sizedBars_turns_absolute a.plain_ne_nil a.inert_plain.not_bar
    · -- the next bar begins an absolute value in `a`, so the rule goes by
      obtain ⟨u, v, hlatex, hu⟩ := exists_bar_latex ha
      have hright : sizedBars.Turns "\\right|".toList "\\right|".toList :=
        .cons_of_none (l := "right|".toList) (fun _ => rfl) (sizedBars_readsBackslash.turns_of_not_mem (by decide))
      have hleft : sizedBars.Turns "left|".toList "left|".toList := sizedBars_readsBackslash.turns_of_not_mem (by decide)
      refine .cons_of_none (fun rest => ?_) (hleft.append (ih.append hright))
      have hnone := sizedBars_eq_none hu (v ++ ("\\right|".toList ++ rest))
      show sizedBars ("\\left|".toList ++ (a.latex ++ "\\right|".toList) ++ rest) = none
      rw [hlatex]
      simpa using hnone
  | join j a b iha ihb =>
    refine iha.append (.cons (sizedBars_readsBackslash.turns_of_not_mem ?_) ihb)
    cases j <;> decide

/-- The first terms of a sum, each with the sign behind it. -/
def lead (ps : List (AbsSum × Joint)) : List Char := ps.flatMap fun p => p.1.plain ++ [p.2.char]

theorem exists_peeled_cons (t : AbsSum) : ∃ c r, t.peeled = c :: r ∧ c ≠ '|' := by
  have hbar : ∀ c, isAlphanumeric c = true → c ≠ '|' := by
    rintro c hc rfl
    cases hc
  induction t with
  | letter c => exact ⟨c.1, [], rfl, hbar c.1 (isAlphanumeric_of_isLetter c.2)⟩
  | number n =>
    obtain ⟨d, r, hdigits⟩ := List.exists_cons_of_ne_nil n.ne_nil
    exact ⟨d, r, hdigits, hbar d (isAlphanumeric_of_mem_digits n d (by rw [hdigits]; exact List.mem_cons_self))⟩
  | modulus a _ =>
    rw [peeled]
    split_ifs with ha
    · exact ⟨'a', _, rfl, by decide⟩
    · exact ⟨'\\', _, rfl, by decide⟩
  | join j a b iha _ =>
    obtain ⟨c, r, ha, hc⟩ := iha
    exact ⟨c, r ++ j.char :: b.peeled, by rw [peeled, ha, List.cons_append], hc⟩

/-- **A sum with nested absolute values.**  At the first of them there are two bars and something between. -/
theorem exists_peeled_eq : ∀ {t : AbsSum}, 2 ≤ t.depth → ∃ ps u v r,
    t.peeled = lead ps ++ ("\\left".toList ++ '|' :: (u ++ '|' :: v)) ∧ t.plain = lead ps ++ ("abs(".toList ++ r) ∧
      u ≠ [] ∧ '|' ∉ u
  | letter _, h | number _, h => absurd h (Nat.not_succ_le_zero 1)
  | modulus a, h => by
    have ha : a.depth ≠ 0 := by
      intro ha
      rw [depth, ha] at h
      omega
    obtain ⟨c, q, hpeeled, hc⟩ := a.exists_peeled_cons
    rcases forall_or_exists_first (· != '|') (q ++ "\\right|".toList) with hall | ⟨u, d, v, hsplit, hu, hd⟩
    · exact absurd (hall '|' (by simp)) (by decide)
    · obtain rfl : d = '|' := by simpa using hd
      refine ⟨[], c :: u, v, a.plain ++ ")".toList, ?_, rfl, List.cons_ne_nil _ _, fun hmem => ?_⟩
      · rw [peeled, if_neg ha, hpeeled, List.cons_append, hsplit]
        rfl
      · rcases List.mem_cons.1 hmem with rfl | hmem
        · exact hc rfl
        · exact bne_iff_ne.1 (hu _ hmem) rfl
  | join j a b, h => by
    by_cases ha : 2 ≤ a.depth
    · obtain ⟨ps, u, v, r, hpeeled, hplain, hne, hu⟩ := exists_peeled_eq ha
      refine ⟨ps, u, v ++ j.char :: b.peeled, r ++ j.char :: b.plain, ?_, ?_, hne, hu⟩
      · rw [peeled, hpeeled]
        simp
      · rw [plain, hplain]
        simp
    · -- nothing is nested in `a`, which is in the dialect already
      have hb : 2 ≤ b.depth := by
        rw [depth] at h
        omega
      obtain ⟨ps, u, v, r, hpeeled, hplain, hne, hu⟩ := exists_peeled_eq hb
      have hlead : lead ((a, j) :: ps) = a.plain ++ j.char :: lead ps := by
        rw [lead, List.flatMap_cons, List.append_assoc]
        rfl
      refine ⟨(a, j) :: ps, u, v, r, ?_, ?_, hne, hu⟩
      · rw [peeled, peeled_of_depth_le_one (Nat.le_of_lt_succ (Nat.lt_of_not_le ha)), hpeeled, hlead]
        simp
      · rw [plain, hplain, hlead]
        simp

theorem forall_mem_lead {p : Char → Prop} (hplain : ∀ (t : AbsSum), ∀ c ∈ t.plain, p c) (hjoint : ∀ j : Joint, p j.char)
    (ps : List (AbsSum × Joint)) : ∀ c ∈ lead ps, p c := by
  intro c hc
  obtain ⟨q, -, hq⟩ := List.mem_flatMap.1 hc
  exact List.forall_mem_append.2 ⟨hplain q.1, List.forall_mem_singleton.2 (hjoint q.2)⟩ c hq

theorem inert_lead (ps : List (AbsSum × Joint)) : Inert (lead ps) :=
  .of_forall_mem (forall_mem_lead not_mem_of_mem_plain (by rintro (_ | _) <;> decide) ps)

end AbsSum

/-- A bar that was taken from its command is written behind it as a call. -/
def strayCall : List Char := "\\leftabs(".toList

theorem inert_strayCall : Inert strayCall := by
  refine .cons (by decide) (fun rule hr rest => ?_) (.of_forall_mem (s := "leftabs(".toList) (by decide))
  simp only [groupRules, List.mem_cons, List.not_mem_nil, or_false] at hr
  rcases hr with rfl | rfl | rfl | rfl | rfl | rfl | rfl | rfl <;> rfl

theorem bars_turns_of_not_mem {l : List Char} (hl : '|' ∉ l) : bars.Turns l l := .of_forall_mem fun c hc => .of_none fun rest => by
  rw [bars_eq]
  exact congrArg (Option.bind · _) (if_neg (by rintro rfl; exact hl hc))

theorem substitute_bars {u : List Char} (hne : u ≠ []) (hu : '|' ∉ u) (v : List Char) :
    substitute bars ('|' :: (u ++ '|' :: v)) = absolute u ++ substitute bars v := by
  have hfires : bars ('|' :: (u ++ '|' :: v)) = some (absolute u, v) := by
    rw [bars, barred?_append hne hu, Option.map_some]
  refine substitute_of_some hfires ?_
  rw [List.length_cons, List.length_append, List.length_cons]
  omega

namespace AbsSum

theorem absolute_eq (a : List Char) : absolute a = "abs(".toList ++ (a ++ [')']) := List.append_assoc _ _ _

/-- **The rule for `|a|` parts the first of nested absolute values** from its command. -/
theorem exists_substitute_bars {t : AbsSum} (h : 2 ≤ t.depth) : ∃ ps s r,
    substitute bars t.peeled = lead ps ++ (strayCall ++ s) ∧ t.plain = lead ps ++ ("abs(".toList ++ r) := by
  obtain ⟨ps, u, v, r, hpeeled, hplain, hne, hu⟩ := exists_peeled_eq h
  have hlead : bars.Turns (lead ps) (lead ps) := bars_turns_of_not_mem (inert_lead ps).not_bar
  have hleft : bars.Turns "\\left".toList "\\left".toList := bars_turns_of_not_mem (by decide)
  have hstray : "\\left".toList ++ (absolute u ++ substitute bars v) = strayCall ++ (u ++ [')'] ++ substitute bars v) := by
    rw [absolute_eq, List.append_assoc, List.append_assoc]
    rfl
  refine ⟨ps, u ++ [')'] ++ substitute bars v, r, ?_, hplain⟩
  rw [hpeeled, hlead, hleft, substitute_bars hne hu, hstray]

end AbsSum

/-! ## Passes -/

theorem ungroup_pass (s : List Char) : ungroup (pass s) = ungroup s := by
  rcases pass_sheds s with ⟨hself, -⟩ | hlt
  · rw [hself]
  · conv => rhs; rw [ungroup]
    exact (if_pos hlt).symm

theorem substituteAll_append_of_turns {p : List Char} (s : List Char) : ∀ {rules : List Rule}, (∀ rule ∈ rules, rule.Turns p p) →
    substituteAll rules (p ++ s) = p ++ substituteAll rules s
  | [], _ => rfl
  | rule :: rules, h => by
    rw [substituteAll_cons, h rule List.mem_cons_self, substituteAll_cons]
    exact substituteAll_append_of_turns _ fun r hr => h r (List.mem_cons_of_mem rule hr)

theorem ungroup_append_of_inert {p : List Char} (hp : Inert p) (s : List Char) : ungroup (p ++ s) = p ++ ungroup s := by
  fun_induction ungroup s with
  | case1 s t hlt ih =>
    rw [ungroup, substituteAll_append_of_turns s hp.turns, weight_append, weight_append, hp.weight, Nat.zero_add, Nat.zero_add]
    exact (if_pos hlt).trans ih
  | case2 s t hge =>
    rw [ungroup, substituteAll_append_of_turns s hp.turns, weight_append, weight_append, hp.weight, Nat.zero_add, Nat.zero_add]
    exact if_neg hge

theorem Rule.ReadsBackslash.turns_cons {rule : Rule} (h : rule.ReadsBackslash) {l : List Char} (hl : '\\' ∉ l)
    (hnone : ∀ rest, rule ('\\' :: (l ++ rest)) = none) : rule.Turns ('\\' :: l) ('\\' :: l) :=
  .cons_of_none hnone (h.turns_of_not_mem hl)

/-- The group rules behind the one for `|a|`. -/
def laterGroupRules : List Rule := [fraction, sizedExponent, escapedExponent, bracedExponent]

theorem mem_groupRules : ∀ rule ∈ laterGroupRules, rule ∈ groupRules := by simp [laterGroupRules, groupRules]

namespace AbsSum

theorem pass_latex (t : AbsSum) :
    pass t.latex = substituteAll laterGroupRules (substitute bars t.peeled) := by
  have hroot : nthRoot.ReadsBackslash ∧ squareRoot.ReadsBackslash :=
    ⟨fun _ _ hc => congrArg (Option.bind · _) (if_neg (Ne.symm hc)),
      fun _ _ hc => congrArg (Option.bind · _) (if_neg (Ne.symm hc))⟩
  have hnth : nthRoot.Turns t.latex t.latex := t.turns_latex hroot.1
    (hroot.1.turns_cons (l := "left|".toList) (by decide) fun _ => rfl)
    (hroot.1.turns_cons (l := "right|".toList) (by decide) fun _ => rfl)
  have hsquare : squareRoot.Turns t.latex t.latex := t.turns_latex hroot.2
    (hroot.2.turns_cons (l := "left|".toList) (by decide) fun _ => rfl)
    (hroot.2.turns_cons (l := "right|".toList) (by decide) fun _ => rfl)
  rw [pass, groupRules, substituteAll_cons, hnth.substitute_eq, substituteAll_cons, hsquare.substitute_eq,
    substituteAll_cons, t.sizedBars_turns.substitute_eq, substituteAll_cons]
  rfl

theorem ungroup_latex_of_depth_le_one {t : AbsSum} (h : t.depth ≤ 1) : ungroup t.latex = t.plain := by
  have hturns := t.inert_plain.turns
  have hpass : pass t.latex = t.plain := by
    rw [pass_latex, peeled_of_depth_le_one h, (hturns bars (by simp [groupRules])).substitute_eq]
    exact substituteAll_eq_self fun rule hr => (hturns rule (mem_groupRules rule hr)).substitute_eq
  rw [← ungroup_pass, hpass]
  exact ungroup_eq_of_unwinds (.inert t.inert_plain)

theorem exists_ungroup_latex {t : AbsSum} (h : 2 ≤ t.depth) : ∃ ps s r,
    ungroup t.latex = lead ps ++ strayCall ++ s ∧ t.plain = lead ps ++ ("abs(".toList ++ r) := by
  obtain ⟨ps, s, r, hbars, hplain⟩ := exists_substitute_bars h
  have hinert := (inert_lead ps).append inert_strayCall
  have hrest := substituteAll_append_of_turns s fun rule hr => hinert.turns rule (mem_groupRules rule hr)
  have hungroup := ungroup_append_of_inert hinert (substituteAll laterGroupRules s)
  rw [← hrest, List.append_assoc, ← hbars, ← pass_latex, ungroup_pass] at hungroup
  exact ⟨ps, _, r, hungroup, hplain⟩

end AbsSum

/-! ## The rules after groups -/

theorem lateRules_eq_append : lateRules = closingRules.dropLast ++ [literal "\\" "", braceRule] := rfl

/-- What holds of the rules after groups, but the last two. -/
theorem forall_mem_closingRules {p : Rule → Prop} (hletter : ∀ g ∈ "e" :: greekLetters, p (letterCommand g g))
    (hoperator : ∀ f ∈ [("cdot", " * "), ("times", " * "), ("div", " / ")], p (operatorCommand f.1 f.2))
    (hsign : ∀ r ∈ signs, p (literal r.1 r.2)) (hquad : p quadSpace) (hpair : ∀ rule ∈ pairRules, p rule)
    (hrun : p runOpening) : ∀ rule ∈ closingRules.dropLast, p rule := by
  have hsplit : closingRules.dropLast = (greekLetters.map fun g => letterCommand g g) ++ (commandRules ++
      ([digitLetter, closingLetter, literal ")(" ")*("] ++ [runOpening, closingDigit])) := rfl
  have hgreek : ∀ g ∈ greekLetters, p (letterCommand g g) := fun g hg => hletter g (List.mem_cons_of_mem "e" hg)
  simp only [List.forall_mem_cons, pairRules] at hletter hoperator hpair
  rw [hsplit, commandRules_eq]
  simp only [List.forall_mem_append, List.forall_mem_cons, List.forall_mem_map]
  have hnil : ∀ rule ∈ ([] : List Rule), p rule := List.forall_mem_nil p
  exact ⟨hgreek, ⟨⟨hletter.1, hoperator.1, hoperator.2.1, hoperator.2.2.1, hnil⟩, hsign, hquad, hnil⟩,
    ⟨hpair.1, hpair.2.1, hpair.2.2.1, hnil⟩, hrun, hpair.2.2.2.1, hnil⟩

theorem sign_readsBackslash {r : String × String} (hr : r ∈ signs) : (literal r.1 r.2).ReadsBackslash := by
  obtain ⟨l, hl⟩ := List.head?_eq_some_iff.1 (head?_signs r hr)
  exact literal_readsBackslash r.1 r.2 hl

/-! ### Sums in the dialect -/

/-- The rule leaves the text as it is before a sign, a closing parenthesis or the end. -/
def Rule.Leaves (rule : Rule) (l : List Char) : Prop :=
  ∀ rest, (∀ c ∈ rest.head?, c ∈ ['+', '-', ')']) → substitute rule (l ++ rest) = l ++ substitute rule rest

theorem Rule.Leaves.before {rule : Rule} {l : List Char} (h : rule.Leaves l) {c : Char} (hc : c ∈ ['+', '-', ')'])
    (rest : List Char) : substitute rule (l ++ c :: rest) = l ++ substitute rule (c :: rest) :=
  h _ fun d hd => by
    obtain rfl := Option.some.inj hd
    exact hc

theorem Rule.Turns.leaves {rule : Rule} {l : List Char} (h : rule.Turns l l) : rule.Leaves l := fun rest _ => h rest

/-- The rule leaves the parts of a sum as they are. -/
structure Rule.PassesOver (rule : Rule) : Prop where
  letter : ∀ c : Letter, rule.Leaves [c.1]
  number : ∀ n : Numeral, rule.Leaves n.digits
  opening : rule.Turns "abs(".toList "abs(".toList
  closing : rule.Leaves [')']
  joint : ∀ j : Joint, rule.Turns [j.char] [j.char]

namespace Rule.PassesOver

variable {rule : Rule}

theorem of_turns (h : ∀ c, AbsSum.IsPlain c → rule.Turns [c] [c]) : rule.PassesOver where
  letter c := (h c.1 (Or.inl (isAlphanumeric_of_isLetter c.2))).leaves
  number n := (Turns.of_forall_mem fun c hc => h c (Or.inl (AbsSum.isAlphanumeric_of_mem_digits n c hc))).leaves
  opening := .of_forall_mem fun c hc => h c ((by decide : ∀ c ∈ "abs(".toList, AbsSum.IsPlain c) c hc)
  closing := (h ')' (Or.inr (by decide))).leaves
  joint j := h j.char (Or.inr (by cases j <;> decide))

theorem of_readsBackslash (h : rule.ReadsBackslash) : rule.PassesOver := of_turns fun c hc =>
  .of_none fun rest => h c rest (by rintro rfl; revert hc; decide)

/-- **A rule that leaves the parts leaves the sum.** -/
theorem leaves (h : rule.PassesOver) (t : AbsSum) : rule.Leaves t.plain := by
  induction t with
  | letter c => exact h.letter c
  | number n => exact h.number n
  | modulus a ih =>
    intro rest hrest
    have hinner : substitute rule (a.plain ++ ")".toList ++ rest) = a.plain ++ ")".toList ++ substitute rule rest := by
      rw [List.append_assoc, List.append_assoc]
      exact (ih.before (by decide) rest).trans (congrArg (a.plain ++ ·) (h.closing rest hrest))
    rw [AbsSum.plain, List.append_assoc, h.opening, hinner, List.append_assoc "abs(".toList]
  | join j a b iha ihb =>
    intro rest hrest
    have hjoint : substitute rule (j.char :: (b.plain ++ rest)) = j.char :: substitute rule (b.plain ++ rest) :=
      h.joint j _
    rw [AbsSum.plain, List.append_assoc, List.cons_append, iha.before j.char_mem, hjoint, ihb rest hrest, List.append_assoc,
      List.cons_append]

theorem turns_lead (h : rule.PassesOver) (ps : List (AbsSum × Joint)) : rule.Turns (AbsSum.lead ps) (AbsSum.lead ps) :=
  .flatMap fun p _ rest => by
    have hjoint : substitute rule (p.2.char :: rest) = p.2.char :: substitute rule rest := h.joint p.2 rest
    rw [List.append_assoc, List.singleton_append, (h.leaves p.1).before p.2.char_mem, hjoint, List.append_assoc,
      List.singleton_append]

end Rule.PassesOver

/-- A rule for two neighbours finds none that stand apart. -/
theorem pairRule_eq_none {rule : Rule} (hr : rule ∈ pairRules) {c : Char} {s : List Char}
    (h : ∀ d ∈ s.head?, Apart c d = true) : rule (c :: s) = none := by
  have hbetween : ∀ neighbours : Char → Char → Bool, (∀ d, Apart c d = true → neighbours c d = false) →
      starBetween neighbours (c :: s) = none := fun neighbours hapart => by
    cases s with
    | nil => rfl
    | cons d s => exact starBetween_cons_of_false (hapart d (h d rfl)) s
  simp only [pairRules, List.mem_cons, List.not_mem_nil, or_false] at hr
  rcases hr with rfl | rfl | rfl | rfl
  · rw [digitLetter_eq]
    refine hbetween _ fun d hd => ?_
    simpa using (apart_iff.1 hd).1
  · rw [closingLetter_eq]
    refine hbetween _ fun d hd => ?_
    simpa using fun hc => ((apart_iff.1 hd).2 hc).1
  · rw [closingOpening_eq]
    refine hbetween _ fun d hd => ?_
    simpa using fun hc => ((apart_iff.1 hd).2 hc).2.2
  · rw [closingDigit_eq]
    refine hbetween _ fun d hd => ?_
    simpa using fun hc => ((apart_iff.1 hd).2 hc).2.1

theorem pairRule_leaves {rule : Rule} (hr : rule ∈ pairRules) : ∀ {l : List Char}, l.IsChain (Apart · · = true) → rule.Leaves l
  | [], _ => fun _ _ => rfl
  | c :: l, h => fun rest hrest => by
    have hnone : rule (c :: (l ++ rest)) = none := by
      refine pairRule_eq_none hr fun d hd => ?_
      cases l with
      | nil =>
        have hother : ∀ d ∈ ['+', '-', ')'], isLetter d = false ∧ isDecimalDigit d = false ∧ d ≠ '(' := by decide
        obtain ⟨hletter, hdigit, hopening⟩ := hother d (hrest d hd)
        exact apart_iff.2 ⟨fun _ => hletter, fun _ => ⟨hletter, hdigit, hopening⟩⟩
      | cons e l =>
        obtain rfl := Option.some.inj hd
        exact (List.isChain_cons_cons.1 h).1
    have htail : l.IsChain (Apart · · = true) := h.tail
    rw [List.cons_append, substitute_cons_of_none hnone, pairRule_leaves hr htail rest hrest, List.cons_append]

theorem pairRule_passesOver {rule : Rule} (hr : rule ∈ pairRules) : rule.PassesOver where
  letter _ := pairRule_leaves hr (.singleton _)
  number n := pairRule_leaves hr n.isChain_apart
  opening := .of_forall_mem fun c hc => pairRule_turns hr
    ((by decide : ∀ c ∈ "abs(".toList, isDecimalDigit c = false ∧ c ≠ ')') c hc)
  closing := pairRule_leaves hr (.singleton _)
  joint j := pairRule_turns hr (by cases j <;> exact ⟨by decide, by decide⟩)

theorem runOpening_passesOver : runOpening.PassesOver where
  letter c rest hrest := substitute_runOpening (fun d hd =>
    (by decide : ∀ d ∈ ['+', '-', ')'], isRunCharacter d = false ∧ d ≠ '(') d (hrest d hd)) <|
      List.forall_mem_singleton.2 (isRunCharacter_of_isAlphanumeric (isAlphanumeric_of_isLetter c.2))
  number n rest hrest := substitute_runOpening (fun d hd =>
    (by decide : ∀ d ∈ ['+', '-', ')'], isRunCharacter d = false ∧ d ≠ '(') d (hrest d hd)) fun d hd =>
      isRunCharacter_of_isAlphanumeric (AbsSum.isAlphanumeric_of_mem_digits n d hd)
  opening := runOpening_turns_function "abs".toList (by decide) (by decide)
  closing := (runOpening_turns rfl).leaves
  joint j := runOpening_turns (by cases j <;> rfl)

theorem braceRule_passesOver : braceRule.PassesOver := .of_turns fun c hc => by
  have hbrace : isBrace c = false := by
    rw [isBrace, Bool.or_eq_false_iff, decide_eq_false_iff_not, decide_eq_false_iff_not]
    constructor <;> rintro rfl <;> revert hc <;> decide
  have hturns := braceRule_turns [c]
  rwa [List.map_singleton, parenthesis_eq_self hbrace] at hturns

/-- **The rules after groups leave sums in the dialect as they are.** -/
theorem closingRules_passOver : ∀ rule ∈ closingRules.dropLast, rule.PassesOver := by
  refine forall_mem_closingRules (fun g hg => ?_) (fun f _ => ?_) (fun r hr => ?_)
    (.of_readsBackslash quadSpace_readsBackslash) (fun rule hr => pairRule_passesOver hr) runOpening_passesOver
  · exact .of_readsBackslash (letterCommand_readsWord (letterCommands_greek g hg).1 g).readsBackslash
  · refine .of_turns fun c hc => operatorCommand_turns_of_isSolid (List.forall_mem_singleton.2 ?_)
    rcases hc with hc | hc
    · exact isSolid_of_isAlphanumeric hc
    · exact (by decide : ∀ c ∈ ['+', '-', '(', ')'], isSolid c = true) c hc
  · exact .of_readsBackslash (sign_readsBackslash hr)

/-! ### The stray call -/

/-- Nothing reads the word `leftabs`, so the call stays until its backslash goes. -/
theorem closingRules_turn_strayCall : ∀ rule ∈ closingRules.dropLast, rule.Turns strayCall strayCall := by
  refine forall_mem_closingRules (fun g hg => ?_) (fun f hf => ?_) (fun r hr => ?_) ?_ (fun rule hr => ?_) ?_
  · have hne : ∀ g ∈ "e" :: greekLetters, g.toList ≠ "leftabs".toList := by decide
    have h := letterCommand_readsWord (letterCommands_greek g hg).1 g
    exact h.turns_word (v := "leftabs".toList) (by decide) (hne g hg).symm (d := '(') (l := []) rfl
      (h.turns_of_not_mem (by decide))
  · refine .cons_of_none (l := "leftabs(".toList) (fun rest => ?_) (operatorCommand_turns_of_isSolid (by decide))
    simp only [List.mem_cons, List.not_mem_nil, or_false] at hf
    rcases hf with rfl | rfl | rfl <;> rfl
  · refine (sign_readsBackslash hr).turns_cons (l := "leftabs(".toList) (by decide) fun rest => ?_
    simp only [signs, List.mem_cons, List.not_mem_nil, or_false] at hr
    rcases hr with rfl | rfl | rfl | rfl | rfl | rfl | rfl | rfl | rfl | rfl | rfl <;> rfl
  · exact quadSpace_readsBackslash.turns_cons (l := "leftabs(".toList) (by decide) fun _ => rfl
  · exact .of_forall_mem fun c hc => pairRule_turns hr
      ((by decide : ∀ c ∈ strayCall, isDecimalDigit c = false ∧ c ≠ ')') c hc)
  · exact (runOpening_turns (c := '\\') rfl).append (runOpening_turns_function "leftabs".toList (by decide) (by decide))

theorem trim_append_of_solid {p : List Char} (hp : ∀ c ∈ p, isBlank c = false) (hne : p ≠ []) (s : List Char) :
    ∃ s', trim (p ++ s) = p ++ s' := by
  obtain ⟨l, r, hsplit, hl, hr⟩ := exists_eq_append_trim (p ++ s)
  have hsolid : ∀ {c}, isBlank c = true → c ∉ p := fun hc hmem => by
    rw [hp _ hmem] at hc
    cases hc
  obtain ⟨d, p', rfl⟩ := List.exists_cons_of_ne_nil hne
  -- neither the blanks in front nor those behind reach into `p`
  cases l with
  | cons c l =>
    obtain rfl : d = c := (List.cons.inj hsplit).1
    exact absurd List.mem_cons_self (hsolid (hl d List.mem_cons_self))
  | nil =>
    rw [List.nil_append] at hsplit
    rcases List.append_eq_append_iff.1 hsplit with ⟨s', htrim, -⟩ | ⟨u, hu, hru⟩
    · exact ⟨s', htrim⟩
    · cases u with
      | nil =>
        rw [List.append_nil] at hu
        exact ⟨[], by rw [← hu, List.append_nil]⟩
      | cons c u =>
        refine absurd ?_ (hsolid (hr c (by rw [hru]; exact List.mem_cons_self)))
        rw [hu]
        simp

namespace AbsSum

theorem plainText_latex (t : AbsSum) : plainText t.latex = trim (substituteAll lateRules (ungroup t.latex)) := by
  obtain ⟨l, c, hlatex, hc⟩ := t.exists_latex_concat
  have hne : trim t.latex ≠ [] := trim_ne_nil_of_mem (by rw [hlatex]; simp) hc
  rw [plainText_eq hne, stage, List.take_length, t.undelimited_latex, t.substituteAll_openingRules]

theorem isBlank_eq_false_of_mem_plain (t : AbsSum) : ∀ c ∈ t.plain, isBlank c = false := by
  intro c hc
  rcases t.isPlain_of_mem_plain c hc with h | h
  · exact isBlank_eq_false_of_isAlphanumeric h
  · exact (by decide : ∀ c ∈ ['+', '-', '(', ')'], isBlank c = false) c h

/-- **Absolute values that are not nested are converted as they are built.** -/
theorem plainText_of_depth_le_one {t : AbsSum} (h : t.depth ≤ 1) : plainText t.latex = t.plain := by
  have hpass : ∀ rule ∈ lateRules, rule.PassesOver := by
    rw [lateRules_eq_append]
    exact List.forall_mem_append.2 ⟨closingRules_passOver, List.forall_mem_cons.2
      ⟨.of_readsBackslash (literal_readsBackslash "\\" "" (l := []) rfl), List.forall_mem_singleton.2 braceRule_passesOver⟩⟩
  have hself : substituteAll lateRules t.plain = t.plain := substituteAll_eq_self fun rule hr => by
    have hleaves := (hpass rule hr).leaves t [] nofun
    rwa [List.append_nil, substitute_nil, List.append_nil] at hleaves
  rw [plainText_latex, ungroup_latex_of_depth_le_one h, hself]
  exact trim_eq_self (fun c hc => t.isBlank_eq_false_of_mem_plain c (List.mem_of_mem_head? hc)) fun c hc =>
    t.isBlank_eq_false_of_mem_plain c (List.mem_of_mem_getLast? hc)

/-- **At the first of nested absolute values the converter writes a function that there is not.** -/
theorem exists_plainText_eq {t : AbsSum} (h : 2 ≤ t.depth) : ∃ ps s r,
    plainText t.latex = lead ps ++ ("leftabs(".toList ++ s) ∧ t.plain = lead ps ++ ("abs(".toList ++ r) := by
  obtain ⟨ps, s, r, hungroup, hplain⟩ := exists_ungroup_latex h
  have hrules : ∀ rule ∈ closingRules.dropLast, rule.Turns (lead ps ++ strayCall) (lead ps ++ strayCall) := fun rule hr =>
    ((closingRules_passOver rule hr).turns_lead ps).append (closingRules_turn_strayCall rule hr)
  have hslash : (literal "\\" "").ReadsBackslash := literal_readsBackslash "\\" "" (l := []) rfl
  have hcall : (literal "\\" "").Turns strayCall "leftabs(".toList :=
    .append (l := ['\\']) (w := []) (.of_some (List.cons_ne_nil _ _) fun _ => rfl)
      (hslash.turns_of_not_mem (l := "leftabs(".toList) (by decide))
  have hbrace : braceRule.Turns "leftabs(".toList "leftabs(".toList := braceRule_turns _
  have hlast := ((Rule.PassesOver.of_readsBackslash hslash).turns_lead ps).append hcall
  have hlate : substituteAll lateRules (ungroup t.latex) = lead ps ++ "leftabs(".toList ++
      substitute braceRule (substitute (literal "\\" "") (substituteAll closingRules.dropLast s)) := by
    rw [hungroup, lateRules_eq_append, substituteAll_append, substituteAll_append_of_turns s hrules, substituteAll_cons,
      hlast, substituteAll_cons, (braceRule_passesOver.turns_lead ps).append hbrace]
    rfl
  have hsolid : ∀ c ∈ lead ps ++ "leftabs(".toList, isBlank c = false :=
    List.forall_mem_append.2 ⟨forall_mem_lead isBlank_eq_false_of_mem_plain (by rintro (_ | _) <;> rfl) ps, by decide⟩
  obtain ⟨s', hs'⟩ := trim_append_of_solid hsolid (by simp) _
  rw [plainText_latex, hlate, hs', List.append_assoc]
  exact ⟨ps, s', r, rfl, hplain⟩

end AbsSum

/-- **The converter is right about a sum of absolute values exactly when they are not nested.** -/
theorem latexToPlain_absSum_iff (t : AbsSum) : latexToPlain (String.ofList t.latex) = String.ofList t.plain ↔ t.depth ≤ 1 := by
  rw [latexToPlain, String.toList_ofList, String.ofList_inj]
  constructor
  · intro heq
    by_contra hdepth
    obtain ⟨ps, s, r, htext, hplain⟩ := AbsSum.exists_plainText_eq (Nat.lt_of_not_le hdepth)
    rw [heq, hplain, List.append_cancel_left_eq] at htext
    exact absurd (List.cons.inj htext).1 (by decide)
  · exact AbsSum.plainText_of_depth_le_one

/-- The absolute value of an absolute value is lost. -/
theorem latexToPlain_nestedModulus : ∃ t : AbsSum, String.ofList t.latex = "\\left|\\left|x\\right|\\right|" ∧
    String.ofList t.plain = "abs(abs(x))" ∧ latexToPlain "\\left|\\left|x\\right|\\right|" = "leftabs(abs(x))" ∧
      "leftabs(abs(x))" ≠ "abs(abs(x))" :=
  ⟨.modulus (.modulus (.letter ⟨'x', rfl⟩)), by decide +kernel⟩

end Heightfield.Latex
