import Mathlib.Data.List.TakeDrop
import Heightfield.Latex.Groups
import Heightfield.Proofs.Latex.Substitution
/-!
# Groups unwind from the inside out

`Unwinds s t` says that `s` is built from inert text by roots, fractions and exponents in braces, and that
`t` is what it becomes when each of them is written as a quotient, a power or a call.  Each group rule turns
such a text into one that unwinds to the same (`Unwinds.steps`), and a text that every rule leaves
alone has no construct left (`Unwinds.inert_of_forall_turns`).  So the repeated rules reach `t`, in whichever
order they find the constructs (`ungroup_eq_of_unwinds`).
-/
namespace Heightfield.Latex

/-! ## Weight -/

theorem weight_append (s t : List Char) : weight (s ++ t) = weight s + weight t := by
  simp only [weight, List.count_append]
  omega

theorem weight_eq_zero {s : List Char} (hbrace : ∀ c ∈ s, isBrace c = false) (hbar : '|' ∉ s) : weight s = 0 := by
  have h : s.count '{' = 0 := List.count_eq_zero.2 fun h => by cases hbrace _ h
  rw [weight, h, List.count_eq_zero.2 hbar]

/-! ## Brace groups -/

theorem span_eq_of_all {p : Char → Bool} {c : Char} (hc : p c = false) (r : List Char) :
    ∀ {a : List Char}, (∀ d ∈ a, p d = true) → (a ++ c :: r).span p = (a, c :: r) := by
  intro a ha
  rw [List.span_eq_takeWhile_dropWhile, List.takeWhile_append_of_pos ha, List.dropWhile_append_of_pos ha,
    List.takeWhile_cons_of_neg (by simp [hc]), List.dropWhile_cons_of_neg (by simp [hc]), List.append_nil]

theorem braced?_closing {a : List Char} (ha : ∀ c ∈ a, isBrace c = false) (r : List Char) :
    braced? (a ++ '}' :: r) = some (a, r) := by
  rw [braced?, span_eq_of_all (by rfl) r fun d hd => by rw [ha d hd]; rfl]
  rfl

theorem braced?_opening {a : List Char} (ha : ∀ c ∈ a, isBrace c = false) (r : List Char) :
    braced? (a ++ '{' :: r) = none := by
  rw [braced?, span_eq_of_all (by rfl) r fun d hd => by rw [ha d hd]; rfl]
  rfl

/-! ## Where rules begin -/

/-- Every group rule begins with a backslash, a caret or a bar. -/
theorem groupRule_eq_none {rule : Rule} (hr : rule ∈ groupRules) {c : Char} (hc : c ∉ ['\\', '^', '|'])
    (s : List Char) : rule (c :: s) = none := by
  simp only [List.mem_cons, List.not_mem_nil, or_false, not_or] at hc
  obtain ⟨hslash, hcaret, hbar⟩ := hc
  have hs : ∀ p : List Char, after? ('\\' :: p) (c :: s) = none := fun p => if_neg (Ne.symm hslash)
  have hp : ∀ p : List Char, after? ('^' :: p) (c :: s) = none := fun p => if_neg (Ne.symm hcaret)
  simp only [groupRules, List.mem_cons, List.not_mem_nil, or_false] at hr
  rcases hr with rfl | rfl | rfl | rfl | rfl | rfl | rfl | rfl
  · exact congrArg (Option.bind · _) (hs _)
  · exact congrArg (Option.bind · _) (hs _)
  · exact congrArg (Option.bind · _) (hs _)
  · unfold bars
    split
    · rename_i heq
      exact absurd (List.cons.inj heq).1 hbar
    · rfl
  · exact congrArg (Option.bind · _) (hs _)
  · exact congrArg (Option.bind · _) (hp _)
  · exact congrArg (Option.bind · _) (hp _)
  · exact congrArg (Option.bind · _) (hp _)

theorem turns_singleton {rule : Rule} (hr : rule ∈ groupRules) {c : Char} (hc : c ∉ ['\\', '^', '|']) :
    rule.Turns [c] [c] := .of_none fun rest => groupRule_eq_none hr hc rest

/-! ## Inert text -/

/-- Text without constructs: it has no brace and no bar, and every rule passes over it whatever follows. -/
structure Inert (s : List Char) : Prop where
  not_brace : ∀ c ∈ s, isBrace c = false
  not_bar : '|' ∉ s
  turns : ∀ rule ∈ groupRules, rule.Turns s s

namespace Inert

theorem append {s t : List Char} (hs : Inert s) (ht : Inert t) : Inert (s ++ t) where
  not_brace c hc := (List.mem_append.1 hc).elim (hs.not_brace c) (ht.not_brace c)
  not_bar h := (List.mem_append.1 h).elim hs.not_bar ht.not_bar
  turns rule hr := (hs.turns rule hr).append (ht.turns rule hr)

theorem weight (hs : Inert s) : weight s = 0 := weight_eq_zero hs.not_brace hs.not_bar

theorem of_forall_mem {s : List Char} (h : ∀ c ∈ s, c ∉ ['\\', '^', '|', '{', '}']) : Inert s where
  not_brace c hc := by
    have hmem := h c hc
    simp only [List.mem_cons, List.not_mem_nil, or_false, not_or] at hmem
    rw [isBrace, decide_eq_false hmem.2.2.2.1, decide_eq_false hmem.2.2.2.2, Bool.or_false]
  not_bar hbar := h '|' hbar (by decide)
  turns rule hr := .of_forall_mem fun c hc => turns_singleton hr fun hmem =>
    h c hc (List.mem_append_left ['{', '}'] hmem)

/-- A text is inert if no rule begins at its first character and the rest is inert. -/
theorem cons {c : Char} {s : List Char} (hc : c ∉ ['|', '{', '}'])
    (h : ∀ rule ∈ groupRules, ∀ rest, rule (c :: (s ++ rest)) = none) (hs : Inert s) : Inert (c :: s) where
  not_brace d hd := by
    simp only [List.mem_cons, List.not_mem_nil, or_false, not_or] at hc
    rcases List.mem_cons.1 hd with rfl | hd
    · rw [isBrace, decide_eq_false hc.2.1, decide_eq_false hc.2.2, Bool.or_false]
    · exact hs.not_brace d hd
  not_bar hbar := by
    rcases List.mem_cons.1 hbar with rfl | hbar
    · exact hc (by decide)
    · exact hs.not_bar hbar
  turns rule hr := .cons_of_none (h rule hr) (hs.turns rule hr)

end Inert

theorem not_mem_of_isDigit {c : Char} (hc : isDigit c = true) : c ∉ ['\\', '^', '|', '{', '}', '[', ']'] := by
  have h : ∀ d ∈ ['\\', '^', '|', '{', '}', '[', ']'], isDigit d = false := by decide
  intro hmem
  rw [h c hmem] at hc
  cases hc

theorem inert_of_isDigit {s : List Char} (h : ∀ c ∈ s, isDigit c = true) : Inert s :=
  .of_forall_mem fun c hc hmem => not_mem_of_isDigit (h c hc) (List.mem_append_left ['[', ']'] hmem)

theorem Inert.fraction_text {a b : List Char} (ha : Inert a) (hb : Inert b) :
    Inert ("((".toList ++ (a ++ (")/(".toList ++ (b ++ "))".toList)))) :=
  .append (.of_forall_mem (by decide)) (ha.append (.append (.of_forall_mem (by decide))
    (hb.append (.of_forall_mem (by decide)))))

theorem inert_caret : Inert "^(".toList :=
  .cons (by decide) (by
    intro rule hr rest
    simp only [groupRules, List.mem_cons, List.not_mem_nil, or_false] at hr
    rcases hr with rfl | rfl | rfl | rfl | rfl | rfl | rfl | rfl <;> rfl) (.of_forall_mem (by decide))

/-! ## Constructs around one text -/

/-- A construct around one text in braces: what opens it, up to its brace, and what is written before and after
the text instead. -/
structure Wrapper where
  opening : List Char
  before : List Char
  after : List Char

namespace Wrapper

/-- Another rule than the one of the construct does not begin at its opening. -/
def Foreign (w : Wrapper) (rule : Rule) : Prop := ∀ s, rule (w.opening ++ s) = none

/-- The rule takes the construct apart when the text inside has no braces, and leaves any other alone. -/
def Owns (w : Wrapper) (rule : Rule) : Prop :=
  ∀ s, rule (w.opening ++ s) = (braced? s).map fun r => (w.before ++ r.1 ++ w.after, r.2)

/-- What is asked of a construct: one rule takes it apart, the others leave it, and what is written is inert. -/
structure Sound (w : Wrapper) : Prop where
  opening_eq : ∃ c t, w.opening = c :: (t ++ ['{']) ∧ isBrace c = false ∧ ∀ d ∈ t, d ∉ ['\\', '^', '|', '{', '}']
  owns_or_foreign : ∀ rule ∈ groupRules, w.Owns rule ∨ w.Foreign rule
  exists_owns : ∃ rule ∈ groupRules, w.Owns rule
  weight_opening : weight w.opening = 1
  before_inert : Inert w.before
  after_inert : Inert w.after

def squareRoot : Wrapper := ⟨"\\sqrt\x7b".toList, "sqrt(".toList, [')']⟩

def nthRoot (n : List Char) : Wrapper :=
  ⟨"\\sqrt[".toList ++ (n ++ "]\x7b".toList), "((".toList, ")^(1/(".toList ++ (n ++ ")))".toList)⟩

def exponent : Wrapper := ⟨"^\x7b".toList, "^(".toList, [')']⟩

theorem nthRoot_opening (n : List Char) : (nthRoot n).opening = "\\sqrt[".toList ++ (n ++ "]\x7b".toList) := rfl

theorem squareRoot_owns : squareRoot.Owns Latex.squareRoot := fun s => by
  cases h : braced? s with
  | none => exact congrArg (Option.bind · _) h
  | some r => exact congrArg (Option.bind · _) h

theorem exponent_owns : exponent.Owns bracedExponent := fun s => by
  cases h : braced? s with
  | none => exact congrArg (Option.bind · _) h
  | some r => exact congrArg (Option.bind · _) h

theorem nthRoot_owns {n : List Char} (hn : n ≠ []) (hd : ∀ c ∈ n, isDigit c = true) :
    (nthRoot n).Owns Latex.nthRoot := fun s => by
  have hspan : (n ++ ']' :: '{' :: s).span (fun c => !(isBrace c || c = '[' || c = ']')) = (n, ']' :: '{' :: s) := by
    refine span_eq_of_all (by decide) _ fun c hc => ?_
    have hne := not_mem_of_isDigit (hd c hc)
    simp only [List.mem_cons, List.not_mem_nil, or_false, not_or] at hne
    simp [isBrace, hne]
  have hafter : after? "\\sqrt[".toList ((nthRoot n).opening ++ s) = some (n ++ ']' :: '{' :: s) := by
    have hassoc : (nthRoot n).opening ++ s = "\\sqrt[".toList ++ (n ++ ']' :: '{' :: s) := by
      rw [nthRoot_opening, List.append_assoc, List.append_assoc]
      rfl
    rw [hassoc, after?_append]
  obtain ⟨d, n', rfl⟩ := List.exists_cons_of_ne_nil hn
  rw [Latex.nthRoot, hafter]
  simp only [Option.bind_eq_bind, Option.bind_some, hspan]
  cases braced? s with
  | none => rfl
  | some r =>
    refine congrArg (fun w => some (w, r.2)) ?_
    rw [List.append_assoc _ _ ")))".toList, List.append_assoc _ ")^(1/(".toList]
    rfl

theorem squareRoot_sound : squareRoot.Sound where
  opening_eq := ⟨'\\', "sqrt".toList, rfl, rfl, by decide⟩
  owns_or_foreign rule hr := by
    simp only [groupRules, List.mem_cons, List.not_mem_nil, or_false] at hr
    rcases hr with rfl | rfl | rfl | rfl | rfl | rfl | rfl | rfl
    case inr.inl => exact Or.inl squareRoot_owns
    all_goals exact Or.inr fun s => rfl
  exists_owns := ⟨Latex.squareRoot, List.mem_of_getElem? (i := 1) rfl, squareRoot_owns⟩
  weight_opening := rfl
  before_inert := .of_forall_mem (by decide)
  after_inert := .of_forall_mem (by decide)

theorem exponent_sound : exponent.Sound where
  opening_eq := ⟨'^', [], rfl, rfl, nofun⟩
  owns_or_foreign rule hr := by
    simp only [groupRules, List.mem_cons, List.not_mem_nil, or_false] at hr
    rcases hr with rfl | rfl | rfl | rfl | rfl | rfl | rfl | rfl
    case inr.inr.inr.inr.inr.inr.inr => exact Or.inl exponent_owns
    all_goals exact Or.inr fun s => rfl
  exists_owns := ⟨bracedExponent, List.mem_of_getElem? (i := 7) rfl, exponent_owns⟩
  weight_opening := rfl
  before_inert := inert_caret
  after_inert := .of_forall_mem (by decide)

theorem nthRoot_sound {n : List Char} (hn : n ≠ []) (hd : ∀ c ∈ n, isDigit c = true) : (nthRoot n).Sound where
  opening_eq := by
    have hsplit : (nthRoot n).opening = '\\' :: ("sqrt[".toList ++ (n ++ [']']) ++ ['{']) := by
      rw [nthRoot_opening, List.append_assoc, List.append_assoc]
      rfl
    refine ⟨'\\', "sqrt[".toList ++ (n ++ [']']), hsplit, rfl, fun c hc => ?_⟩
    rcases List.mem_append.1 hc with hc | hc
    · exact (show ∀ c ∈ "sqrt[".toList, c ∉ ['\\', '^', '|', '{', '}'] by decide) c hc
    · rcases List.mem_append.1 hc with hc | hc
      · exact fun hmem => not_mem_of_isDigit (hd c hc) (List.mem_append_left ['[', ']'] hmem)
      · exact (show ∀ c ∈ [']'], c ∉ ['\\', '^', '|', '{', '}'] by decide) c hc
  owns_or_foreign rule hr := by
    simp only [groupRules, List.mem_cons, List.not_mem_nil, or_false] at hr
    rcases hr with rfl | rfl | rfl | rfl | rfl | rfl | rfl | rfl
    case inl => exact Or.inl (nthRoot_owns hn hd)
    all_goals exact Or.inr fun s => rfl
  exists_owns := ⟨Latex.nthRoot, List.mem_of_getElem? (i := 0) rfl, nthRoot_owns hn hd⟩
  weight_opening := by
    rw [nthRoot_opening, weight_append, weight_append, (inert_of_isDigit hd).weight]
    rfl
  before_inert := .of_forall_mem (s := "((".toList) (by decide)
  after_inert :=
    .append (.append (.of_forall_mem (s := [')']) (by decide)) (.append inert_caret
      (.of_forall_mem (s := "1/(".toList) (by decide)))) (.append (inert_of_isDigit hd) (.of_forall_mem (by decide)))

end Wrapper

/-! ## Unwinding -/

def fractionOpening : List Char := "\\frac\x7b".toList

/-- `s` is inert text and constructs; `t` is what it becomes when every construct is taken apart. -/
inductive Unwinds : List Char → List Char → Prop where
  | inert {s : List Char} (h : Inert s) : Unwinds s s
  | append {s s' t t' : List Char} (h : Unwinds s t) (h' : Unwinds s' t') : Unwinds (s ++ s') (t ++ t')
  | wrap {w : Wrapper} (hw : w.Sound) {s t : List Char} (h : Unwinds s t) :
    Unwinds (w.opening ++ (s ++ ['}'])) (w.before ++ (t ++ w.after))
  | fraction {s s' t t' : List Char} (h : Unwinds s t) (h' : Unwinds s' t') :
    Unwinds (fractionOpening ++ (s ++ (['}', '{'] ++ (s' ++ ['}']))))
      ("((".toList ++ (t ++ (")/(".toList ++ (t' ++ "))".toList))))

namespace Unwinds

/-- A text with a construct has an opening brace before any other brace. -/
theorem brace_cases {s t : List Char} (h : Unwinds s t) :
    (Inert s ∧ s = t) ∨ ∃ u v, s = u ++ '{' :: v ∧ ∀ c ∈ u, isBrace c = false := by
  induction h with
  | inert h => exact Or.inl ⟨h, rfl⟩
  | @append s s' t t' _ _ ih ih' =>
    rcases ih with ⟨hs, rfl⟩ | ⟨u, v, rfl, hu⟩
    · rcases ih' with ⟨hs', rfl⟩ | ⟨u, v, rfl, hu⟩
      · exact Or.inl ⟨hs.append hs', rfl⟩
      · refine Or.inr ⟨s ++ u, v, by simp, fun c hc => ?_⟩
        exact (List.mem_append.1 hc).elim (hs.not_brace c) (hu c)
    · exact Or.inr ⟨u, v ++ s', by simp, hu⟩
  | @wrap w hw s t _ _ =>
    obtain ⟨c, u, hopening, hc, hu⟩ := hw.opening_eq
    refine Or.inr ⟨c :: u, s ++ ['}'], by rw [hopening]; simp, fun d hd => ?_⟩
    rcases List.mem_cons.1 hd with rfl | hd
    · exact hc
    · have hmem := hu d hd
      simp only [List.mem_cons, List.not_mem_nil, or_false, not_or] at hmem
      rw [isBrace, decide_eq_false hmem.2.2.2.1, decide_eq_false hmem.2.2.2.2, Bool.or_false]
  | fraction _ _ _ _ => exact Or.inr ⟨"\\frac".toList, _, rfl, by decide⟩

end Unwinds

/-! ## One rule over a construct -/

section
variable {rule : Rule} {s u v : List Char}

/-- A rule that does not apply at the opening of a construct goes on inside it. -/
theorem Wrapper.Sound.turns_of_none {w : Wrapper} (hw : w.Sound) (hr : rule ∈ groupRules) {s' : List Char}
    (hnone : ∀ rest, rule (w.opening ++ (s ++ '}' :: rest)) = none) (hs : rule.Turns s s') :
    rule.Turns (w.opening ++ (s ++ ['}'])) (w.opening ++ (s' ++ ['}'])) := by
  obtain ⟨c, t, hopening, -, ht⟩ := hw.opening_eq
  have htail : rule.Turns (t ++ ['{']) (t ++ ['{']) := by
    refine .append (.of_forall_mem fun d hd => turns_singleton hr fun hmem => ?_) (turns_singleton hr (by decide))
    exact ht d hd (List.mem_append_left ['{', '}'] hmem)
  rw [hopening]
  refine .cons_of_none (fun rest => ?_) (htail.append (hs.append (turns_singleton hr (by decide))))
  have hrest := hnone rest
  rw [hopening] at hrest
  simpa using hrest

/-- No rule applies at the opening of a construct that encloses another one. -/
theorem Wrapper.Sound.eq_none {w : Wrapper} (hw : w.Sound) (hr : rule ∈ groupRules) (hs : s = u ++ '{' :: v)
    (hu : ∀ c ∈ u, isBrace c = false) (rest : List Char) : rule (w.opening ++ (s ++ '}' :: rest)) = none := by
  rcases hw.owns_or_foreign rule hr with howns | hforeign
  · rw [howns, hs, List.append_assoc, List.cons_append, braced?_opening hu]
    rfl
  · exact hforeign _

/-- Its own rule takes an innermost construct apart. -/
theorem Wrapper.Owns.turns {w : Wrapper} (h : w.Owns rule) (hs : Inert s) :
    rule.Turns (w.opening ++ (s ++ ['}'])) (w.before ++ (s ++ w.after)) := by
  refine .of_some (fun hnil => ?_) fun rest => ?_
  · have hlen := congrArg List.length hnil
    simp at hlen
  · have hassoc : w.opening ++ (s ++ ['}']) ++ rest = w.opening ++ (s ++ '}' :: rest) := by simp
    rw [hassoc, h, braced?_closing hs.not_brace, Option.map_some, List.append_assoc]

theorem fraction_or_eq_none (hr : rule ∈ groupRules) : rule = fraction ∨ ∀ s, rule (fractionOpening ++ s) = none := by
  simp only [groupRules, List.mem_cons, List.not_mem_nil, or_false] at hr
  rcases hr with rfl | rfl | rfl | rfl | rfl | rfl | rfl | rfl
  case inr.inr.inr.inr.inl => exact Or.inl rfl
  all_goals exact Or.inr fun s => rfl

theorem fraction_opening (s : List Char) : fraction (fractionOpening ++ s) = (braced? s).bind fun r =>
    match r with
    | (numerator, '{' :: rest) => (braced? rest).bind fun r =>
      some ("((".toList ++ numerator ++ ")/(".toList ++ r.1 ++ "))".toList, r.2)
    | _ => none := rfl

theorem turns_fraction_of_none (hr : rule ∈ groupRules) {a b a' b' : List Char}
    (hnone : ∀ rest, rule (fractionOpening ++ (a ++ '}' :: '{' :: (b ++ '}' :: rest))) = none)
    (ha : rule.Turns a a') (hb : rule.Turns b b') :
    rule.Turns (fractionOpening ++ (a ++ (['}', '{'] ++ (b ++ ['}']))))
      (fractionOpening ++ (a' ++ (['}', '{'] ++ (b' ++ ['}'])))) := by
  have hbrace : ∀ c ∈ ['}', '{'], rule.Turns [c] [c] := fun c hc =>
    turns_singleton hr ((show ∀ c ∈ ['}', '{'], c ∉ ['\\', '^', '|'] by decide) c hc)
  have hopening : rule.Turns "frac\x7b".toList "frac\x7b".toList := .of_forall_mem fun c hc =>
    turns_singleton hr ((show ∀ c ∈ "frac\x7b".toList, c ∉ ['\\', '^', '|'] by decide) c hc)
  have htail := hopening.append (ha.append ((Rule.Turns.of_forall_mem hbrace).append
    (hb.append (turns_singleton hr (c := '}') (by decide)))))
  have heq : fractionOpening = '\\' :: "frac\x7b".toList := rfl
  rw [heq] at hnone ⊢
  refine .cons_of_none (fun rest => ?_) htail
  simpa using hnone rest

/-- No rule applies at the opening of a fraction that encloses a construct. -/
theorem fraction_eq_none (hr : rule ∈ groupRules) {a b : List Char} (hab : (a = u ++ '{' :: v ∧ ∀ c ∈ u, isBrace c = false) ∨
    (Inert a ∧ b = u ++ '{' :: v ∧ ∀ c ∈ u, isBrace c = false)) (rest : List Char) :
    rule (fractionOpening ++ (a ++ '}' :: '{' :: (b ++ '}' :: rest))) = none := by
  rcases fraction_or_eq_none hr with rfl | hforeign
  · rw [fraction_opening]
    rcases hab with ⟨rfl, hu⟩ | ⟨ha, rfl, hu⟩
    · rw [List.append_assoc, List.cons_append, braced?_opening hu, Option.bind_none]
    · rw [braced?_closing ha.not_brace, Option.bind_some]
      simp only
      rw [List.append_assoc, List.cons_append, braced?_opening hu, Option.bind_none]
  · exact hforeign _

theorem turns_fraction {a b : List Char} (ha : Inert a) (hb : Inert b) :
    Rule.Turns fraction (fractionOpening ++ (a ++ (['}', '{'] ++ (b ++ ['}']))))
      ("((".toList ++ (a ++ (")/(".toList ++ (b ++ "))".toList)))) := by
  refine .of_some (List.cons_ne_nil _ _) fun rest => ?_
  have hassoc : fractionOpening ++ (a ++ (['}', '{'] ++ (b ++ ['}']))) ++ rest =
      fractionOpening ++ (a ++ '}' :: '{' :: (b ++ '}' :: rest)) := by simp
  rw [hassoc, fraction_opening, braced?_closing ha.not_brace, Option.bind_some]
  simp only
  rw [braced?_closing hb.not_brace, Option.bind_some]
  simp

end

/-! ## Lighter texts -/

/-- The text `s'` is `s`, or has less weight. -/
def Lightens (s s' : List Char) : Prop := s' = s ∨ weight s' < weight s

namespace Lightens

variable {s s' a a' b b' : List Char}

theorem refl (s : List Char) : Lightens s s := Or.inl rfl

theorem append (h : Lightens a a') (h' : Lightens b b') : Lightens (a ++ b) (a' ++ b') := by
  unfold Lightens
  rw [weight_append, weight_append]
  rcases h with rfl | hlt
  · rcases h' with rfl | hlt'
    · exact Or.inl rfl
    · exact Or.inr (by omega)
  · rcases h' with rfl | hlt' <;> exact Or.inr (by omega)

theorem wrap (h : Lightens s s') (l r : List Char) : Lightens (l ++ (s ++ r)) (l ++ (s' ++ r)) :=
  (refl l).append (h.append (refl r))

/-- If no weight is lost both parts stay as they are. -/
theorem eq_and_eq (h : Lightens a a') (h' : Lightens b b') (hweight : weight a + weight b = weight a' + weight b') :
    a' = a ∧ b' = b := by
  rcases h with rfl | hlt
  · rcases h' with rfl | hlt'
    · exact ⟨rfl, rfl⟩
    · omega
  · rcases h' with rfl | hlt' <;> omega

end Lightens

/-! ## All rules, again and again -/

/-- The rule turns the text into one that unwinds to `t`, and takes some weight away unless it changes nothing. -/
def Rule.Steps (rule : Rule) (s t : List Char) : Prop := ∃ s', rule.Turns s s' ∧ Unwinds s' t ∧ Lightens s s'

namespace Unwinds

variable {s t : List Char}

/-- **A rule turns a text into one that unwinds to the same.** -/
theorem steps {rule : Rule} (hr : rule ∈ groupRules) (h : Unwinds s t) : rule.Steps s t := by
  induction h with
  | @inert s h => exact ⟨s, h.turns rule hr, .inert h, .refl s⟩
  | @append s s' t t' h h' ih ih' =>
    obtain ⟨s₁, hturns, hs₁, hlightens⟩ := ih
    obtain ⟨s₁', hturns', hs₁', hlightens'⟩ := ih'
    exact ⟨s₁ ++ s₁', hturns.append hturns', hs₁.append hs₁', hlightens.append hlightens'⟩
  | @wrap w hw s t h ih =>
    obtain ⟨s₁, hturns, hs₁, hlightens⟩ := ih
    -- inside the construct, if the rule does not apply at its opening
    have inside : (∀ rest, rule (w.opening ++ (s ++ '}' :: rest)) = none) →
        rule.Steps (w.opening ++ (s ++ ['}'])) (w.before ++ (t ++ w.after)) := fun hnone =>
      ⟨_, hw.turns_of_none hr hnone hturns, hs₁.wrap hw, hlightens.wrap _ _⟩
    rcases h.brace_cases with ⟨hs, rfl⟩ | ⟨u, v, hs, hu⟩
    · rcases hw.owns_or_foreign rule hr with howns | hforeign
      · refine ⟨_, howns.turns hs, .inert (hw.before_inert.append (hs.append hw.after_inert)), Or.inr ?_⟩
        simp only [weight_append, hw.before_inert.weight, hw.after_inert.weight, hs.weight, hw.weight_opening]
        omega
      · exact inside fun rest => hforeign _
    · exact inside (hw.eq_none hr hs hu)
  | @fraction a b t t' h h' ih ih' =>
    obtain ⟨a₁, hturns, ha₁, hlightens⟩ := ih
    obtain ⟨b₁, hturns', hb₁, hlightens'⟩ := ih'
    have inside : (∀ rest, rule (fractionOpening ++ (a ++ '}' :: '{' :: (b ++ '}' :: rest))) = none) →
        rule.Steps (fractionOpening ++ (a ++ (['}', '{'] ++ (b ++ ['}']))))
          ("((".toList ++ (t ++ (")/(".toList ++ (t' ++ "))".toList)))) := fun hnone =>
      ⟨_, turns_fraction_of_none hr hnone hturns hturns', ha₁.fraction hb₁,
        (Lightens.refl _).append (hlightens.append (hlightens'.wrap _ _))⟩
    rcases h.brace_cases with ⟨ha, rfl⟩ | ⟨u, v, ha, hu⟩
    · rcases h'.brace_cases with ⟨hb, rfl⟩ | ⟨u, v, hb, hu⟩
      · rcases fraction_or_eq_none hr with rfl | hforeign
        · have hinert := (ha.fraction_text hb)
          refine ⟨_, turns_fraction ha hb, .inert hinert, Or.inr ?_⟩
          rw [hinert.weight]
          simp only [weight_append, ha.weight, hb.weight]
          decide
        · exact inside fun rest => hforeign _
      · exact inside (fraction_eq_none hr (Or.inr ⟨ha, hb, hu⟩))
    · exact inside (fraction_eq_none hr (Or.inl ⟨ha, hu⟩))

/-- **A text that every rule leaves alone has no construct.** -/
theorem inert_of_forall_turns (h : Unwinds s t) (hall : ∀ rule ∈ groupRules, rule.Turns s s) : Inert s := by
  induction h with
  | inert h => exact h
  | @append s s' t t' h h' ih ih' =>
    -- a rule that changed one part would take weight away from the whole
    have hparts : ∀ rule ∈ groupRules, rule.Turns s s ∧ rule.Turns s' s' := fun rule hr => by
      obtain ⟨s₁, hturns, -, hlightens⟩ := h.steps hr
      obtain ⟨s₁', hturns', -, hlightens'⟩ := h'.steps hr
      have heq := congrArg weight ((hall rule hr).unique (hturns.append hturns'))
      rw [weight_append, weight_append] at heq
      obtain ⟨rfl, rfl⟩ := hlightens.eq_and_eq hlightens' heq
      exact ⟨hturns, hturns'⟩
    exact (ih fun rule hr => (hparts rule hr).1).append (ih' fun rule hr => (hparts rule hr).2)
  | @wrap w hw s t h ih =>
    have hs : Inert s := by
      rcases h.brace_cases with ⟨hs, -⟩ | ⟨u, v, hs, hu⟩
      · exact hs
      · refine ih fun rule hr => ?_
        obtain ⟨s₁, hturns, -, -⟩ := h.steps hr
        have heq := (hall rule hr).unique (hw.turns_of_none hr (hw.eq_none hr hs hu) hturns)
        rw [List.append_cancel_left_eq, List.append_cancel_right_eq] at heq
        rwa [← heq] at hturns
    obtain ⟨rule, hr, howns⟩ := hw.exists_owns
    have heq := congrArg weight ((hall rule hr).unique (howns.turns hs))
    simp only [weight_append, hw.before_inert.weight, hw.after_inert.weight, hs.weight, hw.weight_opening] at heq
    omega
  | @fraction a b t t' h h' ih ih' =>
    have outer : (∀ rule ∈ groupRules, ∀ rest, rule (fractionOpening ++ (a ++ '}' :: '{' :: (b ++ '}' :: rest))) = none) →
        ∀ rule ∈ groupRules, rule.Turns a a ∧ rule.Turns b b := fun hnone rule hr => by
      obtain ⟨a₁, hturns, -, hlightens⟩ := h.steps hr
      obtain ⟨b₁, hturns', -, hlightens'⟩ := h'.steps hr
      have heq := congrArg weight ((hall rule hr).unique (turns_fraction_of_none hr (hnone rule hr) hturns hturns'))
      simp only [weight_append] at heq
      obtain ⟨rfl, rfl⟩ := hlightens.eq_and_eq hlightens' (by omega)
      exact ⟨hturns, hturns'⟩
    have ha : Inert a := by
      rcases h.brace_cases with ⟨ha, -⟩ | ⟨u, v, ha, hu⟩
      · exact ha
      · exact ih fun rule hr => (outer (fun rule hr => fraction_eq_none hr (Or.inl ⟨ha, hu⟩)) rule hr).1
    have hb : Inert b := by
      rcases h'.brace_cases with ⟨hb, -⟩ | ⟨u, v, hb, hu⟩
      · exact hb
      · exact ih' fun rule hr => (outer (fun rule hr => fraction_eq_none hr (Or.inr ⟨ha, hb, hu⟩)) rule hr).2
    have heq := congrArg weight ((hall Latex.fraction (List.mem_of_getElem? (i := 4) rfl)).unique (turns_fraction ha hb))
    rw [(ha.fraction_text hb).weight] at heq
    simp only [weight_append, ha.weight, hb.weight] at heq
    exact absurd heq (by decide)

/-- All rules together do to a text what one of them does. -/
theorem exists_substituteAll : ∀ {rules : List Rule} {s : List Char}, (∀ rule ∈ rules, rule ∈ groupRules) → Unwinds s t →
    ∃ s', substituteAll rules s = s' ∧ Unwinds s' t ∧
      ((s' = s ∧ ∀ rule ∈ rules, rule.Turns s s) ∨ weight s' < weight s)
  | [], s, _, h => ⟨s, rfl, h, Or.inl ⟨rfl, nofun⟩⟩
  | rule :: rules, s, hr, h => by
    obtain ⟨s₁, hturns, hs₁, hlightens⟩ := h.steps (hr rule List.mem_cons_self)
    obtain ⟨s₂, hsub, hs₂, hrest⟩ := exists_substituteAll (fun r hm => hr r (List.mem_cons_of_mem rule hm)) hs₁
    refine ⟨s₂, by rw [substituteAll_cons, hturns.substitute_eq, hsub], hs₂, ?_⟩
    rcases hlightens with rfl | hlt
    · rcases hrest with ⟨rfl, hall⟩ | hlt
      · exact Or.inl ⟨rfl, List.forall_mem_cons.2 ⟨hturns, hall⟩⟩
      · exact Or.inr hlt
    · rcases hrest with ⟨rfl, -⟩ | hlt' <;> exact Or.inr (by omega)

end Unwinds

/-- **The repeated rules take every construct apart.** -/
theorem ungroup_eq_of_unwinds {s t : List Char} (h : Unwinds s t) : ungroup s = t := by
  fun_induction ungroup s with
  | case1 s s' hlt ih =>
    obtain ⟨s₁, hsub, hs₁, -⟩ := h.exists_substituteAll fun _ hr => hr
    obtain rfl : s' = s₁ := hsub
    exact ih hs₁
  | case2 s s' hge =>
    obtain ⟨s₁, hsub, hs₁, hrest⟩ := h.exists_substituteAll fun _ hr => hr
    obtain rfl : s₁ = s' := hsub.symm
    rcases hrest with ⟨heq, hall⟩ | hlt
    · rcases h.brace_cases with ⟨-, hst⟩ | ⟨u, v, hs, -⟩
      · exact heq.trans hst
      · have hbrace := (h.inert_of_forall_turns hall).not_brace '{' (by rw [hs]; simp)
        cases hbrace
    · exact absurd hlt hge

end Heightfield.Latex
