import Heightfield.Latex.Plain
import Heightfield.Proofs.Latex.Closing
/-!
# Terms are converted as they are built

The stages one after the other take `Term.latex` to `Term.plain` (`plainText_append`), bare or between
math-mode delimiters (`latexToPlain_latex`).
-/
namespace Heightfield.Latex

open Lexeme (Placed Spelling)

/-! ## The rules after groups -/

theorem letterCommands_greek : ∀ g ∈ "e" :: greekLetters,
    (∀ c ∈ g.toList, isLetter c = true) ∧ g.toList ∉ structureWords := by decide

theorem quadSpace_readsBackslash : Rule.ReadsBackslash quadSpace := fun c s hc => by
  rw [quadSpace, afterWord?_of_ne_backslash hc, afterWord?_of_ne_backslash hc]
  rfl

theorem substitute_product {rule : Rule} (hsingle : ∀ c, rule [c] = none)
    (hpair : ∀ c d s, Apart c d = true → rule (c :: d :: s) = none) (t : Term) :
    substitute rule (t.text .plain) = t.text .plain :=
  substitute_eq_self_of_isChain hsingle hpair (isChain_plain t.placed_lexemes)

theorem apart_iff {c d : Char} : Apart c d = true ↔
    (isDecimalDigit c = true → isLetter d = false) ∧
      (c = ')' → isLetter d = false ∧ isDecimalDigit d = false ∧ d ≠ '(') := by
  unfold Apart
  cases isDecimalDigit c <;> cases isLetter d <;> cases isDecimalDigit d <;>
    by_cases hc : c = ')' <;> by_cases hd : d = '(' <;> simp [hc, hd]

theorem substitute_digitLetter (t : Term) : substitute digitLetter (t.text .plain) = t.text .plain :=
  substitute_product (fun _ => rfl) (fun c d s h => by
    rw [digitLetter, if_neg]
    rw [Bool.and_eq_true, not_and, Bool.not_eq_true]
    exact (apart_iff.1 h).1) t

theorem substitute_closingLetter (t : Term) : substitute closingLetter (t.text .plain) = t.text .plain :=
  substitute_product (fun _ => by unfold closingLetter; split <;> simp_all) (fun c d s h => by
    unfold closingLetter
    split
    · rename_i heq
      obtain ⟨rfl, hs⟩ := List.cons.inj heq
      obtain ⟨rfl, -⟩ := List.cons.inj hs
      rw [((apart_iff.1 h).2 rfl).1]
      rfl
    · rfl) t

theorem substitute_closingDigit (t : Term) : substitute closingDigit (t.text .plain) = t.text .plain :=
  substitute_product (fun _ => by unfold closingDigit; split <;> simp_all) (fun c d s h => by
    unfold closingDigit
    split
    · rename_i heq
      obtain ⟨rfl, hs⟩ := List.cons.inj heq
      obtain ⟨rfl, -⟩ := List.cons.inj hs
      rw [((apart_iff.1 h).2 rfl).2.1]
      rfl
    · rfl) t

theorem substitute_closingOpening (t : Term) : substitute (literal ")(" ")*(") (t.text .plain) = t.text .plain := by
  have hread : ")(".toList = [')', '('] := rfl
  refine substitute_product (fun c => ?_) (fun c d s h => ?_) t
  · unfold literal
    rw [hread, after?]
    split <;> rfl
  · unfold literal
    rw [hread, after?]
    split
    · rename_i hc
      rw [after?, if_neg ((apart_iff.1 h).2 hc.symm).2.2.symm]
      rfl
    · rfl

/-- **The rules after groups finish the term.** -/
theorem substituteAll_closingRules (t : Term) : substituteAll closingRules (t.text .unwound) = t.text .plain := by
  have hletter : ∀ g ∈ "e" :: greekLetters, substitute (letterCommand g g) (t.text .unwound) = t.text .unwound :=
    fun g hg => (Rule.Turns.flatMap fun x _ =>
      letterCommand_turns_text g (letterCommands_greek g hg).1 (letterCommands_greek g hg).2 x).substitute_eq
  have hgreek : substituteAll (greekLetters.map fun g => letterCommand g g) (t.text .unwound) = t.text .unwound :=
    substituteAll_eq_self (by
      rw [List.forall_mem_map]
      exact fun g hg => hletter g (List.mem_cons_of_mem "e" hg))
  rw [closingRules, substituteAll_append, hgreek, substituteAll_cons, hletter "e" List.mem_cons_self,
    substituteAll_cons, substitute_cdot, substituteAll_cons,
    substitute_operatorCommand_dotted (fun _ => ⟨rfl, rfl⟩), substituteAll_cons,
    substitute_operatorCommand_dotted (fun _ => ⟨rfl, rfl⟩), substituteAll_cons, substitute_opening,
    substituteAll_cons, substitute_closing]
  have hliteral : ∀ read written l, read.toList = '\\' :: l →
      substitute (literal read written) (t.text .plain) = t.text .plain := fun read written l hread =>
    (literal_readsBackslash read written hread).substitute_plain t
  -- one fact for each rule that is left, in their order
  refine substituteAll_eq_self ?_
  simp only [List.forall_mem_cons]
  exact ⟨hliteral _ _ _ rfl, hliteral _ _ _ rfl, hliteral _ _ _ rfl, hliteral _ _ _ rfl, hliteral _ _ _ rfl,
    hliteral _ _ _ rfl, hliteral _ _ _ rfl, hliteral _ _ _ rfl, hliteral _ _ _ rfl,
    quadSpace_readsBackslash.substitute_plain t, substitute_digitLetter t, substitute_closingLetter t,
    substitute_closingOpening t, substitute_runOpening_plain t, substitute_closingDigit t,
    hliteral _ _ _ rfl, nofun⟩

/-! ## Around the rules -/

theorem Lexeme.mem_plain (x : Lexeme) : ∀ c ∈ x.text .plain,
    isAlphanumeric c = true ∨ c ∈ [' ', '(', ')', '^', '/', '+', '-', '*'] := by
  intro c hc
  cases x with
  | letter d => exact Or.inl (by rw [List.mem_singleton.1 hc]; exact isAlphanumeric_of_isLetter d.2)
  | number n => exact Or.inl (isAlphanumeric_of_isDigit (n.isDigit_of_mem c hc))
  | mark g =>
    refine (g.mem_plain c hc).imp_right ?_
    exact (by decide : ∀ c ∈ ['(', ')', '^', '/'], c ∈ [' ', '(', ')', '^', '/', '+', '-', '*']) c
  | opening => exact Or.inr ((by decide : ∀ c ∈ "(".toList, c ∈ [' ', '(', ')', '^', '/', '+', '-', '*']) c hc)
  | closing => exact Or.inr ((by decide : ∀ c ∈ ")".toList, c ∈ [' ', '(', ')', '^', '/', '+', '-', '*']) c hc)
  | call f =>
    rcases List.mem_append.1 hc with hc | hc
    · exact Or.inl (isAlphanumeric_of_mem_functionCommands f.1 f.2 c hc)
    · exact Or.inr ((by decide : ∀ c ∈ "(".toList, c ∈ [' ', '(', ')', '^', '/', '+', '-', '*']) c hc)
  | sign s =>
    have h : ∀ s : Sign, ∀ c ∈ s.plain, c ∈ [' ', '(', ')', '^', '/', '+', '-', '*'] := by
      rintro (_ | _ | _) <;> decide
    exact Or.inr (h s c hc)

/-- There are no braces left to become parentheses. -/
theorem map_parenthesis_plain (t : Term) : (t.text .plain).map parenthesis = t.text .plain := by
  have hother : ∀ c ∈ [' ', '(', ')', '^', '/', '+', '-', '*'], parenthesis c = c := by decide
  have hself : ∀ c ∈ t.text .plain, parenthesis c = id c := fun c hc => by
    obtain ⟨x, -, hx⟩ := List.mem_flatMap.1 hc
    rcases x.mem_plain c hx with h | h
    · rw [parenthesis, if_neg (by rintro rfl; cases h), if_neg (by rintro rfl; cases h)]
      rfl
    · exact hother c h
  rw [List.map_congr_left hself, List.map_id]

/-- The text begins with a letter, a digit or a control word. -/
def BeginsTerm (s : List Char) : Prop :=
  ∃ c r, s = c :: r ∧ (isAlphanumeric c = true ∨ (c = '\\' ∧ ∃ d r', r = d :: r' ∧ isLetter d = true))

theorem beginsTerm_latex (t : Term) : BeginsTerm (t.text .latex) := by
  obtain ⟨x, xs, ht, hx⟩ := t.exists_lexemes_cons
  rw [Term.text, ht, List.flatMap_cons]
  cases x with
  | letter c => exact ⟨c.1, _, rfl, Or.inl (isAlphanumeric_of_isLetter c.2)⟩
  | number n =>
    obtain ⟨d, r, hdigits⟩ := List.exists_cons_of_ne_nil n.ne_nil
    have hd := n.isDigit_of_mem d (by rw [hdigits]; exact List.mem_cons_self)
    refine ⟨d, r ++ xs.flatMap (Lexeme.text .latex), ?_, Or.inl (isAlphanumeric_of_isDigit hd)⟩
    rw [Lexeme.text, hdigits, List.cons_append]
  | mark g =>
    cases g with
    | fractionOpening => exact ⟨'\\', _, rfl, Or.inr ⟨rfl, 'f', _, rfl, rfl⟩⟩
    | rootOpening => exact ⟨'\\', _, rfl, Or.inr ⟨rfl, 's', _, rfl, rfl⟩⟩
    | nthOpening n => exact ⟨'\\', _, rfl, Or.inr ⟨rfl, 's', _, rfl, rfl⟩⟩
    | _ => cases hx
  | opening => exact ⟨'\\', _, rfl, Or.inr ⟨rfl, 'l', _, rfl, rfl⟩⟩
  | call f =>
    have hne : ∀ f ∈ functionCommands, f.1.toList ≠ [] := by decide
    obtain ⟨d, r, hword⟩ := List.exists_cons_of_ne_nil (hne f.1 f.2)
    have hd := isLetter_of_mem_functionCommands f.1 f.2 d (by rw [hword]; exact List.mem_cons_self)
    refine ⟨'\\', f.1.1.toList ++ "\\left(".toList ++ xs.flatMap (Lexeme.text .latex), rfl, Or.inr ⟨rfl, d, ?_⟩⟩
    rw [hword]
    exact ⟨_, rfl, hd⟩
  | _ => cases hx

theorem getLast_text {sp : Spelling} (hmark : ∀ g, (Lexeme.mark g).ends = true → ∃ l c, sp.mark g = l ++ [c] ∧ isBlank c = false)
    (hclosing : ∃ l c, sp.closing = l ++ [c] ∧ isBlank c = false) (t : Term) :
    ∀ c ∈ (t.text sp).getLast?, isBlank c = false := by
  obtain ⟨xs, x, ht, hx⟩ := t.exists_lexemes_concat
  have hlast : ∃ l c, x.text sp = l ++ [c] ∧ isBlank c = false := by
    cases x with
    | letter c => exact ⟨[], c.1, rfl, isBlank_eq_false_of_isAlphanumeric (isAlphanumeric_of_isLetter c.2)⟩
    | number n =>
      refine ⟨n.digits.dropLast, n.digits.getLast n.ne_nil, (List.dropLast_concat_getLast n.ne_nil).symm, ?_⟩
      have hd := n.isDigit_of_mem _ (List.getLast_mem n.ne_nil)
      exact isBlank_eq_false_of_isAlphanumeric (isAlphanumeric_of_isDigit hd)
    | mark g => exact hmark g hx
    | closing => exact hclosing
    | _ => cases hx
  obtain ⟨l, c, htext, hc⟩ := hlast
  intro d hd
  rw [Term.text, ht, List.flatMap_append, List.flatMap_singleton, htext, ← List.append_assoc,
    List.getLast?_concat] at hd
  obtain rfl := Option.some.inj hd
  exact hc

theorem trim_plain (t : Term) : trim (t.text .plain) = t.text .plain := by
  refine trim_eq_self (fun c hc => ?_) (getLast_text (fun g hg => ?_) ⟨[], ')', rfl, rfl⟩ t)
  · rcases Spelling.late_plain.follows t.placed_lexemes with ⟨d, r, hd, h⟩ | ⟨r, hr⟩
    · rw [Term.text, hd] at hc
      obtain rfl := Option.some.inj hc
      rcases h with h | rfl
      · exact isBlank_eq_false_of_isAlphanumeric h
      · rfl
    · rw [Term.text, hr] at hc
      obtain rfl := Option.some.inj hc
      rfl
  · cases g with
    | fractionClosing => exact ⟨[')'], ')', rfl, rfl⟩
    | rootClosing => exact ⟨[], ')', rfl, rfl⟩
    | nthClosing n =>
      refine ⟨")^(1/(".toList ++ (n.digits ++ "))".toList), ')', ?_, rfl⟩
      rw [List.append_assoc, List.append_assoc]
      rfl
    | exponentClosing => exact ⟨[], ')', rfl, rfl⟩
    | _ => cases hg

theorem getLast_latex (t : Term) : ∀ c ∈ (t.text .latex).getLast?, isBlank c = false := by
  refine getLast_text (fun g hg => ?_) ⟨"\\right".toList, ')', rfl, rfl⟩ t
  cases g with
  | fractionClosing | rootClosing | nthClosing _ | exponentClosing => exact ⟨[], '}', rfl, rfl⟩
  | _ => cases hg

/-! ## Delimiters -/

theorem between?_eq_none {o c s : List Char} (h : after? o s = none) : between? o c s = none := by
  unfold between?
  split
  · rw [h]
  · rfl

theorem between?_append (o c s : List Char) : between? o c (o ++ (s ++ c)) = some s := by
  have hrev : (o ++ (s ++ c)).reverse = c.reverse ++ (s.reverse ++ o.reverse) := by simp
  rw [between?, if_pos (by simp only [List.length_append]; omega), after?_append, hrev, after?_append]
  simp

theorem undelimited_eq_self {s : List Char} (htrim : trim s = s)
    (h : ∀ d ∈ delimiters, between? d.1 d.2 s = none) : undelimited s = s := by
  have hnone : (delimiters.findSome? fun d => between? d.1 d.2 s) = none := List.findSome?_eq_none_iff.2 h
  unfold undelimited
  simp only [htrim, hnone]

theorem undelimited_of_some {s r : List Char} (htrim : trim s = s) (hr : trim r = r) (pre : List (List Char × List Char))
    {post : List (List Char × List Char)} {d : List Char × List Char} (hsplit : delimiters = pre ++ d :: post)
    (hpre : ∀ e ∈ pre, between? e.1 e.2 s = none) (hd : between? d.1 d.2 s = some r) : undelimited s = r := by
  have hsome : (delimiters.findSome? fun d => between? d.1 d.2 s) = some r := by
    rw [hsplit, List.findSome?_append, List.findSome?_eq_none_iff.2 hpre, List.findSome?_cons, hd]
    rfl
  unfold undelimited
  simp only [htrim, hsome, hr]

theorem trim_of_ends {a b : Char} (ha : isBlank a = false) (hb : isBlank b = false) (o s cl : List Char) :
    trim (a :: o ++ (s ++ (cl ++ [b]))) = a :: o ++ (s ++ (cl ++ [b])) := by
  refine trim_eq_self (fun d hd => ?_) fun d hd => ?_
  · obtain rfl := Option.some.inj hd
    exact ha
  · rw [← List.append_assoc, ← List.append_assoc, List.getLast?_concat] at hd
    obtain rfl := Option.some.inj hd
    exact hb

namespace BeginsTerm

variable {s : List Char}

theorem append (h : BeginsTerm s) (t : List Char) : BeginsTerm (s ++ t) := by
  obtain ⟨c, r, rfl, hc⟩ := h
  refine ⟨c, r ++ t, rfl, hc.imp_right fun ⟨hbackslash, d, r', hr, hd⟩ => ⟨hbackslash, d, r' ++ t, ?_, hd⟩⟩
  rw [hr, List.cons_append]

theorem isBlank_eq_false (h : BeginsTerm s) : ∀ c ∈ s.head?, isBlank c = false := by
  obtain ⟨c, r, rfl, hc⟩ := h
  intro d hd
  obtain rfl := Option.some.inj hd
  rcases hc with hc | ⟨rfl, -⟩
  · exact isBlank_eq_false_of_isAlphanumeric hc
  · rfl

theorem after?_dollar (h : BeginsTerm s) (p : List Char) : after? ('$' :: p) s = none := by
  obtain ⟨c, r, rfl, hc⟩ := h
  refine if_neg ?_
  rintro rfl
  rcases hc with hc | ⟨hc, -⟩ <;> cases hc

/-- A backslash stands before a letter. -/
theorem after?_backslash (h : BeginsTerm s) {b : Char} (hb : isLetter b = false) : after? ['\\', b] s = none := by
  obtain ⟨c, r, rfl, hc⟩ := h
  rcases hc with hc | ⟨rfl, d, r', rfl, hd⟩
  · exact if_neg (by rintro rfl; cases hc)
  · have hne : b ≠ d := by
      rintro rfl
      rw [hb] at hd
      cases hd
    exact (if_pos rfl).trans (if_neg hne)

end BeginsTerm

/-- A text that begins like a term loses its delimiters, and nothing when it has none. -/
theorem undelimited_append {s : List Char} (hhead : BeginsTerm s) (hlast : ∀ c ∈ s.getLast?, isBlank c = false) :
    ∀ d ∈ ([], []) :: delimiters, undelimited (d.1 ++ (s ++ d.2)) = s := by
  have htrim : trim s = s := trim_eq_self hhead.isBlank_eq_false hlast
  intro d hd
  -- a pair is found if none of those tried before it encloses the text
  simp only [delimiters, List.mem_cons, List.not_mem_nil, or_false] at hd
  rcases hd with rfl | rfl | rfl | rfl | rfl
  case inl =>
    rw [List.nil_append, List.append_nil]
    refine undelimited_eq_self htrim ?_
    simp only [delimiters, List.forall_mem_cons]
    exact ⟨between?_eq_none (hhead.after?_dollar ['$']), between?_eq_none (hhead.after?_backslash rfl),
      between?_eq_none (hhead.after?_dollar []), between?_eq_none (hhead.after?_backslash rfl), nofun⟩
  case inr.inl =>
    exact undelimited_of_some (trim_of_ends rfl rfl ['$'] s ['$']) htrim [] rfl nofun
      (between?_append _ _ _)
  case inr.inr.inl =>
    refine undelimited_of_some (trim_of_ends rfl rfl ['['] s ['\\']) htrim (delimiters.take 1) rfl ?_
      (between?_append _ _ _)
    exact List.forall_mem_cons.2 ⟨between?_eq_none rfl, nofun⟩
  case inr.inr.inr.inl =>
    refine undelimited_of_some (trim_of_ends rfl rfl [] s []) htrim (delimiters.take 2) rfl ?_
      (between?_append _ _ _)
    have hdouble : after? ['$', '$'] ('$' :: (s ++ ['$'])) = none := (if_pos rfl).trans ((hhead.append _).after?_dollar [])
    exact List.forall_mem_cons.2 ⟨between?_eq_none hdouble, List.forall_mem_cons.2 ⟨between?_eq_none rfl, nofun⟩⟩
  case inr.inr.inr.inr =>
    refine undelimited_of_some (trim_of_ends rfl rfl ['('] s ['\\']) htrim (delimiters.take 3) rfl ?_
      (between?_append _ _ _)
    exact List.forall_mem_cons.2 ⟨between?_eq_none rfl, List.forall_mem_cons.2 ⟨between?_eq_none rfl,
      List.forall_mem_cons.2 ⟨between?_eq_none rfl, nofun⟩⟩⟩

/-! ## Conversion -/

/-- **The converter writes a term in the dialect**, whatever is around it. -/
theorem plainText_append (t : Term) {d : List Char × List Char} (hd : d ∈ ([], []) :: delimiters) :
    plainText (d.1 ++ (t.latex ++ d.2)) = t.plain := by
  have hu := undelimited_append (beginsTerm_latex t) (getLast_latex t) d hd
  rw [t.text_latex] at hu
  have hne : (trim (d.1 ++ (t.latex ++ d.2))).isEmpty = false := by
    cases htrim : trim (d.1 ++ (t.latex ++ d.2)) with
    | cons => rfl
    | nil =>
      have hnil : undelimited (d.1 ++ (t.latex ++ d.2)) = [] := by
        unfold undelimited
        simp only [htrim]
        rfl
      obtain ⟨c, r, ht, -⟩ := beginsTerm_latex t
      rw [t.text_latex, ← hu, hnil] at ht
      cases ht
  have hplain : plainText (d.1 ++ (t.latex ++ d.2)) = trim ((substituteAll closingRules (ungroup
      (substituteAll openingRules (undelimited (d.1 ++ (t.latex ++ d.2)))))).map parenthesis) :=
    if_neg (by rw [hne]; exact Bool.false_ne_true)
  rw [hplain, hu, ← t.text_latex, substituteAll_openingRules, ungroup_text,
    substituteAll_closingRules, map_parenthesis_plain, trim_plain, t.text_plain]

/-- **A LaTeX term stands for the same term in the dialect**, at any depth and between any math-mode delimiters. -/
theorem latexToPlain_latex (t : Term) : ∀ d ∈ ([], []) :: delimiters,
    latexToPlain (String.ofList (d.1 ++ (t.latex ++ d.2))) = String.ofList t.plain := fun d hd => by
  rw [latexToPlain, String.toList_ofList, plainText_append t hd]

def Numeral.ofDigit (c : Char) (h : isDigit c = true) : Numeral :=
  ⟨[c], List.cons_ne_nil c [], List.forall_mem_singleton.2 h⟩

/-- The cube root of a half, divided by the sine of a product. -/
def nestedTerm : Term :=
  .fraction (.nthRoot (.ofDigit '3' rfl) (.fraction (.letter ⟨'x', rfl⟩) (.number (.ofDigit '2' rfl))))
    (.call ⟨("sin", "sin"), List.mem_cons_self⟩
      (.binary .dot (.power (.letter ⟨'x', rfl⟩) (.number (.ofDigit '2' rfl))) (.letter ⟨'y', rfl⟩)))

theorem latexToPlain_nestedTerm : (['$'], ['$']) ∈ ([], []) :: delimiters ∧
    latexToPlain "$\\frac\x7b\\sqrt[3]\x7b\\frac\x7bx\x7d\x7b2\x7d\x7d\x7d\x7b\\sin\\left(x^\x7b2\x7d \\cdot y\\right)\x7d$" =
      "((((((x)/(2)))^(1/(3))))/(sin(x^(2) * y)))" :=
  ⟨by decide, latexToPlain_latex nestedTerm (['$'], ['$']) (by decide)⟩

end Heightfield.Latex
