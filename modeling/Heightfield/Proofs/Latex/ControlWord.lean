import Heightfield.Formula.Compile
import Heightfield.Proofs.Latex.Stages
/-!
# The blanks that end a command

Two LaTeX texts that differ in the blanks behind a Greek command are prepared alike up to blanks, unless they collide at
some stage of the conversion (`solidText_gap`).  They never collide if what follows begins with a character that is
part of no name and no command.
-/
namespace Heightfield.Latex

open Juxtaposition

/-! ## Trimmed texts -/

theorem trimRight_append_cons {c : Char} (hc : isBlank c = false) {b : List Char} (hb : ∀ d ∈ b, isBlank d = true)
    (u : List Char) : trimRight (u ++ c :: b) = u ++ [c] := by
  have hreverse : (u ++ c :: b).reverse = b.reverse ++ c :: u.reverse := by simp
  have hdrop : (u ++ c :: b).reverse.dropWhile isBlank = c :: u.reverse := by
    rw [hreverse]
    refine (trimLeft_append (fun d hd => hb d (List.mem_reverse.1 hd)) _).trans (trimLeft_cons hc _)
  rw [trimRight, hdrop, List.reverse_cons, List.reverse_reverse]

section
variable {q : Prop} {g : String} {w s t : List Char}

theorem Spaced.spacedIn (h : Spaced q g w s t) : SpacedIn q g w s t := by
  obtain ⟨x, y, hy, hs, ht⟩ := h
  exact ⟨x, y, fun hq => (hy hq).2, hs, ht⟩

theorem exists_command_eq (hg : g ∈ greekLetters) : ∃ k c, command g = k ++ [c] ∧ isBlank c = false := by
  have hne : g.toList ≠ [] := (areWords_greekLetters g hg).1
  refine ⟨'\\' :: g.toList.dropLast, g.toList.getLast hne, ?_, ?_⟩
  · rw [command, List.cons_append, List.dropLast_concat_getLast]
  · exact isBlank_eq_false_of_isLetter (isLetter_of_mem_greekLetters g hg _ (List.getLast_mem hne))

/-- Trimmed, the texts differ in the blanks still, unless nothing follows these. -/
theorem SpacedIn.trim (hg : g ∈ greekLetters) (hw : ∀ c ∈ w, isBlank c = true) (h : SpacedIn q g w s t) :
    Spaced q g w (trim s) (trim t) ∨ trim s = trim t := by
  obtain ⟨x, y, hy, rfl, rfl⟩ := h
  rw [Heightfield.trim, Heightfield.trim, trimLeft_append_command, trimLeft_append_command]
  rcases forall_or_exists_first isBlank y.reverse with hblanks | ⟨a, c, b, hab, ha, hc⟩
  · obtain ⟨k, c, hk, hc⟩ := exists_command_eq hg
    have hright : ∀ v : List Char, (∀ d ∈ v, isBlank d = true) →
        trimRight (trimLeft x ++ (command g ++ v)) = trimLeft x ++ k ++ [c] := fun v hv => by
      rw [hk, List.append_assoc k, ← List.append_assoc]
      exact trimRight_append_cons hc hv _
    have hy' : ∀ d ∈ y, isBlank d = true := fun d hd => hblanks d (List.mem_reverse.2 hd)
    right
    rw [hright y hy', hright (w ++ y) fun d hd => (List.mem_append.1 hd).elim (hw d) (hy' d)]
  · obtain rfl : y = b.reverse ++ c :: a.reverse := by
      rw [← List.reverse_inj, hab]
      simp
    have hright : ∀ v, trimRight (v ++ (b.reverse ++ c :: a.reverse)) = v ++ (b.reverse ++ [c]) := fun v => by
      rw [← List.append_assoc, trimRight_append_cons hc fun d hd => ha d (List.mem_reverse.1 hd), List.append_assoc]
    refine Or.inl ⟨trimLeft x, b.reverse ++ [c], fun hq => ⟨by simp, (hy hq).of_start ⟨a.reverse, by simp⟩⟩, ?_, ?_⟩
    · rw [← List.append_assoc, hright, List.append_assoc]
    · rw [← List.append_assoc, ← List.append_assoc, hright]
      simp

/-! ## Delimiters -/

theorem clear_delimiters : ∀ d ∈ delimiters, ∀ g ∈ greekLetters, Clear d.1 (command g) ∧
    Clear d.2.reverse (command g).reverse ∧ ∀ c ∈ d.2, isBlank c = false := by decide

/-- Delimiters are found before the command and behind the blanks. -/
theorem between?_spaced (hg : g ∈ greekLetters) (hw : ∀ c ∈ w, isBlank c = true) {d : List Char × List Char}
    (hd : d ∈ delimiters) (h : Spaced q g w s t) :
    Option.Rel (SpacedIn q g w) (between? d.1 d.2 s) (between? d.1 d.2 t) := by
  obtain ⟨hopening, hclosing, hblank⟩ := clear_delimiters d hd g hg
  obtain ⟨x, y, hy, rfl, rfl⟩ := h
  have hread : ∀ v : List Char, (∀ c ∈ v, isBlank c = true) → between? d.1 d.2 (x ++ (command g ++ (v ++ y))) =
      (after? d.1 x).bind fun x' => (after? d.2.reverse y.reverse).map fun y' =>
        x' ++ (command g ++ (v ++ y'.reverse)) := fun v hv => by
    rw [between?, hopening.after?_append, hclosing.after?_reverse hblank hv]
    cases hx : after? d.1 x with
    | none => simp
    | some x' =>
      cases hy : after? d.2.reverse y.reverse with
      | none => simp
      | some y' =>
        have hyy : y = y'.reverse ++ d.2 := eq_append_of_after?_reverse hy
        have hassoc : x' ++ (command g ++ (v ++ y)) = x' ++ (command g ++ (v ++ y'.reverse)) ++ d.2 := by
          rw [hyy]
          simp
        rw [if_pos (by rw [eq_append_of_after? hx, hyy]; simp only [List.length_append]; omega)]
        simp only [Option.map_some, Option.bind_some]
        rw [hassoc, List.length_append, Nat.add_sub_cancel, List.take_left]
  have hfirst := hread [] (fun _ hc => absurd hc List.not_mem_nil)
  rw [List.nil_append] at hfirst
  rw [hfirst, hread w hw]
  cases after? d.1 x with
  | none => exact .none
  | some x' =>
    cases hy' : after? d.2.reverse y.reverse with
    | none => exact .none
    | some y' =>
      have hprefix : y'.reverse <+: y := ⟨d.2, (eq_append_of_after?_reverse hy').symm⟩
      exact .some ⟨x', y'.reverse, fun hq => (hy hq).2.of_start hprefix, rfl, rfl⟩

theorem findSome?_rel {α β : Type} {R : β → β → Prop} {f f' : α → Option β} : ∀ {l : List α},
    (∀ a ∈ l, Option.Rel R (f a) (f' a)) → Option.Rel R (l.findSome? f) (l.findSome? f')
  | [], _ => .none
  | a :: l, h => by
    rw [List.findSome?_cons, List.findSome?_cons]
    cases hf : f a with
    | none =>
      have hnone := h a List.mem_cons_self
      rw [hf] at hnone
      cases hf' : f' a with
      | none => exact findSome?_rel fun b hb => h b (List.mem_cons_of_mem a hb)
      | some => rw [hf'] at hnone; cases hnone
    | some b =>
      have hsome := h a List.mem_cons_self
      rw [hf] at hsome
      cases hf' : f' a with
      | none => rw [hf'] at hsome; cases hsome
      | some b' => rwa [hf'] at hsome

theorem undelimited_spaced (hg : g ∈ greekLetters) (hw : ∀ c ∈ w, isBlank c = true) (h : Spaced q g w s t) :
    Spaced q g w (undelimited s) (undelimited t) ∨ undelimited s = undelimited t := by
  rcases h.spacedIn.trim hg hw with htrim | heq
  · have hfind := findSome?_rel fun d hd => between?_spaced hg hw hd htrim
    unfold undelimited
    dsimp only
    generalize delimiters.findSome? (fun d => between? d.1 d.2 (Heightfield.trim s)) = r at hfind ⊢
    generalize delimiters.findSome? (fun d => between? d.1 d.2 (Heightfield.trim t)) = r' at hfind ⊢
    cases hfind with
    | none => exact Or.inl htrim
    | some hin => exact hin.trim hg hw
  · exact Or.inr (by rw [undelimited, undelimited, heq])

end

/-! ## Prepared texts -/

/-- The text with its products written out, without its blanks. -/
def solid (s : List Char) : List Char := (explicit s).filter (!isBlank ·)

/-- The right-hand side of an equation with its products written out, without its blanks. -/
def solidHand (s : List Char) : Except EquationError (List Char) :=
  match s.dropWhile (· != '=') with
  | [] => .ok (solid s)
  | _ :: r => if trim r = [] then .error .emptyRightHandSide else .ok (solid r)

theorem solid_trim (s : List Char) : solid (trim s) = solid s := by
  obtain ⟨l, r, hs, hl, hr⟩ := exists_eq_append_trim (explicit s)
  have hblanks : ∀ {v : List Char}, (∀ c ∈ v, isBlank c = true) → v.filter (!isBlank ·) = [] := fun hv =>
    List.filter_eq_nil_iff.2 fun c hc => by simp [hv c hc]
  rw [solid, solid, explicit_trim]
  conv => rhs; rw [hs]
  rw [List.filter_append, List.filter_append, hblanks hl, hblanks hr, List.nil_append, List.append_nil]

theorem solidHand_of_not_mem {s : List Char} (h : '=' ∉ s) : solidHand s = .ok (solid s) := by
  have hdrop := dropWhile_ne_of_not_mem h []
  rw [List.append_nil] at hdrop
  rw [solidHand, hdrop]
  rfl

theorem solidHand_append_cons {a : List Char} (h : '=' ∉ a) (b : List Char) :
    solidHand (a ++ '=' :: b) = if trim b = [] then .error .emptyRightHandSide else .ok (solid b) := by
  rw [solidHand, dropWhile_ne_of_not_mem h]
  rfl

/-- The right-hand side of a text begins behind its first equals sign. -/
theorem not_mem_or_exists_equals (s : List Char) : '=' ∉ s ∨ ∃ a b, s = a ++ '=' :: b ∧ '=' ∉ a := by
  rcases forall_or_exists_first (· != '=') s with hs | ⟨a, c, b, rfl, ha, hc⟩
  · exact Or.inl fun hmem => bne_iff_ne.1 (hs _ hmem) rfl
  · obtain rfl : c = '=' := by simpa using hc
    exact Or.inr ⟨a, b, rfl, fun hmem => bne_iff_ne.1 (ha _ hmem) rfl⟩

theorem trim_append_blanks {r : List Char} (hr : ∀ c ∈ r, isBlank c = true) (s : List Char) : trim (s ++ r) = trim s := by
  obtain ⟨l, r', hs, hl, hr'⟩ := exists_eq_append_trim s
  conv => lhs; rw [hs, List.append_assoc, List.append_assoc]
  exact trim_append hl (fun c hc => (List.mem_append.1 hc).elim (hr' c) (hr c)) (head?_trim s) (getLast?_trim s)

theorem solidHand_trim (s : List Char) : solidHand (trim s) = solidHand s := by
  have hblank : ∀ {v : List Char}, (∀ c ∈ v, isBlank c = true) → '=' ∉ v := fun hv hmem => by cases hv _ hmem
  obtain ⟨l, r, hs, hl, hr⟩ := exists_eq_append_trim s
  rcases not_mem_or_exists_equals (trim s) with hnot | ⟨a, b, hab, ha⟩
  · have hnot' : '=' ∉ s := by
      rw [hs, List.mem_append, List.mem_append]
      exact not_or.2 ⟨hblank hl, not_or.2 ⟨hnot, hblank hr⟩⟩
    rw [solidHand_of_not_mem hnot, solidHand_of_not_mem hnot', solid_trim]
  · have hs' : s = (l ++ a) ++ '=' :: (b ++ r) := by
      rw [hs, hab]
      simp
    conv => rhs; rw [hs']
    rw [hab, solidHand_append_cons ha, solidHand_append_cons fun h => (List.mem_append.1 h).elim (hblank hl) ha,
      trim_append_blanks hr, ← solid_trim (b ++ r), trim_append_blanks hr, solid_trim]

theorem prepared_solidHand (s : List Char) : (Formula.prepared (String.ofList s)).map
    (fun t => String.ofList (t.toList.filter (!isBlank ·))) = (solidHand s).map String.ofList := by
  have htext : ∀ v : List Char, String.ofList ((explicitProducts (String.ofList v)).toList.filter (!isBlank ·)) =
      String.ofList (solid v) := fun v => by
    rw [explicitProducts, String.toList_ofList, String.toList_ofList, solid]
  rw [← solidHand_trim, Formula.prepared, rightHandSide, solidHand, String.toList_ofList]
  cases (trim s).dropWhile (· != '=') with
  | nil => exact congrArg Except.ok (htext _)
  | cons d r =>
    dsimp only
    cases htrim : trim r with
    | nil => rfl
    | cons c v =>
      rw [if_neg (List.cons_ne_nil _ _), ← solid_trim, htrim]
      exact congrArg Except.ok (htext _)

/-! ## Texts behind an ending -/

/-- Two texts are prepared alike if behind every ending they are. -/
theorem solidHand_congr {l y z : List Char} (hl : EndsIn endings l)
    (h : ∀ l', l' <:+ l → EndsIn endings l' → solid (l' ++ y) = solid (l' ++ z))
    (hyz : y.dropWhile (· != '=') = z.dropWhile (· != '=')) : solidHand (l ++ y) = solidHand (l ++ z) := by
  rcases not_mem_or_exists_equals l with hnot | ⟨a, b, rfl, ha⟩
  · rw [solidHand, solidHand, dropWhile_ne_of_not_mem hnot, dropWhile_ne_of_not_mem hnot, hyz, h l List.suffix_rfl hl]
  · have hb : EndsIn endings b := by
      obtain ⟨_ | ⟨d, v⟩, k, hk, hbk⟩ := hl.of_suffix areWords_endings rfl (List.suffix_append a _)
      · cases (areWords_endings k hk).2 '=' (by rw [← List.nil_append k, ← hbk]; exact List.mem_cons_self)
      · exact ⟨v, k, hk, (List.cons.inj hbk).2⟩
    have hsolid : ∀ v, trim (b ++ v) ≠ [] := fun v hnil => by
      obtain ⟨u, c, rfl, hc⟩ := hb.exists_concat areWords_endings
      obtain ⟨x, r, hs, hx, hr⟩ := exists_eq_append_trim (u ++ [c] ++ v)
      rw [hnil, List.nil_append] at hs
      have hmem : c ∈ x ++ r := by
        rw [← hs]
        simp
      have hblank := (List.mem_append.1 hmem).elim (hx c) (hr c)
      rw [isBlank_eq_false_of_isLetter hc] at hblank
      cases hblank
    rw [List.append_assoc, List.append_assoc, List.cons_append, List.cons_append, solidHand_append_cons ha,
      solidHand_append_cons ha, if_neg (hsolid y), if_neg (hsolid z),
      h b ((List.suffix_cons '=' b).trans (List.suffix_append a _)) hb]

/-- **Texts that have parted without a collision are prepared alike.** -/
theorem Separated.solidHand_eq {w s t : List Char} (hw : ∀ c ∈ w, isBlank c = true) (h : Separated w s t) :
    solidHand s = solidHand t := by
  have hdrop : ∀ y, (w ++ y).dropWhile (· != '=') = y.dropWhile (· != '=') :=
    dropWhile_ne_of_not_mem fun hmem => by cases hw _ hmem
  rcases h with rfl | ⟨l, y, hl, rfl, rfl, hfuses⟩ | ⟨l, r, hl, rfl, rfl⟩
  · rfl
  · refine solidHand_congr hl (fun l' hl' _ => (filter_explicit_append hw fun h => hfuses ?_).symm) (hdrop y).symm
    rcases eq_or_ne y [] with rfl | hne
    · exact absurd h (not_fuses_nil l')
    · exact h.mono hl' (List.prefix_refl y) hne
  · refine solidHand_congr hl (fun l' _ hends => ?_) (by rw [hdrop]; rfl)
    obtain ⟨x, a, rfl, ha⟩ := hends.exists_concat areWords_endings
    have hput : StarPut (x ++ [a] ++ '(' :: r) (x ++ [a] ++ '*' :: '(' :: r) := by
      refine ⟨x, a, '(', r, by simp, by simp, by simp [juxtaposed, ha], .of_opening (fun f hf => ?_) r⟩
      exact hends.not_suffix (not_suffix_functionNames f hf)
    have hgap : solid (x ++ [a] ++ (w ++ '(' :: r)) = solid (x ++ [a] ++ '(' :: r) :=
      filter_explicit_append hw (hends.not_fuses (List.cons_ne_nil _ _) (fun c hc => by
        obtain rfl := Option.some.inj hc
        decide))
    rw [hgap, solid, solid, hput.explicit_eq]

/-! ## Stages of a conversion -/

/-- The text after the rules before groups, the groups, and the first `n` of the rules behind them. -/
def stage (n : Nat) (s : List Char) : List Char :=
  substituteAll (lateRules.take n) (ungroup (substituteAll openingRules (undelimited s)))

theorem plainText_eq {s : List Char} (h : trim s ≠ []) : plainText s = trim (stage lateRules.length s) := by
  have hempty : (trim s).isEmpty = false := by simpa using h
  rw [plainText, hempty, stage, List.take_length, lateRules, substituteAll_append]
  exact congrArg trim (braceRule_turns _).substitute_eq.symm

theorem trim_ne_nil_of_mem {s : List Char} {c : Char} (hc : c ∈ s) (hblank : isBlank c = false) : trim s ≠ [] := fun hnil => by
  obtain ⟨l, r, hs, hl, hr⟩ := exists_eq_append_trim s
  rw [hnil, List.nil_append] at hs
  have h := (List.mem_append.1 (hs ▸ hc)).elim (hl c) (hr c)
  rw [hblank] at h
  cases h

/-- **Two texts that differ in the blanks behind a command are prepared alike, unless they collide at some stage.** -/
theorem solidHand_spaced {q : Prop} {g : String} (hg : g ∈ greekLetters) {w : List Char} (hw : ∀ c ∈ w, isBlank c = true)
    {s t : List Char} (h : Spaced q g w s t) : (¬q ∧ ∃ n, Collide w (stage n s) (stage n t)) ∨
      solidHand (plainText s) = solidHand (plainText t) := by
  rcases eq_or_ne w [] with rfl | hne
  · obtain ⟨x, y, -, rfl, rfl⟩ := h
    exact Or.inr rfl
  have hslash : '\\' ∈ s ∧ '\\' ∈ t := by
    obtain ⟨x, y, -, rfl, rfl⟩ := h
    simp [command]
  rw [plainText_eq (trim_ne_nil_of_mem hslash.1 rfl), plainText_eq (trim_ne_nil_of_mem hslash.2 rfl), solidHand_trim,
    solidHand_trim, stage, stage, List.take_length]
  rcases undelimited_spaced hg hw h with hspaced | heq
  · have hgo := lateRules_go hw hne hg (ungroup_spaced hg hw (substituteAll_spaced (openingRules_spaced hg hw) hspaced))
    exact hgo.imp_right fun h => h.solidHand_eq hw
  · exact Or.inr (by rw [heq])

/-! ## The blanks behind a command -/

/-- A LaTeX text prepared for the compiler, without its blanks. -/
def solidText (s : String) : Except EquationError String :=
  (Formula.prepared (latexToPlain s)).map fun t => String.ofList (t.toList.filter (!isBlank ·))

/-- **The blanks behind a Greek command count for nothing, unless what stands before them and what stands behind them
run together** at some stage of the conversion.  That never happens if the text behind them begins with a character
that is part of no name and no command, and is no bar. -/
theorem solidText_gap {g gap : String} (hg : g ∈ greekLetters) (hgap : ∀ c ∈ gap.toList, isBlank c = true) (a b : String) :
    (solidText (a ++ ("\\" ++ g ++ b)) = solidText (a ++ ("\\" ++ g ++ (gap ++ b))) ∨
      ∃ n, Collide gap.toList (stage n (a ++ ("\\" ++ g ++ b)).toList) (stage n (a ++ ("\\" ++ g ++ (gap ++ b))).toList)) ∧
    (b ≠ "" → BeginsQuietly b.toList → solidText (a ++ ("\\" ++ g ++ b)) = solidText (a ++ ("\\" ++ g ++ (gap ++ b)))) := by
  have hsolid : ∀ s, solidText s = (solidHand (plainText s.toList)).map String.ofList := fun s => prepared_solidHand _
  have hspaced : ∀ q : Prop, (q → b.toList ≠ [] ∧ BeginsQuietly b.toList) →
      Spaced q g gap.toList (a ++ ("\\" ++ g ++ b)).toList (a ++ ("\\" ++ g ++ (gap ++ b))).toList := fun q hq =>
    ⟨a.toList, b.toList, hq, by simp [command], by simp [command]⟩
  rw [hsolid, hsolid]
  constructor
  · rcases solidHand_spaced hg hgap (hspaced False False.elim) with ⟨-, hcollide⟩ | heq
    · exact Or.inr hcollide
    · exact Or.inl (by rw [heq])
  · intro hne hquiet
    rcases solidHand_spaced hg hgap (hspaced True fun _ => ⟨by simpa using hne, hquiet⟩) with ⟨hnot, -⟩ | heq
    · exact absurd trivial hnot
    · rw [heq]

theorem solidText_gap_power : "pi" ∈ greekLetters ∧ (∀ c ∈ " ".toList, isBlank c = true) ∧ BeginsQuietly "^2".toList ∧
    solidText ("2x" ++ ("\\" ++ "pi" ++ "^2")) = solidText ("2x" ++ ("\\" ++ "pi" ++ (" " ++ "^2"))) ∧
    solidText ("2x" ++ ("\\" ++ "pi" ++ "^2")) = .ok "2*x*pi^2" :=
  ⟨by decide, by decide, by decide, (solidText_gap (by decide) (by decide) "2x" "^2").2 (by decide) (by decide),
    by decide +kernel⟩

/-- Behind a function command the blank counts: the rule for the function takes the backslash that parts its name from
that of the letter, so the letter's command is none any more. -/
theorem not_solidText_gap : ¬∀ g ∈ greekLetters, ∀ a b : String, b ≠ "" →
    (∀ c ∈ b.toList.head?, isLetter c = false ∧ isBlank c = false) →
    solidText (a ++ ("\\" ++ g ++ b)) = solidText (a ++ ("\\" ++ g ++ (" " ++ b))) := fun h => by
  have hfused : solidText ("" ++ ("\\" ++ "pi" ++ "\\sin(x)")) = .ok "p*i*sin(x)" := by decide +kernel
  have hgap : solidText ("" ++ ("\\" ++ "pi" ++ (" " ++ "\\sin(x)"))) = .ok "pi*sin(x)" := by decide +kernel
  have heq := h "pi" (by decide) "" "\\sin(x)" (by decide) (by decide)
  rw [hfused, hgap] at heq
  exact absurd heq (by decide)

end Heightfield.Latex
