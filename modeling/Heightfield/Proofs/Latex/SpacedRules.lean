import Heightfield.Proofs.Latex.Spacing
/-!
# Rules that notice no blanks behind a command

The rules before groups, those for groups and those for the letters other than the command's own keep two texts apart
by the same blanks (`openingRules_spaced`, `ungroup_spaced`, `letterCommand_spaced`).  Each is written as a fixed text
and a way of reading what follows (`opened`), which is put together from readers of braces, bars and words.
-/
namespace Heightfield.Latex

/-! ## The ways of reading -/

/-- The text, if it is not empty. -/
def nonempty? : List Char → Option (List Char)
  | [] => none
  | c :: s => some (c :: s)

theorem braced?_eq : braced? = enclosed (fun c => !isBrace c) ['\x7d'] := by
  funext s
  rw [braced?, List.span_eq_takeWhile_dropWhile, enclosed]
  generalize s.takeWhile _ = contents
  generalize s.dropWhile _ = rest
  rcases rest with _ | ⟨c, rest⟩
  · rfl
  · by_cases hc : c = '\x7d'
    · subst hc; rfl
    · simp [after?, hc, Ne.symm hc]

theorem barred?_eq : barred? = fun s => (enclosed (· != '|') ['|'] s).bind fun r => (nonempty? r.1).map (·, r.2) := by
  funext s
  rw [barred?, List.span_eq_takeWhile_dropWhile, enclosed]
  generalize s.takeWhile _ = contents
  generalize s.dropWhile _ = rest
  rcases rest with _ | ⟨c, rest⟩
  · cases contents <;> rfl
  · by_cases hc : c = '|'
    · subst hc; cases contents <;> rfl
    · cases contents <;> simp [after?, hc, Ne.symm hc]

/-- The index of a root: no brace and no bracket, and a brace group behind it. -/
def index? : Rule := fun s =>
  (enclosed (fun c => !(isBrace c || c = '[' || c = ']')) "]\x7b".toList s).bind fun r => (nonempty? r.1).map (·, r.2)

/-- A brace group whose contents end in `\right` or in `\right\`. -/
def sizedBraced? : Rule := fun s => (braced? s).bind fun r =>
  ((before? "\\right".toList r.1).or (before? "\\right\\".toList r.1)).map (·, r.2)

/-! ## The rules for groups -/

theorem nthRoot_eq : nthRoot = opened "\\sqrt[".toList fun s => (index? s).bind fun r => (braced? r.2).map fun r' =>
    ("((".toList ++ r'.1 ++ ")^(1/(".toList ++ r.1 ++ ")))".toList, r'.2) := by
  funext s
  refine congrArg (Option.bind _) (funext fun s => ?_)
  simp only [index?, enclosed, List.span_eq_takeWhile_dropWhile]
  generalize s.takeWhile _ = index
  generalize s.dropWhile _ = rest
  rcases index with _ | ⟨d, index⟩
  · cases after? "]\x7b".toList rest <;> rfl
  · split
    · rename_i heq
      cases congrArg Prod.fst heq
    · rename_i rest _ heq
      obtain ⟨rfl, rfl⟩ := Prod.mk.inj heq
      rw [show after? "]\x7b".toList (']' :: '\x7b' :: rest) = some rest from rfl]
      exact Option.map_eq_bind.symm
    · rename_i hnot
      cases h : after? "]\x7b".toList rest with
      | none => rfl
      | some r => exact absurd (congrArg (d :: index, ·) (eq_append_of_after? h)) (hnot _ _)

theorem squareRoot_eq : squareRoot = opened "\\sqrt\x7b".toList fun s => (braced? s).map fun r =>
    ("sqrt(".toList ++ r.1 ++ [')'], r.2) := by
  funext s
  refine congrArg (Option.bind _) (funext fun s => ?_)
  cases braced? s <;> rfl

theorem sizedBars_eq : sizedBars = opened "\\left|".toList fun s => (barred? s).bind fun r =>
    (((before? "\\right".toList r.1).bind nonempty?).map absolute).map (·, r.2) := by
  funext s
  refine congrArg (Option.bind _) (funext fun s => congrArg (Option.bind _) (funext fun ⟨contents, rest⟩ => ?_))
  dsimp only
  generalize before? "\\right".toList contents = contents
  rcases contents with _ | _ | ⟨c, contents⟩ <;> rfl

theorem bars_eq : bars = opened "|".toList fun s => (barred? s).map fun r => (absolute r.1, r.2) := by
  funext s
  rcases s with _ | ⟨c, s⟩
  · rfl
  · by_cases hc : c = '|'
    · subst hc; rfl
    · simp [bars, opened, after?, hc, Ne.symm hc]

theorem fraction_eq : fraction = opened "\\frac\x7b".toList fun s => (braced? s).bind fun r =>
    (opened "\x7b".toList braced? r.2).map fun r' =>
      ("((".toList ++ r.1 ++ ")/(".toList ++ r'.1 ++ "))".toList, r'.2) := by
  funext s
  refine congrArg (Option.bind _) (funext fun s => congrArg (Option.bind _) (funext fun r => ?_))
  obtain ⟨numerator, rest⟩ := r
  rcases rest with _ | ⟨c, rest⟩
  · rfl
  · by_cases hc : c = '\x7b'
    · subst hc
      exact (Option.map_eq_bind (f := fun r' : List Char × List Char =>
        ("((".toList ++ numerator ++ ")/(".toList ++ r'.1 ++ "))".toList, r'.2)) (x := braced? rest)).symm
    · simp [opened, after?, hc, Ne.symm hc]

theorem sizedExponent_eq : sizedExponent = opened "^\\left".toList fun s =>
    ((opened "\\\x7b".toList sizedBraced? s).or (opened "\x7b".toList sizedBraced? s)).map fun r => (exponent r.1, r.2) := by
  funext s
  refine congrArg (Option.bind _) (funext fun s => ?_)
  have hread : ∀ r, ((braced? r).bind fun r =>
      ((before? "\\right".toList r.1).orElse fun _ => before? "\\right\\".toList r.1).bind fun contents =>
        some (exponent contents, r.2)) = (sizedBraced? r).map fun r => (exponent r.1, r.2) := fun r => by
    rw [sizedBraced?, Option.map_bind]
    refine congrArg (Option.bind _) (funext fun r => ?_)
    rw [Option.orElse_eq_or, Function.comp_apply, Option.map_map, Option.map_eq_bind]
    rfl
  have hopened : ∀ p r, opened p sizedBraced? (p ++ r) = sizedBraced? r := fun p r => by
    rw [opened, after?_append, Option.bind_some]
  split
  · rename_i r
    have hfirst : opened "\\\x7b".toList sizedBraced? ('\\' :: '\x7b' :: r) = sizedBraced? r := hopened _ r
    rw [hfirst, show opened "\x7b".toList sizedBraced? ('\\' :: '\x7b' :: r) = none from rfl, Option.or_none]
    exact hread r
  · rename_i r
    have hsecond : opened "\x7b".toList sizedBraced? ('\x7b' :: r) = sizedBraced? r := hopened "\x7b".toList r
    rw [hsecond, show opened "\\\x7b".toList sizedBraced? ('\x7b' :: r) = none from rfl, Option.none_or]
    exact hread r
  · rename_i hnot hnot'
    have hnone : ∀ p, (∀ r, s ≠ p ++ r) → opened p sizedBraced? s = none := fun p hp => by
      rw [opened, Option.eq_none_iff_forall_ne_some.2 fun r hr => hp r (eq_append_of_after? hr), Option.bind_none]
    rw [hnone _ hnot, hnone "\x7b".toList hnot']
    rfl

theorem escapedExponent_eq : escapedExponent = opened "^\\\x7b".toList fun s =>
    ((braced? s).bind fun r => (before? "\\".toList r.1).map (·, r.2)).map fun r => (exponent r.1, r.2) := by
  funext s
  refine congrArg (Option.bind _) (funext fun s => ?_)
  rcases braced? s with _ | ⟨contents, rest⟩
  · rfl
  · rw [Option.bind_some, Option.map_map, Option.map_eq_bind]
    rfl

theorem bracedExponent_eq : bracedExponent = opened "^\x7b".toList fun s => (braced? s).map fun r => (exponent r.1, r.2) := by
  funext s
  refine congrArg (Option.bind _) (funext fun s => ?_)
  cases braced? s <;> rfl

/-! ## Reading over the command -/

theorem clear_command : ∀ p ∈ ["\\sqrt[", "\\sqrt\x7b", "\\left|", "|", "\\frac\x7b", "^\\left", "^\\\x7b", "^\x7b", "\\\x7b",
    "\x7b", "\x7d", "]\x7b"], ∀ g ∈ greekLetters, Clear p.toList (command g) := by decide

theorem clear_reverse_command : ∀ e ∈ ["\\right", "\\right\\", "\\"], ∀ g ∈ greekLetters,
    Clear e.toList.reverse (command g).reverse := by decide

theorem mem_command {g : String} (hg : g ∈ greekLetters) {c : Char} (hc : c ∈ command g) : c = '\\' ∨ isLetter c = true :=
  (List.mem_cons.1 hc).imp id (isLetter_of_mem_greekLetters g hg c)

theorem ne_of_letter_or_blank {c d : Char} (hc : isLetter c = true ∨ isBlank c = true) (hletter : isLetter d = false)
    (hblank : isBlank d = false) : c ≠ d := by
  rintro rfl
  rw [hletter, hblank] at hc
  simp at hc

section
variable {q : Prop} {g : String} {w : List Char}

theorem nonempty?_spaced {s t : List Char} (h : SpacedIn q g w s t) :
    Option.Rel (SpacedIn q g w) (nonempty? s) (nonempty? t) := by
  obtain ⟨hs, ht⟩ := h.ne_nil
  obtain ⟨c, s, rfl⟩ := List.exists_cons_of_ne_nil hs
  obtain ⟨d, t, rfl⟩ := List.exists_cons_of_ne_nil ht
  exact .some h

theorem eq_append_of_after?_reverse {e y r : List Char} (h : after? e.reverse y.reverse = some r) : y = r.reverse ++ e := by
  rw [← List.reverse_inj, eq_append_of_after? h, List.reverse_append, List.reverse_reverse]

/-- An ending is found behind the blanks, if at all. -/
theorem Clear.after?_reverse {e : List Char} (h : Clear e.reverse (command g).reverse) (he : ∀ c ∈ e, isBlank c = false)
    {v : List Char} (hv : ∀ c ∈ v, isBlank c = true) (x y : List Char) :
    after? e.reverse (x ++ (command g ++ (v ++ y))).reverse =
      (after? e.reverse y.reverse).map (· ++ ((v.reverse ++ (command g).reverse) ++ x.reverse)) := by
  have hreverse : (x ++ (command g ++ (v ++ y))).reverse =
      y.reverse ++ ((v.reverse ++ (command g).reverse) ++ x.reverse) := by simp
  rw [hreverse, (h.blanks he hv).after?_append]

theorem before?_spaced (hg : g ∈ greekLetters) (hw : ∀ c ∈ w, isBlank c = true) {e : String}
    (hmem : e ∈ ["\\right", "\\right\\", "\\"]) {s t : List Char} (h : SpacedIn q g w s t) :
    Option.Rel (SpacedIn q g w) (before? e.toList s) (before? e.toList t) := by
  obtain ⟨x, y, hy, rfl, rfl⟩ := h
  have hblank : ∀ c ∈ e.toList, isBlank c = false :=
    (by decide : ∀ e ∈ ["\\right", "\\right\\", "\\"], ∀ c ∈ e.toList, isBlank c = false) e hmem
  have hread : ∀ v : List Char, (∀ c ∈ v, isBlank c = true) → before? e.toList (x ++ (command g ++ (v ++ y))) =
      (after? e.toList.reverse y.reverse).map fun y' => x ++ (command g ++ (v ++ y'.reverse)) := fun v hv => by
    rw [before?, (clear_reverse_command e hmem g hg).after?_reverse hblank hv, Option.map_map]
    exact congrArg (Option.map · _) (funext fun y' => by simp)
  have hfirst := hread [] nofun
  rw [List.nil_append] at hfirst
  rw [hfirst, hread w hw]
  cases h : after? e.toList.reverse y.reverse with
  | none => exact .none
  | some y' =>
    have hprefix : y'.reverse <+: y := ⟨e.toList, (eq_append_of_after?_reverse h).symm⟩
    exact .some ⟨x, y'.reverse, fun hq => (hy hq).of_start hprefix, rfl, rfl⟩

theorem Reader.enclosed_of_letters {p : Char → Bool} {closing : List Char} (hg : g ∈ greekLetters)
    (hw : ∀ c ∈ w, isBlank c = true) (hslash : p '\\' = true)
    (hp : ∀ c, isLetter c = true ∨ isBlank c = true → p c = true) (hclosing : Clear closing (command g)) :
    Reader q g w (SpacedIn q g w) (Latex.enclosed p closing) := by
  refine .enclosed (fun c hc => ?_) (fun c hc => hp c (Or.inr (hw c hc))) hclosing
  rcases mem_command hg hc with rfl | hletter
  · exact hslash
  · exact hp c (Or.inl hletter)

theorem isBrace_eq_false_of_letter_or_blank {c : Char} (h : isLetter c = true ∨ isBlank c = true) : isBrace c = false := by
  simp [isBrace, ne_of_letter_or_blank h (d := '\x7b') rfl rfl, ne_of_letter_or_blank h (d := '\x7d') rfl rfl]

theorem braced?_reader (hg : g ∈ greekLetters) (hw : ∀ c ∈ w, isBlank c = true) :
    Reader q g w (SpacedIn q g w) braced? := by
  rw [braced?_eq]
  refine .enclosed_of_letters hg hw rfl (fun c hc => ?_) (clear_command "\x7d" (by decide) g hg)
  rw [isBrace_eq_false_of_letter_or_blank hc]
  rfl

theorem barred?_reader (hg : g ∈ greekLetters) (hw : ∀ c ∈ w, isBlank c = true) :
    Reader q g w (SpacedIn q g w) barred? := by
  rw [barred?_eq]
  refine .bind (fun _ _ => nonempty?_spaced) (.enclosed_of_letters hg hw rfl (fun c hc => ?_)
    (clear_command "|" (by decide) g hg))
  rw [bne_iff_ne]
  exact ne_of_letter_or_blank hc rfl rfl

theorem index?_reader (hg : g ∈ greekLetters) (hw : ∀ c ∈ w, isBlank c = true) :
    Reader q g w (SpacedIn q g w) index? := by
  refine .bind (fun _ _ => nonempty?_spaced) (.enclosed_of_letters hg hw rfl (fun c hc => ?_)
    (clear_command "]\x7b" (by decide) g hg))
  rw [isBrace_eq_false_of_letter_or_blank hc, decide_eq_false (ne_of_letter_or_blank hc (d := '[') rfl rfl),
    decide_eq_false (ne_of_letter_or_blank hc (d := ']') rfl rfl)]
  rfl

theorem sizedBraced?_reader (hg : g ∈ greekLetters) (hw : ∀ c ∈ w, isBlank c = true) :
    Reader q g w (SpacedIn q g w) sizedBraced? :=
  .bind (fun _ _ h => relOr (before?_spaced hg hw (e := "\\right") (by decide) h)
    (before?_spaced hg hw (e := "\\right\\") (by decide) h)) (braced?_reader hg hw)

/-! ## Groups -/

theorem SpacedIn.absolute {s t : List Char} (h : SpacedIn q g w s t) : Spaced q g w (absolute s) (absolute t) :=
  (h.append_left "abs(".toList).closed (r := [')']) (by decide) (by decide)

theorem SpacedIn.exponent {s t : List Char} (h : SpacedIn q g w s t) : Spaced q g w (exponent s) (exponent t) :=
  (h.append_left "^(".toList).closed (r := [')']) (by decide) (by decide)

/-- A rule that begins with a character that is not quiet leaves quiet texts alone. -/
theorem opened_keepsQuiet {a : Char} {p : List Char} (ha : ¬Quiet a) (read : Rule) : Rule.KeepsQuiet (opened (a :: p) read) :=
  Rule.keepsQuiet fun c s o r hc h => by
    rw [opened, after?, if_neg (by rintro rfl; exact ha hc)] at h
    cases h

theorem exponent_keepsQuiet (p : List Char) (read : Rule) :
    Rule.KeepsQuiet (opened p fun s => (read s).map fun r => (exponent r.1, r.2)) :=
  Rule.keepsQuiet fun c s o r hc h => by
    obtain ⟨v, -, hread⟩ := Option.bind_eq_some_iff.1 h
    obtain ⟨u, -, heq⟩ := Option.map_eq_some_iff.1 hread
    obtain ⟨rfl, -⟩ := Prod.mk.inj heq
    exact ⟨List.cons_ne_nil _ _, fun d hd => by
      obtain rfl := Option.some.inj hd
      decide⟩

/-- **The rules for groups notice no blanks behind a command.** -/
theorem groupRules_spaced (hg : g ∈ greekLetters) (hw : ∀ c ∈ w, isBlank c = true) :
    ∀ rule ∈ groupRules, rule.KeepsSpaces q g w := by
  have hbraced := braced?_reader (q := q) hg hw
  have hbarred := barred?_reader (q := q) hg hw
  have hclear := fun p hp => clear_command p hp g hg
  have hloud : ¬Quiet '\\' ∧ ¬Quiet '|' := by decide
  have hclosed : ∀ {l s t r : List Char}, r ≠ [] → BeginsQuietly r → SpacedIn q g w s t →
      Spaced q g w (l ++ s ++ r) (l ++ t ++ r) := fun hne hr h => (h.append_left _).closed hne hr
  intro rule hr
  simp only [groupRules, List.mem_cons, List.not_mem_nil, or_false] at hr
  rcases hr with rfl | rfl | rfl | rfl | rfl | rfl | rfl | rfl
  · rw [nthRoot_eq]
    refine Reader.keepsSpaces hg hw rfl (hclear "\\sqrt[" (by decide)) (opened_keepsQuiet hloud.1 _)
      (.andThen (f := fun c d => "((".toList ++ d ++ ")^(1/(".toList ++ c ++ ")))".toList) (fun c c' d h => ?_)
        (fun c d d' h => ?_) (index?_reader hg hw) hbraced)
    · exact hclosed (by decide) (by decide) h
    · exact ((hclosed (by decide) (by decide) h).append_right c).append_right _
  · rw [squareRoot_eq]
    refine Reader.keepsSpaces hg hw rfl (hclear "\\sqrt\x7b" (by decide)) (opened_keepsQuiet hloud.1 _)
      (hbraced.map (f := fun c => "sqrt(".toList ++ c ++ [')']) fun c c' h => ?_)
    exact hclosed (by decide) (by decide) h
  · rw [sizedBars_eq]
    exact Reader.keepsSpaces hg hw rfl (hclear "\\left|" (by decide)) (opened_keepsQuiet hloud.1 _)
      (hbarred.bind fun c c' h => relMap (relBind (before?_spaced hg hw (e := "\\right") (by decide) h)
        fun _ _ => nonempty?_spaced) fun _ _ => SpacedIn.absolute)
  · rw [bars_eq]
    exact Reader.keepsSpaces hg hw rfl (hclear "|" (by decide)) (opened_keepsQuiet hloud.2 _)
      (hbarred.map (f := absolute) fun _ _ => SpacedIn.absolute)
  · rw [fraction_eq]
    refine Reader.keepsSpaces hg hw rfl (hclear "\\frac\x7b" (by decide)) (opened_keepsQuiet hloud.1 _)
      (.andThen (f := fun c d => "((".toList ++ c ++ ")/(".toList ++ d ++ "))".toList) (fun c c' d h => ?_)
        (fun c d d' h => ?_) hbraced (hbraced.opened (hclear "\x7b" (by decide))))
    · exact ((hclosed (by decide) (by decide) h).append_right d).append_right _
    · exact hclosed (by decide) (by decide) h
  · rw [sizedExponent_eq]
    exact Reader.keepsSpaces hg hw rfl (hclear "^\\left" (by decide)) (exponent_keepsQuiet _ _)
      (.map (fun _ _ => SpacedIn.exponent) (.orElse ((sizedBraced?_reader hg hw).opened (hclear "\\\x7b" (by decide)))
        ((sizedBraced?_reader hg hw).opened (hclear "\x7b" (by decide)))))
  · rw [escapedExponent_eq]
    exact Reader.keepsSpaces hg hw rfl (hclear "^\\\x7b" (by decide)) (exponent_keepsQuiet _ _)
      (.map (f := exponent) (fun _ _ => SpacedIn.exponent)
        (hbraced.bind (f := before? "\\".toList) fun _ _ => before?_spaced hg hw (by decide)))
  · rw [bracedExponent_eq]
    exact Reader.keepsSpaces hg hw rfl (hclear "^\x7b" (by decide)) (exponent_keepsQuiet _ _)
      (hbraced.map fun _ _ => SpacedIn.exponent)

theorem Spaced.weight_eq (hw : ∀ c ∈ w, isBlank c = true) {s t : List Char} (h : Spaced q g w s t) :
    weight s = weight t := by
  obtain ⟨x, y, -, rfl, rfl⟩ := h
  have hcount : ∀ d, isBlank d = false → w.count d = 0 := fun d hd => List.count_eq_zero.2 fun hmem => by
    rw [hw d hmem] at hd
    cases hd
  unfold weight
  simp only [List.count_append, hcount '\x7b' rfl, hcount '|' rfl, Nat.zero_add]

theorem ungroup_spaced (hg : g ∈ greekLetters) (hw : ∀ c ∈ w, isBlank c = true) {s t : List Char} (h : Spaced q g w s t) :
    Spaced q g w (ungroup s) (ungroup t) := by
  induction hn : weight s using Nat.strongRecOn generalizing s t with
  | _ n ih =>
    have hstep := substituteAll_spaced (groupRules_spaced hg hw) h
    unfold ungroup
    dsimp only
    rw [← h.weight_eq hw, ← hstep.weight_eq hw]
    split
    · rename_i hlt
      exact ih _ (hn ▸ hlt) hstep rfl
    · exact hstep

/-! ## Words -/

/-- The end of a word, and what is written for it. -/
def wordEnd (written : String) (f : List Char → List Char) : Rule := fun s =>
  if s.head?.any isLetter then none else some (written.toList, f s)

theorem afterWord?_map {α : Type} (word : String) (f : List Char → α) (s : List Char) : (afterWord? word s).map f =
    (after? ('\\' :: word.toList) s).bind fun r => if r.head?.any isLetter then none else some (f r) := by
  rcases s with _ | ⟨c, s⟩
  · rfl
  · by_cases hc : c = '\\'
    · subst hc
      rw [afterWord?, after?, if_pos rfl, Option.map_bind]
      refine congrArg (Option.bind _) (funext fun r => ?_)
      rcases r with _ | ⟨d, r⟩
      · rfl
      · cases hd : isLetter d <;> simp [hd]
    · rw [afterWord?_of_ne_backslash hc, after?, if_neg (Ne.symm hc)]
      rfl

theorem functionCommand_eq (word name : String) :
    functionCommand word name = opened ('\\' :: word.toList) (wordEnd name trimLeft) := funext (afterWord?_map word _)

theorem letterCommand_eq (word name : String) :
    letterCommand word name = opened ('\\' :: word.toList) (wordEnd name id) := funext (afterWord?_map word _)

theorem namedGroup_eq (word : String) : namedGroup word = opened ('\\' :: word.toList ++ ['\x7b']) fun s =>
    (enclosed isLetter ['\x7d'] s).bind fun r => (nonempty? r.1).map (·, r.2) := by
  funext s
  refine congrArg (Option.bind _) (funext fun s => ?_)
  rw [List.span_eq_takeWhile_dropWhile, enclosed]
  generalize s.takeWhile _ = name
  generalize s.dropWhile _ = rest
  rcases rest with _ | ⟨c, rest⟩
  · cases name <;> rfl
  · by_cases hc : c = '\x7d'
    · subst hc; cases name <;> rfl
    · cases name <;> simp [after?, hc, Ne.symm hc]

theorem wordEnd_reader {S : List Char → List Char → Prop} (written : String) {f : List Char → List Char}
    (hf : ∀ {s t}, Spaced q g w s t → Spaced q g w (f s) (f t)) (hlen : ∀ s, (f s).length ≤ s.length) :
    Reader q g w S (wordEnd written f) where
  spaced {s t} h := by
    have hhead : s.head?.any isLetter = t.head?.any isLetter := by
      obtain ⟨_ | ⟨c, x⟩, y, -, rfl, rfl⟩ := h <;> rfl
    rw [wordEnd, wordEnd, hhead]
    split
    · exact .none
    · exact .some (Or.inl ⟨rfl, hf h⟩)
  length_le {s o r} h := by
    rw [wordEnd] at h
    split at h
    · cases h
    · cases h
      exact hlen s

theorem clear_functionCommands : ∀ f ∈ functionCommands, ∀ g ∈ greekLetters, Clear ('\\' :: f.1.toList) (command g) := by
  decide

theorem clear_namedGroups : ∀ word ∈ ["operatorname", "mathrm", "text"], ∀ g ∈ greekLetters,
    Clear ('\\' :: word.toList ++ ['\x7b']) (command g) := by decide

theorem clear_greekLetters : ∀ k ∈ greekLetters, ∀ g ∈ greekLetters, k ≠ g → Clear (command k) (command g) := by
  decide

/-- **The rules before groups notice no blanks behind a command.** -/
theorem openingRules_spaced (hg : g ∈ greekLetters) (hw : ∀ c ∈ w, isBlank c = true) :
    ∀ rule ∈ openingRules, rule.KeepsSpaces q g w := by
  have hloud : ¬Quiet '\\' := by decide
  intro rule hr
  rcases List.mem_append.1 hr with hr | hr
  · obtain ⟨word, hword, rfl⟩ : ∃ word ∈ ["operatorname", "mathrm", "text"], rule = namedGroup word := by
      simpa [or_assoc] using hr
    rw [namedGroup_eq]
    exact Reader.keepsSpaces hg hw rfl (clear_namedGroups word hword g hg) (opened_keepsQuiet hloud _)
      (.bind (S := fun _ _ => False) (fun _ _ h => h.elim)
        (.enclosed_of_backslash rfl (clear_command "\x7d" (by decide) g hg)))
  · obtain ⟨f, hf, rfl⟩ := List.mem_map.1 hr
    rw [functionCommand_eq]
    exact Reader.keepsSpaces hg hw rfl (clear_functionCommands f hf g hg) (opened_keepsQuiet hloud _)
      (wordEnd_reader f.2 .trimLeft fun s => (List.dropWhile_suffix isBlank).length_le)

theorem letterCommand_spaced (hg : g ∈ greekLetters) (hw : ∀ c ∈ w, isBlank c = true) {k : String} (hk : k ∈ greekLetters)
    (hne : k ≠ g) : Rule.KeepsSpaces (letterCommand k k) q g w := by
  rw [letterCommand_eq]
  exact Reader.keepsSpaces hg hw rfl (clear_greekLetters k hk g hg hne) (opened_keepsQuiet (by decide) _)
    (wordEnd_reader k id fun s => Nat.le_refl _)

end

end Heightfield.Latex
