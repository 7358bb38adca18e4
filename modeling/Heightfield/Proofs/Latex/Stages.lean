import Heightfield.Proofs.Juxtaposition.Gap
import Heightfield.Proofs.Latex.Settled
/-!
# Two texts through the rules behind groups

Two texts that differ in the blanks behind a command go through the rules behind groups side by side.  At each stage
one of two things can part them for good: a letter stands right behind a command, which is then no command in the
text without the blanks (`Torn`), or two names fuse there (`Fused`).  If neither happens, the texts differ in the
blanks still, and at a place where nothing fuses (`lateRules_go`).
-/
namespace Heightfield.Latex

open Juxtaposition

/-! ## Collisions -/

/-- A letter stands right behind a command in the first text and behind blanks in the second. -/
def Torn (w s t : List Char) : Prop := ∃ k ∈ greekLetters, ∃ x c y, isLetter c = true ∧
  s = x ++ (command k ++ c :: y) ∧ t = x ++ (command k ++ (w ++ c :: y))

/-- Names fuse in the first text where the second has blanks. -/
def Fused (w s t : List Char) : Prop := ∃ x y, s = x ++ y ∧ t = x ++ (w ++ y) ∧ Fuses x y

def Collide (w s t : List Char) : Prop := Torn w s t ∨ Fused w s t

/-- Unless `q`, the rules can take the two texts to a collision; else they take them to texts that are related as `Q`
says. -/
def Go (q : Prop) (rules : List Rule) (w : List Char) (Q : List Char → List Char → Prop) (s t : List Char) : Prop :=
  (¬q ∧ ∃ n, Collide w (substituteAll (rules.take n) s) (substituteAll (rules.take n) t)) ∨
    Q (substituteAll rules s) (substituteAll rules t)

section
variable {q : Prop} {w : List Char} {rules rules' : List Rule} {Q Q' : List Char → List Char → Prop} {s t : List Char}

theorem Go.of_collide (hq : ¬q) (h : Collide w s t) : Go q rules w Q s t := Or.inl ⟨hq, 0, h⟩

theorem Go.of_collide_end (hq : ¬q) (h : Collide w (substituteAll rules s) (substituteAll rules t)) : Go q rules w Q s t :=
  Or.inl ⟨hq, rules.length, by rwa [List.take_length]⟩

theorem Go.append (h : Go q rules w Q s t) (h' : ∀ {s t}, Q s t → Go q rules' w Q' s t) :
    Go q (rules ++ rules') w Q' s t := by
  rcases h with ⟨hq, n, hn⟩ | hrelated
  · refine Or.inl ⟨hq, min n rules.length, ?_⟩
    rwa [List.take_append_of_le_length (Nat.min_le_right _ _), ← List.take_eq_take_min]
  · rcases h' hrelated with ⟨hq, n, hn⟩ | hrelated'
    · refine Or.inl ⟨hq, rules.length + n, ?_⟩
      rwa [List.take_length_add_append, substituteAll_append, substituteAll_append]
    · exact Or.inr (by rwa [substituteAll_append, substituteAll_append])

theorem Go.imp (h : Go q rules w Q s t) (hQ : ∀ {s t}, Q s t → Q' s t) : Go q rules w Q' s t := Or.imp_right hQ h

theorem Go.of_forall (h : ∀ rule ∈ rules, ∀ {s t}, Q s t → Q (substitute rule s) (substitute rule t)) (hq : Q s t) :
    Go q rules w Q s t := by
  refine Or.inr ?_
  induction rules generalizing s t with
  | nil => exact hq
  | cons rule rules ih => exact ih (fun r hr => h r (List.mem_cons_of_mem rule hr)) (h rule List.mem_cons_self hq)

end

/-! ## Letters -/

section
variable {q : Prop} {w : List Char}

theorem clear_backslash : ∀ g ∈ greekLetters, Clear g.toList ['\\'] := by decide

/-- Whether a rule for a letter applies before a backslash, and what it leaves, does not depend on what stands behind. -/
theorem letterCommand_backslash_cases {g : String} (hg : g ∈ greekLetters) (c : Char) (x : List Char) :
    (∀ z, letterCommand g g (c :: x ++ '\\' :: z) = none) ∨ ∃ v, v.length < (c :: x).length ∧
      ∀ z, letterCommand g g (c :: x ++ '\\' :: z) = some (g.toList, v ++ '\\' :: z) := by
  by_cases hc : c = '\\'
  · subst hc
    have hafter : ∀ z, letterCommand g g ('\\' :: x ++ '\\' :: z) =
        ((after? g.toList x).map (· ++ '\\' :: z)).bind (wordEnd g id) := fun z => by
      rw [letterCommand_eq]
      exact congrArg (Option.bind · _) ((clear_backslash g hg).after?_append x z)
    cases h : after? g.toList x with
    | none => exact Or.inl fun z => by rw [hafter, h]; rfl
    | some v =>
      have hend : ∀ z, letterCommand g g ('\\' :: x ++ '\\' :: z) = wordEnd g id (v ++ '\\' :: z) := fun z => by
        rw [hafter, h]
        rfl
      rcases v with _ | ⟨d, v⟩
      · exact Or.inr ⟨[], Nat.succ_pos _, hend⟩
      · cases hd : isLetter d with
        | true => exact Or.inl fun z => by rw [hend]; simp [wordEnd, hd]
        | false =>
          refine Or.inr ⟨d :: v, ?_, fun z => by rw [hend]; simp [wordEnd, hd]⟩
          rw [eq_append_of_after? h]
          simp only [List.length_cons, List.length_append]
          omega
  · exact Or.inl fun z => congrArg (Option.map _) (afterWord?_of_ne_backslash hc _)

/-- A rule for a letter does not read across a backslash. -/
theorem exists_substitute_backslash {g : String} (hg : g ∈ greekLetters) (x : List Char) : ∃ x', ∀ z,
    substitute (letterCommand g g) (x ++ '\\' :: z) = x' ++ substitute (letterCommand g g) ('\\' :: z) := by
  -- on the length, as a match takes many characters at once
  induction hn : x.length using Nat.strongRecOn generalizing x with
  | _ n ih =>
    cases x with
    | nil => exact ⟨[], fun z => rfl⟩
    | cons c x =>
      rcases letterCommand_backslash_cases hg c x with hnone | ⟨v, hlt, hsome⟩
      · obtain ⟨x', hx'⟩ := ih _ (by rw [← hn]; exact Nat.lt_succ_self _) x rfl
        refine ⟨c :: x', fun z => ?_⟩
        have hstep := hnone z
        rw [List.cons_append] at hstep
        rw [List.cons_append, substitute_cons_of_none hstep, hx', List.cons_append]
      · obtain ⟨x', hx'⟩ := ih _ (hn ▸ hlt) v rfl
        refine ⟨g.toList ++ x', fun z => ?_⟩
        have hlt' : (v ++ '\\' :: z).length < (c :: x ++ '\\' :: z).length := by
          rw [List.length_append, List.length_append]
          exact Nat.add_lt_add_right hlt _
        rw [substitute_of_some (hsome z) hlt', hx', List.append_assoc]

theorem head_isBlank {w : List Char} (hw : ∀ c ∈ w, isBlank c = true) (hne : w ≠ []) (y : List Char) :
    (w ++ y).head?.any isLetter = false := by
  obtain ⟨b, w, rfl⟩ := List.exists_cons_of_ne_nil hne
  refine Bool.eq_false_iff.2 fun hletter => ?_
  have hb := hw b List.mem_cons_self
  rw [isBlank_eq_false_of_isLetter hletter] at hb
  cases hb

/-- **The command's own rule** leaves the name and the blanks behind it, unless a letter stands there. -/
theorem own_go (hw : ∀ c ∈ w, isBlank c = true) (hne : w ≠ []) {g : String} (hg : g ∈ greekLetters) {s t : List Char}
    (h : Spaced q g w s t) : Go q [letterCommand g g] w (Settled q [g.toList] w) s t := by
  obtain ⟨x, y, hy, rfl, rfl⟩ := h
  cases hletter : y.head?.any isLetter with
  | true =>
    obtain ⟨c, hc, hl⟩ := (Option.any_eq_true _ _).1 hletter
    obtain ⟨y, rfl⟩ := List.head?_eq_some_iff.1 hc
    refine .of_collide (fun hq => ?_) (Or.inl ⟨g, hg, x, c, y, hl, rfl, rfl⟩)
    have hquiet := ((hy hq).2 c rfl).1
    rw [isAlphanumeric_of_isLetter hl] at hquiet
    cases hquiet
  | false =>
    obtain ⟨x', hx'⟩ := exists_substitute_backslash hg x
    have hown : ∀ z : List Char, z.head?.any isLetter = false →
        substitute (letterCommand g g) (x ++ (command g ++ z)) = x' ++ (g.toList ++ substitute (letterCommand g g) z) := by
      intro z hz
      have hfires : letterCommand g g (command g ++ z) = some (g.toList, z) := by
        rw [letterCommand_eq, opened, command, after?_append, Option.bind_some, wordEnd, hz]
        rfl
      have hstep := hx' (g.toList ++ z)
      rw [← List.cons_append, ← command] at hstep
      rw [hstep, substitute_of_some hfires (by rw [List.length_append, command, List.length_cons]; omega)]
    have hread : Rule.ReadsBackslash (letterCommand g g) :=
      (letterCommand_readsWord (isLetter_of_mem_greekLetters g hg) g).readsBackslash
    have hblanks := hread.turns_of_not_mem (backslash_not_mem_of_blanks hw)
    refine Or.inr (Or.inr ⟨x' ++ g.toList, substitute (letterCommand g g) y, fun hq => hread.keepsQuiet y (hy hq),
      ⟨x', _, List.mem_singleton_self _, rfl⟩, ?_, ?_⟩)
    · exact (hown y hletter).trans (List.append_assoc _ _ _).symm
    · refine (hown (w ++ y) (head_isBlank hw hne y)).trans ?_
      rw [hblanks, List.append_assoc]

/-- The rule for a letter that is read later.  If it finds its command before the blanks it leaves its name. -/
theorem letter_go (hw : ∀ c ∈ w, isBlank c = true) (hne : w ≠ []) {k : String} (hk : k ∈ greekLetters)
    {names : List (List Char)} (hnames : AreWords names) (hstop : ∀ b ∈ names, StopsAt (command k) b) {s t : List Char}
    (h : Settled q names w s t) : Go q [letterCommand k k] w (Settled q (k.toList :: names) w) s t := by
  rcases h with rfl | ⟨l, y, hy, hl, rfl, rfl⟩
  · exact Or.inr (Or.inl rfl)
  · by_cases hsuffix : command k <:+ l
    · obtain ⟨x, rfl⟩ := hsuffix
      have hown := own_go hw hne hk ⟨x, y, hy, List.append_assoc _ _ _, List.append_assoc _ _ _⟩
      exact hown.imp fun h => h.mono fun b hb => by
        rw [List.mem_singleton.1 hb]
        exact List.mem_cons_self
    · have hread : Rule.ReadsBackslash (letterCommand k k) :=
        (letterCommand_readsWord (isLetter_of_mem_greekLetters k hk) k).readsBackslash
      have hword : ∀ b ∈ names, Rule.Turns (letterCommand k k) b b := fun b hb =>
        hread.turns_of_not_mem (backslash_not_mem_of_letters (hnames b hb).2)
      obtain ⟨l', hl', hturns⟩ := exists_turns hword hl
        fun v hv hends => letterCommand_worksIn hnames k hstop hends fun hk => hsuffix (hk.trans hv)
      have hblanks := hread.turns_of_not_mem (backslash_not_mem_of_blanks hw)
      refine Or.inr (Or.inr ⟨l', substitute (letterCommand k k) y, fun hq => hread.keepsQuiet y (hy hq),
        hl'.mono fun b => List.mem_cons_of_mem _, hturns y, ?_⟩)
      rw [← hblanks y]
      exact hturns _

theorem stopsAt_greekLetters : greekLetters.Pairwise fun b k => StopsAt (command k) b.toList := by decide

theorem areWords_greekLetters : ∀ g ∈ greekLetters, g.toList ≠ [] ∧ ∀ c ∈ g.toList, isLetter c = true := by decide

/-- The rules for the letters that are read after some have been named. -/
theorem letters_go (hw : ∀ c ∈ w, isBlank c = true) (hne : w ≠ []) : ∀ {letters named : List String} {s t : List Char},
    (∀ k ∈ letters, k ∈ greekLetters) → (∀ b ∈ named, b ∈ greekLetters) →
    (∀ b ∈ named, ∀ k ∈ letters, StopsAt (command k) b.toList) →
    letters.Pairwise (fun b k => StopsAt (command k) b.toList) → Settled q (named.map String.toList) w s t →
    Go q (letters.map fun k => letterCommand k k) w (Settled q endings w) s t
  | [], named, s, t, _, hnamed, _, _, h => Or.inr (h.mono fun b hb => by
      obtain ⟨g, hg, rfl⟩ := List.mem_map.1 hb
      exact List.mem_append_left _ (List.mem_map_of_mem (hnamed g hg)))
  | k :: letters, named, s, t, hletters, hnamed, hstop, hpairwise, h => by
    obtain ⟨hk, hletters⟩ := List.forall_mem_cons.1 hletters
    obtain ⟨hfirst, hpairwise⟩ := List.pairwise_cons.1 hpairwise
    have hwords : AreWords (named.map String.toList) := fun b hb => by
      obtain ⟨g, hg, rfl⟩ := List.mem_map.1 hb
      exact areWords_greekLetters g (hnamed g hg)
    have hstep : Go q [letterCommand k k] w (Settled q ((k :: named).map String.toList) w) s t :=
      letter_go hw hne hk hwords (fun b hb => by
        obtain ⟨g, hg, rfl⟩ := List.mem_map.1 hb
        exact hstop g hg k List.mem_cons_self) h
    exact hstep.append fun h => letters_go hw hne hletters (List.forall_mem_cons.2 ⟨hk, hnamed⟩)
      (List.forall_mem_cons.2 ⟨hfirst, fun b hb k' hk' => hstop b hb k' (List.mem_cons_of_mem k hk')⟩) hpairwise h

/-- **The rules for letters** go from texts that differ in the blanks behind a command to texts that differ in the
blanks behind a name. -/
theorem greekLetters_go (hw : ∀ c ∈ w, isBlank c = true) (hne : w ≠ []) {g : String} (hg : g ∈ greekLetters)
    {s t : List Char} (h : Spaced q g w s t) :
    Go q (greekLetters.map fun k => letterCommand k k) w (Settled q endings w) s t := by
  obtain ⟨before, after, hsplit, hnot⟩ := List.eq_append_cons_of_mem hg
  have hmem : ∀ k, k ∈ before ∨ k = g ∨ k ∈ after → k ∈ greekLetters := fun k hk => by
    rw [hsplit]
    simpa using hk
  have hpairwise := stopsAt_greekLetters
  rw [hsplit, List.pairwise_append, List.pairwise_cons] at hpairwise
  have hbefore : Go q (before.map fun k => letterCommand k k) w (Spaced q g w) s t :=
    .of_forall (fun rule hr {s t} h => by
      obtain ⟨k, hk, rfl⟩ := List.mem_map.1 hr
      exact letterCommand_spaced hg hw (hmem k (Or.inl hk)) (fun heq => hnot (heq ▸ hk)) h) h
  rw [hsplit, List.map_append, List.map_cons]
  refine hbefore.append fun h => (own_go hw hne hg h).append fun h => ?_
  exact letters_go (q := q) hw hne (fun k hk => hmem k (Or.inr (Or.inr hk))) (List.forall_mem_singleton.2 hg)
    (List.forall_mem_singleton.2 hpairwise.2.1.1) hpairwise.2.1.2 h

end

/-! ## Runs before parentheses -/

theorem exists_run : ∀ l : List Char, ∃ z run, l = z ++ run ∧ (∀ c ∈ run, isRunCharacter c = true) ∧
    ∀ c ∈ z.getLast?, isRunCharacter c = false
  | [] => ⟨[], [], rfl, nofun, nofun⟩
  | c :: l => by
    obtain ⟨z, run, rfl, hrun, hz⟩ := exists_run l
    rcases z with _ | ⟨d, z⟩
    · cases hc : isRunCharacter c with
      | true => exact ⟨[], c :: run, rfl, List.forall_mem_cons.2 ⟨hc, hrun⟩, nofun⟩
      | false =>
        refine ⟨[c], run, rfl, hrun, fun d hd => ?_⟩
        obtain rfl := Option.some.inj hd
        exact hc
    · exact ⟨c :: d :: z, run, rfl, hrun, by rwa [List.getLast?_cons_cons]⟩

/-- The rule for runs works on a text that ends in no run whatever follows. -/
theorem exists_runOpening_turns (z : List Char) (hz : ∀ c ∈ z.getLast?, isRunCharacter c = false) :
    ∃ z', runOpening.Turns z z' := by
  induction hn : z.length using Nat.strongRecOn generalizing z with
  | _ n ih =>
    rcases forall_or_exists_first isRunCharacter z with hall | ⟨run, d, v, rfl, hrun, hd⟩
    · rcases List.eq_nil_or_concat z with rfl | ⟨v, a, rfl⟩
      · exact ⟨[], .nil⟩
      · rw [List.concat_eq_append] at hall hz
        have ha := hall a (by simp)
        rw [hz a (by simp)] at ha
        cases ha
    · have hlast : ∀ c ∈ v.getLast?, isRunCharacter c = false := fun c hc => hz c (by
        rw [List.getLast?_append, List.getLast?_cons, Option.mem_def.1 hc]
        rfl)
      obtain ⟨v', hv'⟩ := ih v.length (by rw [← hn, List.length_append, List.length_cons]; omega) v hlast rfl
      by_cases hopening : d = '('
      · subst hopening
        refine ⟨run ++ (if run = [] ∨ endsInFunction run = true then ['('] else ['*', '(']) ++ v', fun rest => ?_⟩
        rw [List.append_assoc, List.cons_append, substitute_runOpening_append hrun, hv', ← List.append_assoc]
      · refine ⟨run ++ d :: v', fun rest => ?_⟩
        have hhead : ∀ c ∈ (d :: (v ++ rest)).head?, isRunCharacter c = false ∧ c ≠ '(' := fun c hc => by
          obtain rfl := Option.some.inj hc
          exact ⟨hd, hopening⟩
        have hturns : substitute runOpening (d :: (v ++ rest)) = d :: substitute runOpening (v ++ rest) :=
          runOpening_turns hd (v ++ rest)
        rw [List.append_assoc, List.cons_append, substitute_runOpening hhead hrun, hturns, hv', List.append_assoc,
          List.cons_append]

theorem endsInFunction_iff {run : List Char} : endsInFunction run = true ↔ ∃ f ∈ functionNames, f.toList <:+ run := by
  rw [endsInFunction, List.any_eq_true]
  exact exists_congr fun f => and_congr_right fun _ => List.isSuffixOf_iff_suffix

theorem not_suffix_functionNames : ∀ f ∈ functionNames, ∀ b ∈ endings, ¬f.toList <:+ b ∧ ¬b <:+ f.toList := by
  decide

theorem EndsIn.endsInFunction {l : List Char} (hl : EndsIn endings l) : endsInFunction l = false := by
  refine Bool.eq_false_iff.2 fun h => ?_
  obtain ⟨f, hf, hsuffix⟩ := endsInFunction_iff.1 h
  exact hl.not_suffix (not_suffix_functionNames f hf) hsuffix

/-- The second text is the first with `w` behind an ending, and without the star between this and a parenthesis. -/
def StarredBefore (w s t : List Char) : Prop :=
  ∃ l r, EndsIn endings l ∧ s = l ++ '*' :: '(' :: r ∧ t = l ++ (w ++ '(' :: r)

section
variable {q : Prop} {w : List Char}

theorem EndsIn.run {z run : List Char} (hl : EndsIn endings (z ++ run)) (hz : ∀ c ∈ z.getLast?, isRunCharacter c = false) :
    EndsIn endings run := by
  obtain ⟨u, b, hb, heq⟩ := hl
  have hbl : b <:+ z ++ run := ⟨u, heq.symm⟩
  rcases List.suffix_or_suffix_of_suffix hbl (List.suffix_append z run) with ⟨v, hv⟩ | ⟨v, rfl⟩
  · exact ⟨v, b, hb, hv.symm⟩
  · rcases List.eq_nil_or_concat v with rfl | ⟨v, a, rfl⟩
    · exact ⟨[], _, hb, rfl⟩
    · -- the name would go on before the run, with a letter
      rw [List.concat_eq_append] at hb heq
      rw [← List.append_assoc] at heq
      have ha := hz a (by rw [List.append_cancel_right heq]; simp)
      rw [isRunCharacter_of_isAlphanumeric (isAlphanumeric_of_isLetter ((areWords_endings _ hb).2 a (by simp)))] at ha
      cases ha

/-- A function that is named only across the blanks fuses. -/
theorem fuses_of_endsInFunction {l run rest : List Char} (hfun : endsInFunction (l ++ run) = true)
    (hnot : endsInFunction run = false) (z : List Char) : Fuses (z ++ l) (run ++ '(' :: rest) := by
  obtain ⟨f, hf, hsuffix⟩ := endsInFunction_iff.1 hfun
  have hrun : ¬f.toList <:+ run := fun h => by
    rw [endsInFunction_iff.2 ⟨f, hf, h⟩] at hnot
    cases hnot
  rcases List.suffix_or_suffix_of_suffix hsuffix (List.suffix_append l run) with h | ⟨u, hu⟩
  · exact absurd h hrun
  · obtain ⟨x, hx⟩ := hsuffix
    rw [← hu, ← List.append_assoc] at hx
    refine Or.inl ⟨u, run ++ ['('], Or.inl ⟨f, hf, by rw [← hu, List.append_assoc]⟩, ?_, by simp, ?_, ⟨rest, by simp⟩⟩
    · rintro rfl
      exact hrun ⟨[], by rw [← hu]; rfl⟩
    · rw [← List.append_cancel_right hx, ← List.append_assoc]
      exact List.suffix_append _ u

theorem runOpening_keepsQuiet : runOpening.KeepsQuiet := Rule.keepsQuiet fun c s o r hc h => by
  rw [runOpening, List.span_eq_takeWhile_dropWhile] at h
  cases hrun : isRunCharacter c with
  | false =>
    rw [List.takeWhile_cons_of_neg (by simp [hrun])] at h
    cases h
  | true =>
    rw [List.takeWhile_cons_of_pos hrun] at h
    split at h
    · cases h
    · rename_i heq
      obtain ⟨rfl, -⟩ := Prod.mk.inj heq
      cases h
      exact ⟨List.cons_ne_nil _ _, fun d hd => by
        obtain rfl := Option.some.inj hd
        exact hc⟩
    · cases h

theorem EndsIn.not_fuses {l y : List Char} (hl : EndsIn endings l) (hne : y ≠ []) (hy : BeginsQuietly y) : ¬Fuses l y := by
  obtain ⟨c, y, rfl⟩ := List.exists_cons_of_ne_nil hne
  have hc : isAlphanumeric c = false := (hy c rfl).1
  rintro (⟨u, v, ht, -, hv, hul, hvy⟩ | ⟨k, -, -, -, hends⟩)
  · obtain ⟨d, v, rfl⟩ := List.exists_cons_of_ne_nil hv
    obtain rfl : d = c := (List.cons_prefix_cons.1 hvy).1
    have hname : ∀ {n : List Char}, (∀ e ∈ n, isAlphanumeric e = true) → d ∉ n := fun hn hmem => by
      have hd := hn d hmem
      rw [hc] at hd
      cases hd
    rcases ht with ⟨f, hf, heq⟩ | ⟨k, hk, heq⟩
    · have hsuffix : ¬f.toList <:+ u := fun h => hl.not_suffix (not_suffix_functionNames f hf) (h.trans hul)
      rcases List.append_eq_append_iff.1 heq with ⟨x, hx, hv⟩ | ⟨x, rfl, hv⟩
      · rcases x with _ | ⟨e, x⟩
        · exact hsuffix ⟨[], by rw [hx, List.append_nil]; rfl⟩
        · obtain ⟨rfl, -⟩ := List.cons.inj hv
          exact hname (isAlphanumeric_of_mem_functionNames hf) (by rw [hx]; simp)
      · obtain rfl : x = [] := by
          have hlen := congrArg List.length hv
          simp only [List.length_append, List.length_cons, List.length_nil] at hlen
          exact List.length_eq_zero_iff.1 (by omega)
        exact hsuffix ⟨[], by simp⟩
    · exact hname (isAlphanumeric_of_mem_constantNames hk) (by rw [← heq]; simp)
  · rw [endsName, hc] at hends
    cases hends

theorem isRunCharacter_of_isBlank {c : Char} (h : isBlank c = true) : isRunCharacter c = false ∧ c ≠ '(' := by
  refine ⟨Bool.eq_false_iff.2 fun hrun => ?_, by rintro rfl; cases h⟩
  rw [isRunCharacter, Bool.or_eq_true, decide_eq_true_eq] at hrun
  rcases hrun with halpha | rfl
  · rw [isBlank_eq_false_of_isAlphanumeric halpha] at h
    cases h
  · cases h

/-- What a run before `y` changes: nothing, or a parenthesis stands behind it, or it names a function together with the
run that `y` begins with, which names none. -/
theorem substitute_runOpening_join {run : List Char} (hrun : ∀ c ∈ run, isRunCharacter c = true) (y : List Char) :
    substitute runOpening (run ++ y) = run ++ substitute runOpening y ∨ (∃ r, y = '(' :: r) ∨
      ∃ run' r, y = run' ++ '(' :: r ∧ endsInFunction (run ++ run') = true ∧ endsInFunction run' = false := by
  rcases forall_or_exists_first isRunCharacter y with hall | ⟨run', d, r, rfl, hrun', hd⟩
  · refine Or.inl ?_
    rw [substitute_runOpening_run hall, substitute_runOpening_run (List.forall_mem_append.2 ⟨hrun, hall⟩)]
  have hboth : ∀ c ∈ run ++ run', isRunCharacter c = true := List.forall_mem_append.2 ⟨hrun, hrun'⟩
  by_cases hopening : d = '('
  · subst hopening
    rcases eq_or_ne run' [] with rfl | hne
    · exact Or.inr (Or.inl ⟨r, rfl⟩)
    by_cases hsame : endsInFunction (run ++ run') = endsInFunction run'
    · refine Or.inl ?_
      rw [← List.append_assoc, substitute_runOpening_append hboth, substitute_runOpening_append hrun', hsame]
      simp [hne]
    · have hnamed : endsInFunction run' = false := Bool.eq_false_iff.2 fun hnamed => hsame <| by
        obtain ⟨f, hf, hsuffix⟩ := endsInFunction_iff.1 hnamed
        rw [hnamed, endsInFunction_iff.2 ⟨f, hf, hsuffix.trans (List.suffix_append _ _)⟩]
      rw [hnamed, Bool.not_eq_false] at hsame
      exact Or.inr (Or.inr ⟨run', r, rfl, hsame, hnamed⟩)
  · have hhead : ∀ c ∈ (d :: r).head?, isRunCharacter c = false ∧ c ≠ '(' := fun c hc => by
      obtain rfl := Option.some.inj hc
      exact ⟨hd, hopening⟩
    refine Or.inl ?_
    rw [← List.append_assoc, substitute_runOpening hhead hboth, substitute_runOpening hhead hrun', List.append_assoc]

/-- The parenthesis behind the ending of a command gets a star. -/
theorem EndsIn.substitute_opening {run : List Char} (hends : EndsIn endings run)
    (hrun : ∀ c ∈ run, isRunCharacter c = true) (r : List Char) :
    substitute runOpening (run ++ '(' :: r) = run ++ '*' :: '(' :: substitute runOpening r := by
  have hne : run ≠ [] := by
    rintro rfl
    obtain ⟨x, a, hxa, -⟩ := hends.exists_concat areWords_endings
    simp at hxa
  rw [substitute_runOpening_append hrun, hends.endsInFunction, if_neg (by simp [hne]), List.append_assoc]
  rfl

/-- **The rule for runs before parentheses.**  Blanks end a run, so it can put a star behind the ending of the first
text only. -/
theorem runOpening_go (hw : ∀ c ∈ w, isBlank c = true) (hne : w ≠ []) {s t : List Char} (h : Settled q endings w s t) :
    Go q [runOpening] w (fun s t => Settled q endings w s t ∨ StarredBefore w s t) s t := by
  rcases h with rfl | ⟨l, y, hy, hl, rfl, rfl⟩
  · exact Or.inr (Or.inl (Or.inl rfl))
  obtain ⟨z, run, rfl, hrun, hz⟩ := exists_run l
  obtain ⟨z', hz'⟩ := exists_runOpening_turns z hz
  have hends : EndsIn endings run := hl.run hz
  have hl' : EndsIn endings (z' ++ run) := hends.append_left z'
  have hblanks : runOpening.Turns w w := .of_forall_mem fun c hc => runOpening_turns (isRunCharacter_of_isBlank (hw c hc)).1
  have hsecond : substitute runOpening (z ++ run ++ (w ++ y)) = z' ++ run ++ (w ++ substitute runOpening y) := by
    obtain ⟨b, v, rfl⟩ := List.exists_cons_of_ne_nil hne
    rw [List.append_assoc, hz', substitute_runOpening (fun c hc => by
      obtain rfl := Option.some.inj hc
      exact isRunCharacter_of_isBlank (hw b List.mem_cons_self)) hrun, hblanks, List.append_assoc]
  have hfirst : substitute runOpening (z ++ run ++ y) = z' ++ substitute runOpening (run ++ y) := by
    rw [List.append_assoc, hz']
  rcases substitute_runOpening_join hrun y with hsame | ⟨r, rfl⟩ | ⟨run', r, rfl, hlonger, hnamed⟩
  · refine Or.inr (Or.inl (Or.inr ⟨z' ++ run, _, fun hq => runOpening_keepsQuiet y (hy hq), hl', ?_, hsecond⟩))
    exact hfirst.trans (by rw [hsame, List.append_assoc])
  · -- the star stands behind the ending of the first text
    have hopening : substitute runOpening ('(' :: r) = '(' :: substitute runOpening r := runOpening_turns rfl r
    refine Or.inr (Or.inr ⟨z' ++ run, substitute runOpening r, hl', ?_, hsecond.trans (by rw [hopening])⟩)
    exact hfirst.trans (by rw [hends.substitute_opening hrun, List.append_assoc])
  · have hfuses : Fuses (z ++ run) (run' ++ '(' :: r) := fuses_of_endsInFunction hlonger hnamed z
    exact .of_collide (fun hq => hl.not_fuses (hy hq).1 (hy hq).2 hfuses) (Or.inr ⟨_, _, rfl, rfl, hfuses⟩)

theorem StarredBefore.substitute {rule : Rule} (hrule : rule.KeepsEndings endings) (hstar : rule.Turns ['*'] ['*'])
    (hopening : rule.Turns ['('] ['(']) (hw : rule.Turns w w) {s t : List Char} (h : StarredBefore w s t) :
    StarredBefore w (Latex.substitute rule s) (Latex.substitute rule t) := by
  obtain ⟨l, r, hl, rfl, rfl⟩ := h
  obtain ⟨l', hl', hturns⟩ := hrule l hl
  have hsign : Latex.substitute rule ('(' :: r) = '(' :: Latex.substitute rule r := hopening r
  have hstarred : Latex.substitute rule ('*' :: '(' :: r) = '*' :: Latex.substitute rule ('(' :: r) := hstar _
  exact ⟨l', _, hl', by rw [hturns, hstarred, hsign], by rw [hturns, hw, hsign]⟩

/-! ## The last rules -/

/-- A brace becomes a parenthesis. -/
def braceRule : Rule
  | [] => none
  | c :: s => if isBrace c then some ([parenthesis c], s) else none

theorem parenthesis_eq_self {c : Char} (h : isBrace c = false) : parenthesis c = c := by
  rw [isBrace, Bool.or_eq_false_iff, decide_eq_false_iff_not, decide_eq_false_iff_not] at h
  rw [parenthesis, if_neg h.1, if_neg h.2]

theorem braceRule_turns : ∀ l : List Char, braceRule.Turns l (l.map parenthesis)
  | [] => .nil
  | c :: l => by
    have hhead : braceRule.Turns [c] [parenthesis c] := by
      cases hc : isBrace c with
      | true => exact .of_some (List.cons_ne_nil _ _) fun rest => if_pos hc
      | false =>
        rw [parenthesis_eq_self hc]
        exact .of_none fun rest => if_neg (by rw [hc]; exact Bool.false_ne_true)
    exact hhead.append (braceRule_turns l)

theorem map_parenthesis_eq_self {l : List Char} (h : ∀ c ∈ l, isBrace c = false) : l.map parenthesis = l :=
  (List.map_congr_left fun c hc => parenthesis_eq_self (h c hc)).trans (List.map_id' l)

theorem braceRule_keepsEndings : braceRule.KeepsEndings endings := by
  rintro _ ⟨z, b, hb, rfl⟩
  have hletters : b.map parenthesis = b :=
    map_parenthesis_eq_self fun c hc => isBrace_eq_false_of_letter_or_blank (Or.inl ((areWords_endings b hb).2 c hc))
  have hturns := braceRule_turns (z ++ b)
  rw [List.map_append, hletters] at hturns
  exact ⟨_, ⟨z.map parenthesis, b, hb, rfl⟩, hturns⟩

/-- The rules behind groups, and the one for braces that are left. -/
def lateRules : List Rule := closingRules ++ [braceRule]

/-- The rules behind the one for runs. -/
def lastRules : List Rule := [closingDigit, literal "\\" "", braceRule]

theorem braceRule_keepsQuiet : braceRule.KeepsQuiet := Rule.keepsQuiet fun c s o r _ h => by
  rw [braceRule] at h
  split at h
  · rename_i hbrace
    cases h
    exact ⟨List.cons_ne_nil _ _, fun d hd => by
      obtain rfl := Option.some.inj hd
      rw [isBrace, Bool.or_eq_true, decide_eq_true_eq, decide_eq_true_eq] at hbrace
      rcases hbrace with rfl | rfl <;> decide⟩
  · cases h

theorem lastRules_pass (hw : ∀ c ∈ w, isBlank c = true) : ∀ rule ∈ lastRules, rule.Passes endings w := by
  have hslash : (literal "\\" "").KeepsEndings endings :=
    literal_keepsEndings areWords_endings "" rfl (by decide) (stopsAt_endings "\\" (by decide))
  have hblanks : braceRule.Turns w w := by
    have hturns := braceRule_turns w
    rwa [map_parenthesis_eq_self fun c hc => isBrace_eq_false_of_letter_or_blank (Or.inr (hw c hc))] at hturns
  exact List.forall_mem_cons.2 ⟨pairRule_passes hw (by simp [pairRules]), List.forall_mem_cons.2
    ⟨(literal_readsBackslash "\\" "" (l := []) rfl).passes hw hslash, List.forall_mem_singleton.2
      ⟨braceRule_keepsEndings, hblanks.passesBlanks, braceRule_keepsQuiet⟩⟩⟩

/-- The last rules pass over blanks, stars and opening parentheses. -/
theorem lastRules_turn : ∀ rule ∈ lastRules, ∀ c, isBlank c = true ∨ c = '*' ∨ c = '(' → rule.Turns [c] [c] := by
  have hslash : ∀ c, isBlank c = true ∨ c = '*' ∨ c = '(' → '\\' ∉ [c] := by
    rintro c hc hmem
    obtain rfl := List.mem_singleton.1 hmem
    rcases hc with hc | hc | hc <;> cases hc
  refine List.forall_mem_cons.2 ⟨fun c hc => pairRule_turns (by simp [pairRules]) ?_, List.forall_mem_cons.2 ⟨fun c hc => ?_,
    List.forall_mem_singleton.2 fun c hc => ?_⟩⟩
  · rcases hc with hc | rfl | rfl
    · exact endsNoFactor_of_isBlank hc
    · exact ⟨by decide, by decide⟩
    · exact ⟨by decide, by decide⟩
  · exact (literal_readsBackslash "\\" "" (l := []) rfl).turns_of_not_mem (hslash c hc)
  · have hbrace : isBrace c = false := by
      rcases hc with hc | rfl | rfl
      · exact isBrace_eq_false_of_letter_or_blank (Or.inr hc)
      · rfl
      · rfl
    have hturns := braceRule_turns [c]
    rwa [List.map_singleton, parenthesis_eq_self hbrace] at hturns

/-- How the two texts end up if they do not collide: they differ by blanks where nothing fuses, or by a star before a
parenthesis, too. -/
def Separated (w s t : List Char) : Prop :=
  s = t ∨ (∃ l y, EndsIn endings l ∧ s = l ++ y ∧ t = l ++ (w ++ y) ∧ ¬Fuses l y) ∨ StarredBefore w s t

theorem lateRules_eq : lateRules = (greekLetters.map fun g => letterCommand g g) ++ (commandRules ++
    ([digitLetter, closingLetter, literal ")(" ")*("] ++ ([runOpening] ++ lastRules))) := rfl

/-- **The rules behind groups** take two texts that differ in the blanks behind a command to texts that differ in
blanks where nothing fuses, unless the texts collide on the way. -/
theorem lateRules_go (hw : ∀ c ∈ w, isBlank c = true) (hne : w ≠ []) {g : String} (hg : g ∈ greekLetters) {s t : List Char}
    (h : Spaced q g w s t) : Go q lateRules w (Separated w) s t := by
  have hpairs : ∀ rule ∈ [digitLetter, closingLetter, literal ")(" ")*("], rule ∈ pairRules := by simp [pairRules]
  have hcommands : ∀ {s t}, Settled q endings w s t → Go q commandRules w (Settled q endings w) s t :=
    .of_forall fun rule hr {_ _} => .substitute (commandRules_pass hw rule hr)
  have hproducts : ∀ {s t}, Settled q endings w s t →
      Go q [digitLetter, closingLetter, literal ")(" ")*("] w (Settled q endings w) s t :=
    .of_forall fun rule hr {_ _} => .substitute (pairRule_passes hw (hpairs rule hr))
  have hlast : ∀ {s t}, Settled q endings w s t ∨ StarredBefore w s t →
      Go q lastRules w (fun s t => Settled q endings w s t ∨ StarredBefore w s t) s t :=
    .of_forall (Q := fun s t => Settled q endings w s t ∨ StarredBefore w s t) fun rule hr {s t} h => by
      have hpasses := lastRules_pass hw rule hr
      have hturns := lastRules_turn rule hr
      have hblanks : rule.Turns w w := .of_forall_mem fun c hc => hturns c (Or.inl (hw c hc))
      exact h.imp (.substitute hpasses)
        (.substitute hpasses.keepsEndings (hturns '*' (Or.inr (Or.inl rfl))) (hturns '(' (Or.inr (Or.inr rfl))) hblanks)
  rw [lateRules_eq]
  have hgo := (greekLetters_go hw hne hg h).append fun h => (hcommands h).append fun h => (hproducts h).append fun h =>
    (runOpening_go hw hne h).append hlast
  rcases hgo with hcollide | hsettled | hstarred
  · exact Or.inl hcollide
  · rcases hsettled with heq | ⟨l, y, hy, hl, hs, ht⟩
    · exact Or.inr (Or.inl heq)
    · by_cases hfuses : Fuses l y
      · exact .of_collide_end (fun hq => hl.not_fuses (hy hq).1 (hy hq).2 hfuses) (Or.inr ⟨l, y, hs, ht, hfuses⟩)
      · exact Or.inr (Or.inr (Or.inl ⟨l, y, hl, hs, ht, hfuses⟩))
  · exact Or.inr (Or.inr (Or.inr hstarred))

end

end Heightfield.Latex
