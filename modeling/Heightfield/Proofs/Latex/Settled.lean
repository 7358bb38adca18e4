import Heightfield.Proofs.Latex.Ordinary
import Heightfield.Proofs.Latex.SpacedRules
/-!
# Texts that end in a name

When its own rule has run, a command is the name of a letter, and the blanks stand behind a text that ends in this
name (`EndsIn`).  Up to products no rule reads across such an ending, so it works on the text before the blanks and on
the text behind them apart (`Settled.substitute`).
-/
namespace Heightfield.Latex

/-! ## Endings -/

/-- The text ends in one of the names. -/
def EndsIn (names : List (List Char)) (l : List Char) : Prop := ∃ z, ∃ b ∈ names, l = z ++ b

/-- What can stand of the name of a letter.  Operators end nowhere in particular, so `\cdo\tau` leaves `au`. -/
def endings : List (List Char) := greekLetters.map String.toList ++ ["au".toList, "heta".toList, "igma".toList]

/-- The names are words. -/
def AreWords (names : List (List Char)) : Prop := ∀ b ∈ names, b ≠ [] ∧ ∀ c ∈ b, isLetter c = true

instance (names : List (List Char)) : Decidable (AreWords names) := by unfold AreWords; infer_instance

theorem areWords_endings : AreWords endings := by decide

/-- Where `p` has the name `b` it ends with it. -/
def StopsAt (p b : List Char) : Prop := ∀ t ∈ p.tails, b <+: t → t = b

instance (p b : List Char) : Decidable (StopsAt p b) := by unfold StopsAt; infer_instance

section
variable {names : List (List Char)} {l v p : List Char}

theorem EndsIn.append_left (h : EndsIn names l) (z : List Char) : EndsIn names (z ++ l) := by
  obtain ⟨z', b, hb, rfl⟩ := h
  exact ⟨z ++ z', b, hb, (List.append_assoc _ _ _).symm⟩

theorem EndsIn.mono {names' : List (List Char)} (h : EndsIn names l) (hsub : ∀ b ∈ names, b ∈ names') : EndsIn names' l := by
  obtain ⟨z, b, hb, rfl⟩ := h
  exact ⟨z, b, hsub b hb, rfl⟩

/-- A suffix that begins with no letter has the whole name. -/
theorem EndsIn.of_suffix (h : EndsIn names l) (hnames : AreWords names) {d : Char} (hd : isLetter d = false)
    (hv : d :: v <:+ l) : EndsIn names (d :: v) := by
  obtain ⟨z, b, hb, rfl⟩ := h
  rcases List.suffix_or_suffix_of_suffix hv (List.suffix_append z b) with hvb | ⟨u, hu⟩
  · have hletter := (hnames b hb).2 d (hvb.mem List.mem_cons_self)
    rw [hd] at hletter
    cases hletter
  · exact ⟨u, b, hb, hu.symm⟩

theorem EndsIn.exists_concat (h : EndsIn names l) (hnames : AreWords names) : ∃ x a, l = x ++ [a] ∧ isLetter a = true := by
  obtain ⟨z, b, hb, rfl⟩ := h
  obtain ⟨hne, hletters⟩ := hnames b hb
  refine ⟨z ++ b.dropLast, b.getLast hne, ?_, hletters _ (List.getLast_mem hne)⟩
  rw [List.append_assoc, List.dropLast_concat_getLast]

theorem EndsIn.not_suffix (h : EndsIn names l) (hp : ∀ b ∈ names, ¬p <:+ b ∧ ¬b <:+ p) : ¬p <:+ l := fun hpl => by
  obtain ⟨z, b, hb, rfl⟩ := h
  exact (List.suffix_or_suffix_of_suffix hpl (List.suffix_append z b)).elim (hp b hb).1 (hp b hb).2

/-- No fixed text that stops at the names goes on behind the ending. -/
theorem EndsIn.after?_append (h : EndsIn names l) (hp : ∀ b ∈ names, StopsAt p b) (rest : List Char) :
    after? p (l ++ rest) = (after? p l).map (· ++ rest) := by
  have hstop : ∀ q, p = l ++ q → q = [] := fun q hq => by
    obtain ⟨z, b, hb, rfl⟩ := h
    have hsuffix : b ++ q ∈ p.tails := (List.mem_tails _ _).2 ⟨z, by rw [hq, List.append_assoc]⟩
    have heq := hp b hb _ hsuffix (List.prefix_append b q)
    exact List.append_right_eq_self.1 heq
  have hgeneral : ∀ {p l : List Char}, (∀ q, p = l ++ q → q = []) →
      after? p (l ++ rest) = (after? p l).map (· ++ rest) := by
    intro p
    induction p with
    | nil => intro l _; rfl
    | cons a p ih =>
      rintro (_ | ⟨b, l⟩) hstop
      · cases hstop _ rfl
      · by_cases hab : a = b
        · subst hab
          rw [List.cons_append, after?, after?, if_pos rfl, if_pos rfl]
          exact ih fun q hq => hstop q (by rw [hq]; rfl)
        · rw [List.cons_append, after?, after?, if_neg hab, if_neg hab]
          rfl
  exact hgeneral hstop

end

/-! ## Rules that work before an ending -/

/-- The rule applies nowhere at the beginning of `l`, whatever follows, or it applies within `l` and leaves an
ending. -/
def Rule.WorksIn (rule : Rule) (names : List (List Char)) (l : List Char) : Prop :=
  (∀ rest, rule (l ++ rest) = none) ∨ ∃ o v, EndsIn names v ∧ v <:+ l ∧ v.length < l.length ∧
    ∀ rest, rule (l ++ rest) = some (o, v ++ rest)

/-- **Such a rule works on the text before an ending and leaves an ending.** -/
theorem exists_turns {rule : Rule} {names : List (List Char)} (hnames : ∀ b ∈ names, rule.Turns b b) {l : List Char}
    (hl : EndsIn names l) (hworks : ∀ v, v <:+ l → EndsIn names v → rule.WorksIn names v) :
    ∃ l', EndsIn names l' ∧ rule.Turns l l' := by
  induction hn : l.length using Nat.strongRecOn generalizing l with
  | _ n ih =>
    obtain ⟨z, b, hb, rfl⟩ := hl
    cases z with
    | nil => exact ⟨b, ⟨[], b, hb, rfl⟩, hnames b hb⟩
    | cons c z =>
      rcases hworks _ List.suffix_rfl ⟨c :: z, b, hb, rfl⟩ with hnone | ⟨o, v, hv, hsuffix, hlt, hsome⟩
      · have hsuffix : z ++ b <:+ c :: z ++ b := List.suffix_cons c (z ++ b)
        obtain ⟨l', hl', hturns⟩ := ih _ (by rw [← hn]; exact Nat.lt_succ_self _) ⟨z, b, hb, rfl⟩
          (fun v hv => hworks v (hv.trans hsuffix)) rfl
        exact ⟨c :: l', hl'.append_left [c], .cons_of_none hnone hturns⟩
      · obtain ⟨l', hl', hturns⟩ := ih _ (hn ▸ hlt) hv (fun u hu => hworks u (hu.trans hsuffix)) rfl
        refine ⟨o ++ l', hl'.append_left o, fun rest => ?_⟩
        have hlt' : (v ++ rest).length < (c :: z ++ b ++ rest).length := by
          rw [List.length_append, List.length_append]
          exact Nat.add_lt_add_right hlt _
        rw [substitute_of_some (hsome rest) hlt', hturns rest, List.append_assoc]

section
variable {names : List (List Char)} {l : List Char}

theorem literal_worksIn (hnames : AreWords names) (written : String) {read : String}
    (hlast : read.toList.getLast?.any (fun c => !isLetter c) = true) (hp : ∀ b ∈ names, StopsAt read.toList b)
    (hl : EndsIn names l) : (literal read written).WorksIn names l := by
  obtain ⟨d, hd, hletter⟩ := (Option.any_eq_true _ _).1 hlast
  obtain ⟨q, hq⟩ := List.getLast?_eq_some_iff.1 hd
  have hletter : isLetter d = false := by simpa using hletter
  have hafter : ∀ rest, after? read.toList (l ++ rest) = (after? read.toList l).map (· ++ rest) := hl.after?_append hp
  cases h : after? read.toList l with
  | none => exact Or.inl fun rest => by rw [literal, hafter, h]; rfl
  | some v =>
    have heq := eq_append_of_after? h
    have hends : EndsIn names v := by
      rw [hq, List.append_assoc, List.singleton_append] at heq
      obtain ⟨_ | ⟨e, z⟩, b, hb, hz⟩ := hl.of_suffix hnames hletter ⟨q, heq.symm⟩
      · have hmem := (hnames b hb).2 d (by rw [← List.nil_append b, ← hz]; exact List.mem_cons_self)
        rw [hletter] at hmem
        cases hmem
      · exact ⟨z, b, hb, (List.cons.inj hz).2⟩
    refine Or.inr ⟨written.toList, v, hends, ⟨_, heq.symm⟩, ?_, fun rest => by rw [literal, hafter, h]; rfl⟩
    rw [heq, hq, List.length_append, List.length_append, List.length_singleton]
    omega

theorem afterWord?_worksIn (hnames : AreWords names) {word : String} (hp : ∀ b ∈ names, StopsAt ('\\' :: word.toList) b)
    (hl : EndsIn names l) (hne : ¬ '\\' :: word.toList <:+ l) : (∀ rest, afterWord? word (l ++ rest) = none) ∨
      ∃ v, EndsIn names v ∧ v <:+ l ∧ v.length < l.length ∧ ∀ rest, afterWord? word (l ++ rest) = some (v ++ rest) := by
  have hafter : ∀ rest, afterWord? word (l ++ rest) =
      ((after? ('\\' :: word.toList) l).map (· ++ rest)).bind fun r => if r.head?.any isLetter then none else some r :=
    fun rest => by
      have h := afterWord?_map word id (l ++ rest)
      rwa [Option.map_id_fun, id, hl.after?_append hp] at h
  cases h : after? ('\\' :: word.toList) l with
  | none => exact Or.inl fun rest => by rw [hafter, h]; rfl
  | some v =>
    have heq := eq_append_of_after? h
    cases v with
    | nil => exact absurd ⟨[], by rw [heq, List.append_nil]; rfl⟩ hne
    | cons d v =>
      cases hd : isLetter d with
      | true => exact Or.inl fun rest => by rw [hafter, h]; simp [hd]
      | false =>
        refine Or.inr ⟨d :: v, hl.of_suffix hnames hd ⟨_, heq.symm⟩, ⟨_, heq.symm⟩, ?_, fun rest => ?_⟩
        · rw [heq]
          simp only [List.length_append, List.length_cons]
          omega
        · rw [hafter, h]
          simp [hd]

theorem letterCommand_worksIn (hnames : AreWords names) {word : String} (name : String)
    (hp : ∀ b ∈ names, StopsAt ('\\' :: word.toList) b) (hl : EndsIn names l) (hne : ¬ '\\' :: word.toList <:+ l) :
    (letterCommand word name).WorksIn names l := by
  rcases afterWord?_worksIn hnames hp hl hne with hnone | ⟨v, hv, hsuffix, hlt, hsome⟩
  · exact Or.inl fun rest => by rw [letterCommand, hnone]; rfl
  · exact Or.inr ⟨_, v, hv, hsuffix, hlt, fun rest => by rw [letterCommand, hsome]; rfl⟩

theorem quadSpace_worksIn (hnames : AreWords names)
    (hp : ∀ v ∈ ["quad", "qquad"], ∀ b ∈ names, StopsAt ('\\' :: v.toList) b)
    (hne : ∀ v ∈ ["quad", "qquad"], ∀ b ∈ names, ¬ '\\' :: v.toList <:+ b ∧ ¬b <:+ '\\' :: v.toList)
    (hl : EndsIn names l) : quadSpace.WorksIn names l := by
  have hword : ∀ v ∈ ["quad", "qquad"], ¬ '\\' :: v.toList <:+ l := fun v hv => hl.not_suffix (hne v hv)
  rcases afterWord?_worksIn hnames (hp "quad" (by decide)) hl (hword "quad" (by decide)) with
    hnone | ⟨v, hv, hsuffix, hlt, hsome⟩
  · rcases afterWord?_worksIn hnames (hp "qquad" (by decide)) hl (hword "qquad" (by decide)) with
      hnone' | ⟨v, hv, hsuffix, hlt, hsome⟩
    · exact Or.inl fun rest => by rw [quadSpace, hnone, hnone']; rfl
    · exact Or.inr ⟨_, v, hv, hsuffix, hlt, fun rest => by rw [quadSpace, hnone, hsome]; rfl⟩
  · exact Or.inr ⟨_, v, hv, hsuffix, hlt, fun rest => by rw [quadSpace, hsome]; rfl⟩

theorem EndsIn.trimLeft (hl : EndsIn names l) (hnames : AreWords names) :
    EndsIn names (trimLeft l) ∧ ∀ rest, Heightfield.trimLeft (l ++ rest) = Heightfield.trimLeft l ++ rest := by
  obtain ⟨z, b, hb, rfl⟩ := hl
  obtain ⟨c, r, rfl⟩ := List.exists_cons_of_ne_nil (hnames b hb).1
  have hc : isBlank c = false := isBlank_eq_false_of_isLetter ((hnames _ hb).2 c List.mem_cons_self)
  rcases forall_or_exists_first isBlank z with hz | ⟨x, d, y, rfl, hx, hd⟩
  · refine ⟨⟨[], _, hb, by rw [trimLeft_append hz, trimLeft_cons hc]; rfl⟩, fun rest => ?_⟩
    rw [List.append_assoc, trimLeft_append hz, trimLeft_append hz, List.cons_append, trimLeft_cons hc, trimLeft_cons hc,
      List.cons_append]
  · have htrim : ∀ r, Heightfield.trimLeft (x ++ d :: y ++ r) = d :: y ++ r := fun r => by
      rw [List.append_assoc, trimLeft_append hx, List.cons_append, trimLeft_cons hd]
    refine ⟨⟨d :: y, _, hb, htrim _⟩, fun rest => ?_⟩
    rw [List.append_assoc, htrim, htrim, List.append_assoc]

/-- An operator that ends within a name leaves a name. -/
theorem operatorCommand_worksIn (hnames : AreWords names) {word : String} (written : String)
    (hp : ∀ b ∈ names, StopsAt ('\\' :: word.toList) b)
    (hcut : ∀ b ∈ names, ∀ i ∈ List.range (b.length + 1), b.take i <:+ '\\' :: word.toList → b.drop i ∈ names)
    (hl : EndsIn names l) : (operatorCommand word written).WorksIn names l := by
  obtain ⟨hm, htrim⟩ := hl.trimLeft hnames
  have hsuffix : Heightfield.trimLeft l <:+ l := List.dropWhile_suffix isBlank
  generalize Heightfield.trimLeft l = m at hm htrim hsuffix
  have hread : ∀ rest, operatorCommand word written (l ++ rest) =
      ((after? ('\\' :: word.toList) m).map (· ++ rest)).map fun r => (written.toList, Heightfield.trimLeft r) :=
    fun rest => by rw [operatorCommand, htrim, hm.after?_append hp]
  cases h : after? ('\\' :: word.toList) m with
  | none => exact Or.inl fun rest => by rw [hread, h]; rfl
  | some v =>
    have heq := eq_append_of_after? h
    have hv : EndsIn names v := by
      obtain ⟨z, b, hb, rfl⟩ := hm
      rcases List.append_eq_append_iff.1 heq with ⟨x, hx, rfl⟩ | ⟨x, rfl, rfl⟩
      · have hmem := hcut _ hb x.length (List.mem_range.2 (by rw [List.length_append]; omega))
          (by rw [List.take_left, hx]; exact List.suffix_append z x)
        rw [List.drop_left] at hmem
        exact ⟨[], v, hmem, rfl⟩
      · exact ⟨x, b, hb, rfl⟩
    obtain ⟨hv', htrim'⟩ := hv.trimLeft hnames
    have hsuffix' : Heightfield.trimLeft v <:+ v := List.dropWhile_suffix isBlank
    have hvm : v <:+ m := ⟨_, heq.symm⟩
    refine Or.inr ⟨written.toList, _, hv', hsuffix'.trans (hvm.trans hsuffix), ?_, fun rest => ?_⟩
    · have hlen := hsuffix.length_le
      have hlen' := hsuffix'.length_le
      rw [heq, List.length_append, List.length_cons] at hlen
      omega
    · rw [hread, h, Option.map_some, Option.map_some, htrim']

end

/-! ## Rules that keep endings -/

/-- The rule works on a text with an ending whatever follows, and leaves an ending. -/
def Rule.KeepsEndings (rule : Rule) (names : List (List Char)) : Prop :=
  ∀ l, EndsIn names l → ∃ l', EndsIn names l' ∧ rule.Turns l l'

theorem keepsEndings_of_worksIn {rule : Rule} {names : List (List Char)} (hnames : ∀ b ∈ names, rule.Turns b b)
    (h : ∀ l, EndsIn names l → rule.WorksIn names l) : rule.KeepsEndings names := fun _ hl =>
  exists_turns hnames hl fun v _ hv => h v hv

theorem backslash_not_mem_of_letters {b : List Char} (hb : ∀ c ∈ b, isLetter c = true) : '\\' ∉ b := fun hmem => by
  cases hb _ hmem

theorem literal_keepsEndings {names : List (List Char)} (hnames : AreWords names) (written : String) {read : String}
    (hhead : read.toList.head? = some '\\') (hlast : read.toList.getLast?.any (fun c => !isLetter c) = true)
    (hp : ∀ b ∈ names, StopsAt read.toList b) : (literal read written).KeepsEndings names := by
  obtain ⟨p, hread⟩ := List.head?_eq_some_iff.1 hhead
  refine keepsEndings_of_worksIn (fun b hb => ?_) fun l => literal_worksIn hnames written hlast hp
  exact (literal_readsBackslash read written hread).turns_of_not_mem (backslash_not_mem_of_letters (hnames b hb).2)

/-- The rule passes over the blanks, or takes them away. -/
def Rule.PassesBlanks (rule : Rule) (w : List Char) : Prop :=
  ∀ y, substitute rule (w ++ y) = w ++ substitute rule y ∨ substitute rule (w ++ y) = substitute rule y

theorem Rule.Turns.passesBlanks {rule : Rule} {w : List Char} (h : rule.Turns w w) : rule.PassesBlanks w := fun y => Or.inl (h y)

theorem backslash_not_mem_of_blanks {w : List Char} (hw : ∀ c ∈ w, isBlank c = true) : '\\' ∉ w := fun hmem => by
  cases hw _ hmem

/-- The rule works before an ending, on the blanks and on what stands behind them apart. -/
structure Rule.Passes (rule : Rule) (names : List (List Char)) (w : List Char) : Prop where
  keepsEndings : rule.KeepsEndings names
  passesBlanks : rule.PassesBlanks w
  keepsQuiet : rule.KeepsQuiet

theorem Rule.ReadsBackslash.passes {rule : Rule} {names : List (List Char)} {w : List Char} (h : rule.ReadsBackslash)
    (hw : ∀ c ∈ w, isBlank c = true) (hnames : rule.KeepsEndings names) : rule.Passes names w where
  keepsEndings := hnames
  passesBlanks := (h.turns_of_not_mem (backslash_not_mem_of_blanks hw)).passesBlanks
  keepsQuiet := h.keepsQuiet

/-- The second text is the first with `w` put in behind an ending, unless `w` is gone; if `q`, something quiet
follows. -/
def Settled (q : Prop) (names : List (List Char)) (w s t : List Char) : Prop :=
  s = t ∨ ∃ l y, (q → y ≠ [] ∧ BeginsQuietly y) ∧ EndsIn names l ∧ s = l ++ y ∧ t = l ++ (w ++ y)

theorem Settled.mono {q : Prop} {names names' : List (List Char)} {w s t : List Char} (h : Settled q names w s t)
    (hsub : ∀ b ∈ names, b ∈ names') : Settled q names' w s t := by
  rcases h with rfl | ⟨l, y, hy, hl, rfl, rfl⟩
  · exact Or.inl rfl
  · exact Or.inr ⟨l, y, hy, hl.mono hsub, rfl, rfl⟩

theorem Settled.substitute {q : Prop} {names : List (List Char)} {rule : Rule} {w s t : List Char}
    (hrule : rule.Passes names w) (h : Settled q names w s t) :
    Settled q names w (Latex.substitute rule s) (Latex.substitute rule t) := by
  rcases h with rfl | ⟨l, y, hy, hl, rfl, rfl⟩
  · exact Or.inl rfl
  · obtain ⟨l', hl', hturns⟩ := hrule.keepsEndings l hl
    rw [hturns, hturns]
    rcases hrule.passesBlanks y with hpass | htake
    · rw [hpass]
      exact Or.inr ⟨l', _, fun hq => hrule.keepsQuiet y (hy hq), hl', rfl, rfl⟩
    · rw [htake]
      exact Or.inl rfl

/-! ## The rules for commands -/

/-- The commands for parentheses and spaces. -/
def signs : List (String × String) :=
  [("\\left(", "("), ("\\right)", ")"), ("\\left[", "("), ("\\right]", ")"), ("\\left\\\x7b", "("), ("\\right\\\x7d", ")"),
   ("\\,", ""), ("\\;", ""), ("\\:", ""), ("\\!", ""), ("\\ ", "")]

theorem commandRules_eq : commandRules = [letterCommand "e" "e", operatorCommand "cdot" " * ",
    operatorCommand "times" " * ", operatorCommand "div" " / "] ++ (signs.map (fun r => literal r.1 r.2) ++ [quadSpace]) := rfl

theorem head?_signs : ∀ r ∈ signs, r.1.toList.head? = some '\\' := by decide

theorem getLast?_signs : ∀ r ∈ signs, r.1.toList.getLast?.any (fun c => !isLetter c) = true := by decide

theorem stopsAt_endings : ∀ p ∈ ["\\e", "\\cdot", "\\times", "\\div", "\\quad", "\\qquad", "\\"] ++ signs.map Prod.fst,
    ∀ b ∈ endings, StopsAt p.toList b := by decide

theorem not_suffix_endings : ∀ p ∈ ["\\e", "\\quad", "\\qquad"], ∀ b ∈ endings, ¬p.toList <:+ b ∧ ¬b <:+ p.toList := by
  decide

/-- An operator leaves of a name nothing, or a name. -/
theorem drop_mem_endings : ∀ p ∈ ["\\cdot", "\\times", "\\div"], ∀ b ∈ endings, ∀ i ∈ List.range (b.length + 1),
    b.take i <:+ p.toList → b.drop i ∈ endings := by decide

theorem signs_keepEndings : ∀ r ∈ signs, (literal r.1 r.2).KeepsEndings endings := fun r hr =>
  literal_keepsEndings areWords_endings r.2 (head?_signs r hr) (getLast?_signs r hr)
    (stopsAt_endings r.1 (List.mem_append_right _ (List.mem_map_of_mem hr)))

theorem operatorCommand_keepsEndings {word : String} (written : String) (hp : ∀ b ∈ endings, StopsAt ('\\' :: word.toList) b)
    (hcut : ∀ b ∈ endings, ∀ i ∈ List.range (b.length + 1), b.take i <:+ '\\' :: word.toList → b.drop i ∈ endings) :
    (operatorCommand word written).KeepsEndings endings :=
  keepsEndings_of_worksIn (fun b hb => operatorCommand_turns_of_isSolid fun c hc =>
    isSolid_of_isAlphanumeric (isAlphanumeric_of_isLetter ((areWords_endings b hb).2 c hc)))
    fun _ => operatorCommand_worksIn areWords_endings written hp hcut

/-- An operator takes the blanks before it; another text keeps them. -/
theorem operatorCommand_passesBlanks {w : List Char} (hw : ∀ c ∈ w, isBlank c = true) (word written : String) :
    (operatorCommand word written).PassesBlanks w := fun y => by
  have hread : ∀ v : List Char, (∀ c ∈ v, isBlank c = true) →
      operatorCommand word written (v ++ y) = operatorCommand word written y := fun v hv => by
    rw [operatorCommand, operatorCommand, trimLeft_append hv]
  cases h : operatorCommand word written y with
  | none =>
    refine Or.inl ?_
    induction w with
    | nil => rfl
    | cons c w ih =>
      have hnone := (hread (c :: w) hw).trans h
      rw [List.cons_append] at hnone
      rw [List.cons_append, substitute_cons_of_none hnone, ih fun d hd => hw d (List.mem_cons_of_mem c hd), List.cons_append]
  | some r =>
    refine Or.inr ?_
    obtain ⟨o, r⟩ := r
    have hlt : r.length < y.length := by
      obtain ⟨v, hv, heq⟩ := Option.map_eq_some_iff.1 h
      have hlen := congrArg List.length (eq_append_of_after? hv)
      have hdrop := (List.dropWhile_suffix isBlank (l := y)).length_le
      have hdrop' := (List.dropWhile_suffix isBlank (l := v)).length_le
      obtain ⟨-, rfl⟩ := Prod.mk.inj heq
      rw [List.length_append, List.length_cons] at hlen
      unfold trimLeft at hlen ⊢
      omega
    rw [substitute_of_some ((hread w hw).trans h) (by rw [List.length_append]; omega), substitute_of_some h hlt]

theorem operatorCommand_keepsQuiet (word : String) {written : String}
    (hwritten : written.toList ≠ [] ∧ BeginsQuietly written.toList) : Rule.KeepsQuiet (operatorCommand word written) :=
  Rule.keepsQuiet fun c s o r _ h => by
    obtain ⟨v, -, heq⟩ := Option.map_eq_some_iff.1 h
    obtain ⟨rfl, -⟩ := Prod.mk.inj heq
    exact hwritten

/-- **The rules for commands pass endings and blanks.** -/
theorem commandRules_pass {w : List Char} (hw : ∀ c ∈ w, isBlank c = true) : ∀ rule ∈ commandRules, rule.Passes endings w := by
  have hworks : ∀ {rule : Rule}, rule.ReadsBackslash → (∀ l, EndsIn endings l → rule.WorksIn endings l) →
      rule.Passes endings w := fun h hl => h.passes hw <| keepsEndings_of_worksIn
    (fun b hb => h.turns_of_not_mem (backslash_not_mem_of_letters (areWords_endings b hb).2)) hl
  have hoperator : ∀ {word written : String}, (∀ b ∈ endings, StopsAt ('\\' :: word.toList) b) →
      (∀ b ∈ endings, ∀ i ∈ List.range (b.length + 1), b.take i <:+ '\\' :: word.toList → b.drop i ∈ endings) →
      written.toList ≠ [] ∧ BeginsQuietly written.toList → Rule.Passes (operatorCommand word written) endings w :=
    fun {word written} hp hcut hwritten => ⟨operatorCommand_keepsEndings written hp hcut,
      operatorCommand_passesBlanks hw word written, operatorCommand_keepsQuiet word hwritten⟩
  intro rule hr
  rw [commandRules_eq, List.mem_append, List.mem_append, List.mem_map] at hr
  rcases hr with hr | ⟨r, hr, rfl⟩ | hr
  · simp only [List.mem_cons, List.not_mem_nil, or_false] at hr
    rcases hr with rfl | rfl | rfl | rfl
    · exact hworks (letterCommand_readsWord (by decide) "e").readsBackslash fun l hl =>
        letterCommand_worksIn areWords_endings "e" (stopsAt_endings "\\e" (by decide)) hl
          (hl.not_suffix (not_suffix_endings "\\e" (by decide)))
    · exact hoperator (stopsAt_endings "\\cdot" (by decide)) (drop_mem_endings "\\cdot" (by decide)) (by decide)
    · exact hoperator (stopsAt_endings "\\times" (by decide)) (drop_mem_endings "\\times" (by decide)) (by decide)
    · exact hoperator (stopsAt_endings "\\div" (by decide)) (drop_mem_endings "\\div" (by decide)) (by decide)
  · obtain ⟨p, hp⟩ := List.head?_eq_some_iff.1 (head?_signs r hr)
    exact (literal_readsBackslash r.1 r.2 hp).passes hw (signs_keepEndings r hr)
  · rw [List.mem_singleton.1 hr]
    exact hworks quadSpace_readsBackslash fun l =>
      quadSpace_worksIn areWords_endings
        (List.forall_mem_cons.2 ⟨stopsAt_endings "\\quad" (by decide),
          List.forall_mem_singleton.2 (stopsAt_endings "\\qquad" (by decide))⟩)
        (List.forall_mem_cons.2 ⟨not_suffix_endings "\\quad" (by decide),
          List.forall_mem_singleton.2 (not_suffix_endings "\\qquad" (by decide))⟩)

/-! ## Rules for two neighbours -/

/-- A star between two neighbours. -/
def starBetween (neighbours : Char → Char → Bool) : Rule
  | a :: b :: s => if neighbours a b then some ([a, '*', b], s) else none
  | _ => none

theorem digitLetter_eq : digitLetter = starBetween fun a b => isDecimalDigit a && isLetter b := rfl

theorem closingLetter_eq : closingLetter = starBetween fun a b => a = ')' && isLetter b := by
  funext s
  rcases s with _ | ⟨a, _ | ⟨b, s⟩⟩
  · rfl
  · by_cases ha : a = ')' <;> simp [closingLetter, starBetween]
  · by_cases ha : a = ')' <;> simp [closingLetter, starBetween, ha]

theorem closingDigit_eq : closingDigit = starBetween fun a b => a = ')' && isDecimalDigit b := by
  funext s
  rcases s with _ | ⟨a, _ | ⟨b, s⟩⟩
  · rfl
  · by_cases ha : a = ')' <;> simp [closingDigit, starBetween]
  · by_cases ha : a = ')' <;> simp [closingDigit, starBetween, ha]

theorem closingOpening_eq : literal ")(" ")*(" = starBetween fun a b => a = ')' && b = '(' := by
  funext s
  rcases s with _ | ⟨a, _ | ⟨b, s⟩⟩
  · rfl
  · by_cases ha : a = ')' <;> simp [literal, after?, starBetween, ha]
  · by_cases ha : a = ')' <;> by_cases hb : b = '(' <;> simp [literal, after?, starBetween, ha, hb, eq_comm]

section
variable {neighbours : Char → Char → Bool}

theorem starBetween_turns_singleton {a : Char} (ha : ∀ b, neighbours a b = false) :
    (starBetween neighbours).Turns [a] [a] := .of_none fun rest => by
  cases rest with
  | nil => rfl
  | cons b s => exact if_neg (by rw [ha b]; exact Bool.false_ne_true)

theorem starBetween_turns_pair {a b : Char} (h : neighbours a b = true) :
    (starBetween neighbours).Turns [a, b] [a, '*', b] := .of_some (List.cons_ne_nil _ _) fun _ => if_pos h

theorem starBetween_cons_of_false {a b : Char} (h : neighbours a b = false) (s : List Char) :
    starBetween neighbours (a :: b :: s) = none := if_neg (by rw [h]; exact Bool.false_ne_true)

/-- **Stars are put before a name, but not into it.** -/
theorem starBetween_turns_append {b : List Char} (hb : b ≠ []) (hletters : ∀ c ∈ b, ∀ d, neighbours c d = false) :
    ∀ z, ∃ z', (starBetween neighbours).Turns (z ++ b) (z' ++ b)
  | [] => ⟨[], .of_forall_mem fun c hc => starBetween_turns_singleton (hletters c hc)⟩
  | [a] => by
    obtain ⟨c, b, rfl⟩ := List.exists_cons_of_ne_nil hb
    have hturns : (starBetween neighbours).Turns b b := .of_forall_mem fun d hd =>
      starBetween_turns_singleton (hletters d (List.mem_cons_of_mem c hd))
    cases h : neighbours a c with
    | true => exact ⟨[a, '*'], (starBetween_turns_pair h).append hturns⟩
    | false =>
      exact ⟨[a], .cons_of_none (fun rest => starBetween_cons_of_false h _)
        ((starBetween_turns_singleton (hletters c List.mem_cons_self)).append hturns)⟩
  | a :: c :: z => by
    cases h : neighbours a c with
    | true =>
      obtain ⟨z', hz'⟩ := starBetween_turns_append hb hletters z
      exact ⟨[a, '*', c] ++ z', (starBetween_turns_pair h).append hz'⟩
    | false =>
      obtain ⟨z', hz'⟩ := starBetween_turns_append hb hletters (c :: z)
      exact ⟨a :: z', .cons_of_none (fun rest => starBetween_cons_of_false h _) hz'⟩

theorem starBetween_keepsEndings {names : List (List Char)} (hnames : AreWords names)
    (h : ∀ a b, isLetter a = true → neighbours a b = false) : (starBetween neighbours).KeepsEndings names := by
  rintro _ ⟨z, b, hb, rfl⟩
  obtain ⟨hne, hletters⟩ := hnames b hb
  obtain ⟨z', hz'⟩ : ∃ z', (starBetween neighbours).Turns (z ++ b) (z' ++ b) :=
    starBetween_turns_append hne (fun c hc d => h c d (hletters c hc)) z
  exact ⟨z' ++ b, ⟨z', b, hb, rfl⟩, hz'⟩

theorem starBetween_keepsQuiet (neighbours : Char → Char → Bool) : Rule.KeepsQuiet (starBetween neighbours) :=
  Rule.keepsQuiet fun c s o r hc h => by
    rcases s with _ | ⟨b, s⟩
    · cases h
    · rw [starBetween] at h
      split at h
      · cases h
        exact ⟨List.cons_ne_nil _ _, fun d hd => by
          obtain rfl := Option.some.inj hd
          exact hc⟩
      · cases h

end

/-- A character that has no factor behind it for these rules: neither a digit nor a closing parenthesis. -/
def EndsNoFactor (a : Char) : Prop := isDecimalDigit a = false ∧ a ≠ ')'

theorem endsNoFactor_of_isLetter {a : Char} (h : isLetter a = true) : EndsNoFactor a := by
  refine ⟨Bool.eq_false_iff.2 fun hd => ?_, ?_⟩
  · have hlt : a.toNat < 128 := by
      rw [isLetter_iff] at h
      omega
    rw [isLetter_eq_false_of_isDigit (isDigit_of_isDecimalDigit hlt hd)] at h
    cases h
  · rintro rfl
    cases h

theorem endsNoFactor_of_isBlank {a : Char} (h : isBlank a = true) : EndsNoFactor a := by
  refine ⟨Bool.eq_false_iff.2 fun hd => ?_, ?_⟩
  · obtain ⟨r, hr, hle, hge⟩ := (isBlank_iff a).1 h
    rw [isDecimalDigit, digitValue?, Option.isSome_map] at hd
    obtain ⟨z, hz⟩ := Option.isSome_iff_exists.1 hd
    have hrange := List.find?_some hz
    rw [Bool.and_eq_true, decide_eq_true_eq, decide_eq_true_eq] at hrange
    -- no blank lies in a run of ten digits
    have hapart : ∀ r ∈ blankRanges, ∀ z ∈ digitZeros, r.2 < z ∨ z + 10 ≤ r.1 := by decide
    have := hapart r hr z (List.mem_of_find?_eq_some hz)
    omega
  · rintro rfl
    cases h

/-- The rules for two neighbours. -/
def pairRules : List Rule := [digitLetter, closingLetter, literal ")(" ")*(", closingDigit]

theorem exists_starBetween {rule : Rule} (hr : rule ∈ pairRules) : ∃ neighbours : Char → Char → Bool,
    rule = starBetween neighbours ∧ ∀ a b, EndsNoFactor a → neighbours a b = false := by
  simp only [pairRules, List.mem_cons, List.not_mem_nil, or_false] at hr
  rcases hr with rfl | rfl | rfl | rfl
  · exact ⟨_, digitLetter_eq, fun a b h => by simp [h.1]⟩
  · exact ⟨_, closingLetter_eq, fun a b h => by simp [h.2]⟩
  · exact ⟨_, closingOpening_eq, fun a b h => by simp [h.2]⟩
  · exact ⟨_, closingDigit_eq, fun a b h => by simp [h.2]⟩

theorem pairRule_turns {rule : Rule} (hr : rule ∈ pairRules) {a : Char} (ha : EndsNoFactor a) : rule.Turns [a] [a] := by
  obtain ⟨neighbours, rfl, h⟩ := exists_starBetween hr
  exact starBetween_turns_singleton fun b => h a b ha

theorem pairRule_passes {w : List Char} (hw : ∀ c ∈ w, isBlank c = true) {rule : Rule} (hr : rule ∈ pairRules) :
    rule.Passes endings w where
  keepsEndings := by
    obtain ⟨neighbours, rfl, h⟩ := exists_starBetween hr
    exact starBetween_keepsEndings areWords_endings fun a b ha => h a b (endsNoFactor_of_isLetter ha)
  passesBlanks :=
    (Rule.Turns.of_forall_mem fun c hc => pairRule_turns hr (endsNoFactor_of_isBlank (hw c hc))).passesBlanks
  keepsQuiet := by
    obtain ⟨neighbours, rfl, -⟩ := exists_starBetween hr
    exact starBetween_keepsQuiet neighbours

end Heightfield.Latex
