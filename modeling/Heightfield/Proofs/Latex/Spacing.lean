import Mathlib.Data.List.Infix
import Mathlib.Data.List.TakeWhile
import Heightfield.Proofs.Latex.Groups
import Heightfield.Proofs.Latex.Opening
/-!
# Blanks behind a command

Two texts that differ only in the blanks behind one Greek command (`Spaced`) stay so under a rule that begins with a
fixed text which does not run into the command (`Clear`), and that finds the blanks either in the contents it reads or
in what remains (`Reader`).  A proposition `q` is carried along: where it holds, what stands behind the blanks begins
with a character that is part of no name and no command (`Quiet`).
-/
namespace Heightfield.Latex

/-! ## Fixed texts beside a command -/

/-- A command as it is written. -/
def command (g : String) : List Char := '\\' :: g.toList

/-- The text `p` is not begun before `k` and ended within or behind it. -/
def Clear (p k : List Char) : Prop := ∀ q ∈ p.tails, q ≠ [] → ¬q <+: k ∧ ¬k <+: q

instance (p k : List Char) : Decidable (Clear p k) := by unfold Clear; infer_instance

theorem after?_eq_none_of_apart {p k : List Char} (hpk : ¬p <+: k) (hkp : ¬k <+: p) (z : List Char) :
    after? p (k ++ z) = none := by
  refine Option.eq_none_iff_forall_ne_some.2 fun r hr => ?_
  rcases List.prefix_or_prefix_of_prefix (List.prefix_append k z) ⟨r, (eq_append_of_after? hr).symm⟩ with h | h
  · exact hkp h
  · exact hpk h

theorem Clear.after?_append {p k : List Char} (h : Clear p k) : ∀ x z : List Char,
    after? p (x ++ (k ++ z)) = (after? p x).map (· ++ (k ++ z)) := by
  induction p with
  | nil => exact fun x z => rfl
  | cons a p ih =>
    have htail : Clear p k := fun q hq => h q (List.mem_cons_of_mem _ hq)
    rintro (_ | ⟨b, x⟩) z
    · have hhead := h (a :: p) (by simp) (List.cons_ne_nil _ _)
      exact after?_eq_none_of_apart hhead.1 hhead.2 z
    · by_cases hab : a = b
      · rw [List.cons_append, after?, after?, if_pos hab, if_pos hab]
        exact ih htail x z
      · rw [List.cons_append, after?, after?, if_neg hab, if_neg hab]
        rfl

/-- An ending that the command has no part in has none in the blanks behind it either. -/
theorem Clear.blanks {e k w : List Char} (h : Clear e.reverse k) (he : ∀ c ∈ e, isBlank c = false)
    (hw : ∀ c ∈ w, isBlank c = true) : Clear e.reverse (w.reverse ++ k) := by
  rcases List.eq_nil_or_concat w with rfl | ⟨v, b, rfl⟩
  · exact h
  · intro q hq hne
    obtain ⟨a, q, rfl⟩ := List.exists_cons_of_ne_nil hne
    have ha : a ≠ b := by
      rintro rfl
      have hmem : a ∈ e := List.mem_reverse.1 (((List.mem_tails _ _).1 hq).mem List.mem_cons_self)
      have hb := hw a (by simp)
      rw [he a hmem] at hb
      cases hb
    simp [ha, Ne.symm ha]

theorem isLetter_of_mem_greekLetters : ∀ g ∈ greekLetters, ∀ c ∈ g.toList, isLetter c = true := by decide

theorem isBlank_eq_false_of_isLetter {c : Char} (h : isLetter c = true) : isBlank c = false :=
  isBlank_eq_false_of_isAlphanumeric (isAlphanumeric_of_isLetter h)

/-! ## Quiet characters -/

/-- The character is part of no name, begins no command, and is no bar. -/
def Quiet (c : Char) : Prop := isAlphanumeric c = false ∧ c ≠ '\\' ∧ c ≠ '|'

instance (c : Char) : Decidable (Quiet c) := by unfold Quiet; infer_instance

def BeginsQuietly (y : List Char) : Prop := ∀ c ∈ y.head?, Quiet c

instance (y : List Char) : Decidable (BeginsQuietly y) := by unfold BeginsQuietly; infer_instance

theorem BeginsQuietly.of_start {y z : List Char} (h : BeginsQuietly z) (hyz : y <+: z) : BeginsQuietly y := by
  obtain ⟨r, rfl⟩ := hyz
  cases y with
  | nil => exact nofun
  | cons c y => exact h

theorem BeginsQuietly.append {y z : List Char} (hy : BeginsQuietly y) (hz : BeginsQuietly z) : BeginsQuietly (y ++ z) := by
  cases y with
  | nil => exact hz
  | cons c y => exact hy

/-- What the rule makes of a text that begins quietly begins so. -/
def Rule.KeepsQuiet (rule : Rule) : Prop :=
  ∀ y, y ≠ [] ∧ BeginsQuietly y → substitute rule y ≠ [] ∧ BeginsQuietly (substitute rule y)

theorem Rule.keepsQuiet {rule : Rule}
    (h : ∀ c s o r, Quiet c → rule (c :: s) = some (o, r) → o ≠ [] ∧ BeginsQuietly o) : rule.KeepsQuiet := by
  rintro y ⟨hne, hquiet⟩
  obtain ⟨c, s, rfl⟩ := List.exists_cons_of_ne_nil hne
  have hc : Quiet c := hquiet c rfl
  have hcopy : c :: substitute rule s ≠ [] ∧ BeginsQuietly (c :: substitute rule s) := ⟨List.cons_ne_nil _ _, hquiet⟩
  rw [substitute]
  split
  · rename_i o r hsome
    obtain ⟨ho, hoquiet⟩ := h c s o r hc hsome
    split
    · obtain ⟨d, o, rfl⟩ := List.exists_cons_of_ne_nil ho
      exact ⟨List.cons_ne_nil _ _, hoquiet⟩
    · exact hcopy
  · exact hcopy

theorem Rule.ReadsBackslash.keepsQuiet {rule : Rule} (h : rule.ReadsBackslash) : rule.KeepsQuiet :=
  Rule.keepsQuiet fun c s o r hc hsome => by
    rw [h c s hc.2.1] at hsome
    cases hsome

/-! ## Two texts that differ in blanks -/

/-- The second text is the first with `w` put in behind the command `g`; if `q`, something quiet follows. -/
def Spaced (q : Prop) (g : String) (w s t : List Char) : Prop :=
  ∃ x y, (q → y ≠ [] ∧ BeginsQuietly y) ∧ s = x ++ (command g ++ y) ∧ t = x ++ (command g ++ (w ++ y))

/-- The same for the contents of a group, which can end behind the blanks. -/
def SpacedIn (q : Prop) (g : String) (w s t : List Char) : Prop :=
  ∃ x y, (q → BeginsQuietly y) ∧ s = x ++ (command g ++ y) ∧ t = x ++ (command g ++ (w ++ y))

section
variable {q : Prop} {g : String} {w s t : List Char}

theorem Spaced.append_left (l : List Char) (h : Spaced q g w s t) : Spaced q g w (l ++ s) (l ++ t) := by
  obtain ⟨x, y, hy, rfl, rfl⟩ := h
  exact ⟨l ++ x, y, hy, by simp, by simp⟩

theorem Spaced.append_right (h : Spaced q g w s t) (r : List Char) : Spaced q g w (s ++ r) (t ++ r) := by
  obtain ⟨x, y, hy, rfl, rfl⟩ := h
  refine ⟨x, y ++ r, fun hq => ?_, by simp, by simp⟩
  obtain ⟨c, y, rfl⟩ := List.exists_cons_of_ne_nil (hy hq).1
  exact ⟨List.cons_ne_nil _ _, (hy hq).2⟩

theorem Spaced.cons (c : Char) (h : Spaced q g w s t) : Spaced q g w (c :: s) (c :: t) := h.append_left [c]

theorem SpacedIn.append_left (l : List Char) (h : SpacedIn q g w s t) : SpacedIn q g w (l ++ s) (l ++ t) := by
  obtain ⟨x, y, hy, rfl, rfl⟩ := h
  exact ⟨l ++ x, y, hy, by simp, by simp⟩

/-- Contents that are closed have something behind the blanks. -/
theorem SpacedIn.closed (h : SpacedIn q g w s t) {r : List Char} (hne : r ≠ []) (hr : BeginsQuietly r) :
    Spaced q g w (s ++ r) (t ++ r) := by
  obtain ⟨x, y, hy, rfl, rfl⟩ := h
  exact ⟨x, y ++ r, fun hq => ⟨List.append_ne_nil_of_right_ne_nil y hne, (hy hq).append hr⟩, by simp, by simp⟩

theorem SpacedIn.ne_nil (h : SpacedIn q g w s t) : s ≠ [] ∧ t ≠ [] := by
  obtain ⟨x, y, -, rfl, rfl⟩ := h
  simp [command]

theorem Spaced.after? {p : List Char} (hp : Clear p (command g)) (h : Spaced q g w s t) :
    Option.Rel (Spaced q g w) (after? p s) (after? p t) := by
  obtain ⟨x, y, hy, rfl, rfl⟩ := h
  rw [hp.after?_append, hp.after?_append]
  cases Heightfield.after? p x with
  | none => exact .none
  | some x => exact .some ⟨x, y, hy, rfl, rfl⟩

theorem trimLeft_append_command (g : String) (x z : List Char) :
    trimLeft (x ++ (command g ++ z)) = trimLeft x ++ (command g ++ z) := by
  rcases forall_or_exists_first isBlank x with hx | ⟨a, c, b, rfl, ha, hc⟩
  · have hnil := trimLeft_append hx []
    rw [List.append_nil] at hnil
    rw [trimLeft_append hx, hnil]
    rfl
  · rw [List.append_assoc, trimLeft_append ha, trimLeft_append ha, List.cons_append, trimLeft_cons hc, trimLeft_cons hc,
      List.cons_append]

theorem Spaced.trimLeft (h : Spaced q g w s t) : Spaced q g w (trimLeft s) (trimLeft t) := by
  obtain ⟨x, y, hy, rfl, rfl⟩ := h
  rw [trimLeft_append_command, trimLeft_append_command]
  exact ⟨_, y, hy, rfl, rfl⟩

end

/-! ## Reading -/

/-- What is read from the two texts and what remains of them: either what remains has the blanks, or what was read,
where it is related as `S` says. -/
def SpacedRead (q : Prop) (g : String) (w : List Char) (S : List Char → List Char → Prop)
    (r r' : List Char × List Char) : Prop :=
  r.1 = r'.1 ∧ Spaced q g w r.2 r'.2 ∨ S r.1 r'.1 ∧ r.2 = r'.2

/-- A way of reading that notices no blanks behind the command. -/
structure Reader (q : Prop) (g : String) (w : List Char) (S : List Char → List Char → Prop) (read : Rule) : Prop where
  spaced : ∀ {s t}, Spaced q g w s t → Option.Rel (SpacedRead q g w S) (read s) (read t)
  length_le : ∀ {s o r}, read s = some (o, r) → r.length ≤ s.length

/-- A fixed text, then what `read` reads. -/
def opened (p : List Char) (read : Rule) : Rule := fun s => (after? p s).bind read

/-- The characters with the property, and a fixed text behind them. -/
def enclosed (p : Char → Bool) (closing : List Char) : Rule := fun s =>
  (after? closing (s.dropWhile p)).map (s.takeWhile p, ·)

theorem relBind {α β γ δ : Type} {R : α → β → Prop} {S : γ → δ → Prop} {a : Option α} {b : Option β}
    {f : α → Option γ} {f' : β → Option δ} (h : Option.Rel R a b) (hf : ∀ x y, R x y → Option.Rel S (f x) (f' y)) :
    Option.Rel S (a.bind f) (b.bind f') := by
  cases h with
  | none => exact .none
  | some h => exact hf _ _ h

theorem relMap {α β γ δ : Type} {R : α → β → Prop} {S : γ → δ → Prop} {a : Option α} {b : Option β}
    {f : α → γ} {f' : β → δ} (h : Option.Rel R a b) (hf : ∀ x y, R x y → S (f x) (f' y)) :
    Option.Rel S (a.map f) (b.map f') := by
  cases h with
  | none => exact .none
  | some h => exact .some (hf _ _ h)

theorem relOr {α β : Type} {R : α → β → Prop} {a a' : Option α} {b b' : Option β} (h : Option.Rel R a b)
    (h' : Option.Rel R a' b') : Option.Rel R (a.or a') (b.or b') := by
  cases h with
  | none => exact h'
  | some h => exact .some h

namespace Reader

variable {q : Prop} {g : String} {w : List Char} {S S' T : List Char → List Char → Prop} {read read' : Rule}

theorem opened {p : List Char} (hp : Clear p (command g)) (h : Reader q g w S read) :
    Reader q g w S (opened p read) where
  spaced hs := relBind (hs.after? hp) fun _ _ => h.spaced
  length_le {s o r} hr := by
    obtain ⟨v, hv, hread⟩ := Option.bind_eq_some_iff.1 hr
    have hlen := h.length_le hread
    rw [eq_append_of_after? hv, List.length_append]
    omega

theorem bind {f : List Char → Option (List Char)} (hf : ∀ c c', S c c' → Option.Rel T (f c) (f c'))
    (h : Reader q g w S read) : Reader q g w T fun s => (read s).bind fun r => (f r.1).map (·, r.2) where
  spaced hs := relBind (h.spaced hs) fun r r' hr => by
    obtain ⟨o, r⟩ := r
    obtain ⟨o', r'⟩ := r'
    rcases hr with ⟨rfl, hr⟩ | ⟨ho, rfl⟩
    · cases f o with
      | none => exact .none
      | some c => exact .some (Or.inl ⟨rfl, hr⟩)
    · exact relMap (hf o o' ho) fun c c' hc => Or.inr ⟨hc, rfl⟩
  length_le {s o r} hr := by
    obtain ⟨v, hv, hread⟩ := Option.bind_eq_some_iff.1 hr
    obtain ⟨c, -, hc⟩ := Option.map_eq_some_iff.1 hread
    obtain ⟨-, rfl⟩ := Prod.mk.inj hc
    exact h.length_le hv

theorem map {f : List Char → List Char} (hf : ∀ c c', S c c' → T (f c) (f c')) (h : Reader q g w S read) :
    Reader q g w T fun s => (read s).map fun r => (f r.1, r.2) where
  spaced hs := relMap (h.spaced hs) fun r r' hr =>
    hr.imp (fun hr => ⟨congrArg f hr.1, hr.2⟩) fun hr => ⟨hf _ _ hr.1, hr.2⟩
  length_le {s o r} hr := by
    obtain ⟨v, hv, heq⟩ := Option.map_eq_some_iff.1 hr
    obtain ⟨-, rfl⟩ := Prod.mk.inj heq
    exact h.length_le hv

theorem andThen {f : List Char → List Char → List Char} (hl : ∀ c c' d, S c c' → T (f c d) (f c' d))
    (hr : ∀ c d d', S' d d' → T (f c d) (f c d')) (h : Reader q g w S read) (h' : Reader q g w S' read') :
    Reader q g w T fun s => (read s).bind fun r => (read' r.2).map fun r' => (f r.1 r'.1, r'.2) where
  spaced hs := relBind (h.spaced hs) fun r r' hrest => by
    obtain ⟨c, r⟩ := r
    obtain ⟨c', r'⟩ := r'
    rcases hrest with ⟨rfl, hrest⟩ | ⟨hc, rfl⟩
    · exact relMap (h'.spaced hrest) fun d d' hd =>
        hd.imp (fun hd => ⟨congrArg (f c) hd.1, hd.2⟩) fun hd => ⟨hr _ _ _ hd.1, hd.2⟩
    · simp only
      cases read' r with
      | none => exact .none
      | some d => exact .some (Or.inr ⟨hl _ _ _ hc, rfl⟩)
  length_le {s o r} hs := by
    obtain ⟨v, hfirst, hread⟩ := Option.bind_eq_some_iff.1 hs
    obtain ⟨c, hc, heq⟩ := Option.map_eq_some_iff.1 hread
    obtain ⟨-, rfl⟩ := Prod.mk.inj heq
    exact Nat.le_trans (h'.length_le hc) (h.length_le hfirst)

theorem orElse (h : Reader q g w S read) (h' : Reader q g w S read') :
    Reader q g w S fun s => (read s).or (read' s) where
  spaced hs := relOr (h.spaced hs) (h'.spaced hs)
  length_le {s o r} hr := by
    rcases Option.or_eq_some_iff.1 hr with hr | ⟨-, hr⟩
    · exact h.length_le hr
    · exact h'.length_le hr

theorem length_le_enclosed {p : Char → Bool} {closing s o r : List Char} (h : Latex.enclosed p closing s = some (o, r)) :
    r.length ≤ s.length := by
  obtain ⟨v, hv, heq⟩ := Option.map_eq_some_iff.1 h
  obtain ⟨-, rfl⟩ := Prod.mk.inj heq
  have hlen := congrArg List.length (eq_append_of_after? hv)
  have hdrop := (List.dropWhile_suffix p (l := s)).length_le
  rw [List.length_append] at hlen
  omega

/-- A group that ends before the command is read alike. -/
theorem enclosed_of_stop {p : Char → Bool} {closing a b y : List Char} (hy : q → y ≠ [] ∧ BeginsQuietly y)
    (ha : ∀ d ∈ a, p d = true) (hb : ∀ z, ∃ c r, b ++ (command g ++ z) = c :: r ∧ p c = false)
    (hclosing : Clear closing (command g)) :
    Option.Rel (SpacedRead q g w S) (Latex.enclosed p closing (a ++ (b ++ (command g ++ y))))
      (Latex.enclosed p closing (a ++ (b ++ (command g ++ (w ++ y))))) := by
  have hread : ∀ z, Latex.enclosed p closing (a ++ (b ++ (command g ++ z))) =
      ((after? closing b).map (· ++ (command g ++ z))).map (a, ·) := fun z => by
    obtain ⟨c, r, hcr, hc⟩ := hb z
    rw [← hclosing.after?_append, hcr, Latex.enclosed, List.takeWhile_append_of_pos ha, List.dropWhile_append_of_pos ha,
      List.takeWhile_cons_of_neg (by simp [hc]), List.dropWhile_cons_of_neg (by simp [hc]), List.append_nil]
  rw [hread, hread]
  cases after? closing b with
  | none => exact .none
  | some r => exact .some (Or.inl ⟨rfl, r, y, hy, rfl, rfl⟩)

/-- A group is read over the command, or ends before it. -/
theorem enclosed {p : Char → Bool} {closing : List Char} (hg : ∀ c ∈ command g, p c = true)
    (hw : ∀ c ∈ w, p c = true) (hclosing : Clear closing (command g)) :
    Reader q g w (SpacedIn q g w) (enclosed p closing) where
  spaced {s t} hs := by
    obtain ⟨x, y, hy, rfl, rfl⟩ := hs
    rcases forall_or_exists_first p x with hx | ⟨a, c, b, rfl, ha, hc⟩
    · unfold Latex.enclosed
      rw [List.takeWhile_append_of_pos hx, List.takeWhile_append_of_pos hx, List.takeWhile_append_of_pos hg,
        List.takeWhile_append_of_pos hg, List.takeWhile_append_of_pos hw, List.dropWhile_append_of_pos hx,
        List.dropWhile_append_of_pos hx, List.dropWhile_append_of_pos hg, List.dropWhile_append_of_pos hg,
        List.dropWhile_append_of_pos hw]
      cases after? closing (y.dropWhile p) with
      | none => exact .none
      | some r =>
        exact .some (Or.inr ⟨⟨x, _, fun hq => (hy hq).2.of_start (List.takeWhile_prefix p), rfl, rfl⟩, rfl⟩)
    · rw [List.append_assoc, List.append_assoc]
      exact enclosed_of_stop hy ha (fun z => ⟨c, _, rfl, hc⟩) hclosing
  length_le := length_le_enclosed

/-- A group that cannot hold the command ends before it. -/
theorem enclosed_of_backslash {p : Char → Bool} {closing : List Char} (hslash : p '\\' = false)
    (hclosing : Clear closing (command g)) : Reader q g w S (Latex.enclosed p closing) where
  spaced {s t} hs := by
    obtain ⟨x, y, hy, rfl, rfl⟩ := hs
    rcases forall_or_exists_first p x with hx | ⟨a, c, b, rfl, ha, hc⟩
    · exact enclosed_of_stop (b := []) hy hx (fun z => ⟨'\\', _, rfl, hslash⟩) hclosing
    · rw [List.append_assoc, List.append_assoc]
      exact enclosed_of_stop hy ha (fun z => ⟨c, _, rfl, hc⟩) hclosing
  length_le := length_le_enclosed

end Reader

/-! ## Substitution keeps the blanks -/

/-- The rule takes two texts that differ in the blanks behind the command to such texts. -/
def Rule.KeepsSpaces (rule : Rule) (q : Prop) (g : String) (w : List Char) : Prop :=
  ∀ {s t}, Spaced q g w s t → Spaced q g w (substitute rule s) (substitute rule t)

/-- The text begins neither with a letter nor with a blank. -/
def beginsApart (p : List Char) : Bool := p.head?.any fun a => !isLetter a && !isBlank a

section
variable {q : Prop} {g : String} {w : List Char} {read : Rule}

/-- A rule that notices no blanks behind the command, and passes over both of them, keeps the two texts apart. -/
theorem Reader.keepsSpaces_of_turns (h : Reader q g w (Spaced q g w) read) (hcommand : read.Turns (command g) (command g))
    (hblanks : read.Turns w w) (hquiet : read.KeepsQuiet)
    (hlt : ∀ {s o r}, read s = some (o, r) → r.length < s.length) : read.KeepsSpaces q g w := by
  intro s t hs
  -- the induction is on the length of the first text
  induction hn : s.length using Nat.strongRecOn generalizing s t with
  | _ n ih =>
    obtain ⟨x, y, hy, rfl, rfl⟩ := hs
    cases x with
    | nil =>
      rw [List.nil_append, List.nil_append, hcommand y, hcommand, hblanks y]
      exact ⟨[], _, fun hq => hquiet y (hy hq), rfl, rfl⟩
    | cons c x =>
      have hread := h.spaced ⟨c :: x, y, hy, rfl, rfl⟩
      cases hs : read (c :: x ++ (command g ++ y)) with
      | none =>
        rw [hs] at hread
        cases ht : read (c :: x ++ (command g ++ (w ++ y))) with
        | some => rw [ht] at hread; cases hread
        | none =>
          rw [List.cons_append] at hs ht
          rw [List.cons_append, List.cons_append, substitute_cons_of_none hs, substitute_cons_of_none ht]
          exact (ih _ (by rw [← hn, List.cons_append, List.length_cons]; exact Nat.lt_succ_self _)
            ⟨x, y, hy, rfl, rfl⟩ rfl).cons c
      | some v =>
        rw [hs] at hread
        cases ht : read (c :: x ++ (command g ++ (w ++ y))) with
        | none => rw [ht] at hread; cases hread
        | some v' =>
          obtain ⟨o, r⟩ := v
          obtain ⟨o', r'⟩ := v'
          rw [ht] at hread
          rw [substitute_of_some hs (hlt hs), substitute_of_some ht (hlt ht)]
          rcases Option.rel_some_some.1 hread with ⟨rfl, hr⟩ | ⟨ho, rfl⟩
          · exact (ih _ (hn ▸ hlt hs) hr rfl).append_left o
          · exact ho.append_right _

variable {a : Char} {p : List Char}

theorem opened_turns (read : Rule) {l : List Char} (hl : ∀ c ∈ l, a ≠ c) : Rule.Turns (Latex.opened (a :: p) read) l l :=
  .of_forall_mem fun c hc => .of_none fun _ => congrArg (Option.bind · read) (if_neg (hl c hc))

theorem opened_turns_command (hg : g ∈ greekLetters) (ha : isLetter a = false) (hp : Clear (a :: p) (command g))
    (read : Rule) : Rule.Turns (Latex.opened (a :: p) read) (command g) (command g) := by
  refine .cons_of_none (fun z => ?_) (opened_turns read fun c hc => ?_)
  · have hhead := hp (a :: p) (by simp) (List.cons_ne_nil _ _)
    exact congrArg (Option.bind · read) (after?_eq_none_of_apart hhead.1 hhead.2 z)
  · rintro rfl
    rw [isLetter_of_mem_greekLetters g hg a hc] at ha
    cases ha

/-- **A rule that opens with a fixed text keeps the two texts apart by the same blanks.** -/
theorem Reader.keepsSpaces (hg : g ∈ greekLetters) (hw : ∀ c ∈ w, isBlank c = true) (hbegin : beginsApart p = true)
    (hp : Clear p (command g)) (hquiet : Rule.KeepsQuiet (Latex.opened p read)) (h : Reader q g w (Spaced q g w) read) :
    Rule.KeepsSpaces (Latex.opened p read) q g w := by
  obtain ⟨a, ha, hapart⟩ := (Option.any_eq_true _ _).1 hbegin
  obtain ⟨p, rfl⟩ := List.head?_eq_some_iff.1 ha
  obtain ⟨hletter, hblank⟩ : isLetter a = false ∧ isBlank a = false := by simpa using hapart
  have hblanks : ∀ c ∈ w, a ≠ c := by
    rintro _ hc rfl
    rw [hw a hc] at hblank
    cases hblank
  have hlt : ∀ {s o r}, Latex.opened (a :: p) read s = some (o, r) → r.length < s.length := fun {s o r} hr => by
    obtain ⟨v, hv, hread⟩ := Option.bind_eq_some_iff.1 hr
    have hlen := h.length_le hread
    rw [eq_append_of_after? hv, List.length_append, List.length_cons]
    omega
  intro s t hs
  exact (h.opened hp).keepsSpaces_of_turns (opened_turns_command hg hletter hp read) (opened_turns read hblanks) hquiet hlt hs

end

theorem substituteAll_spaced {q : Prop} {g : String} {w : List Char} {rules : List Rule}
    (hrules : ∀ rule ∈ rules, rule.KeepsSpaces q g w) {s t : List Char} (h : Spaced q g w s t) :
    Spaced q g w (substituteAll rules s) (substituteAll rules t) := by
  induction rules generalizing s t with
  | nil => exact h
  | cons rule rules ih =>
    exact ih (fun r hr => hrules r (List.mem_cons_of_mem rule hr)) (hrules rule List.mem_cons_self h)

end Heightfield.Latex
