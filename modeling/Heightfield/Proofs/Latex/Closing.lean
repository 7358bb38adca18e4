import Mathlib.Data.List.Chain
import Heightfield.Proofs.Latex.Opening
/-!
# Signs, parentheses and products of a term

After groups a term is plain but for `\left(`, `\right)` and `\cdot`.  The rules that replace these look at
what follows a lexeme; in a term that is the beginning of an operand, or the end of one, in turns
(`Lexeme.Follows`).  For the same reason the rules that write products find nothing: characters that would
multiply never stand side by side (`isChain_plain`).
-/
namespace Heightfield.Latex

open Lexeme (Placed Spelling)

/-! ## What follows a lexeme -/

namespace Lexeme

/-- What can follow where an operand is expected, and where one has ended. -/
def Follows : (expected : Bool) → List Char → Prop
  | true, s => (∃ c r, s = c :: r ∧ (isAlphanumeric c = true ∨ c = '(')) ∨ ∃ r, s = "\\left(".toList ++ r
  | false, s => ∀ c ∈ s.head?, c ∈ [' ', ')', '^', '\\']

/-- How lexemes are written after groups: only parentheses and signs can still be LaTeX. -/
structure Spelling.Late (sp : Spelling) : Prop where
  name : sp.name = Spelling.plain.name
  mark : sp.mark = Spelling.plain.mark
  opening : sp.opening = "\\left(".toList ∨ sp.opening = "(".toList
  closing : sp.closing = "\\right)".toList ∨ sp.closing = ")".toList
  sign : ∀ s, ∃ r, sp.sign s = ' ' :: r

theorem exists_name : ∀ f ∈ functionCommands, ∃ c r, f.2.toList = c :: r ∧ isAlphanumeric c = true := by
  intro f hf
  have hne : ∀ f ∈ functionCommands, f.2.toList ≠ [] := by decide
  obtain ⟨c, r, hname⟩ := List.exists_cons_of_ne_nil (hne f hf)
  exact ⟨c, r, hname, isAlphanumeric_of_mem_functionCommands f hf c (by rw [hname]; exact List.mem_cons_self)⟩

theorem Spelling.Late.follows_true {sp : Spelling} (hsp : sp.Late) {x : Lexeme} (hx : x.begins = true)
    (rest : List Char) : Follows true (x.text sp ++ rest) := by
  have hopening : ∀ r, Follows true (sp.opening ++ r) := fun r => by
    rcases hsp.opening with h | h <;> rw [h]
    · exact Or.inr ⟨r, rfl⟩
    · exact Or.inl ⟨'(', r, rfl, Or.inr rfl⟩
  cases x with
  | letter c => exact Or.inl ⟨c.1, rest, rfl, Or.inl (isAlphanumeric_of_isLetter c.2)⟩
  | number n =>
    obtain ⟨d, r, hdigits⟩ := List.exists_cons_of_ne_nil n.ne_nil
    have hd := n.isDigit_of_mem d (by rw [hdigits]; exact List.mem_cons_self)
    exact Or.inl ⟨d, r ++ rest, by rw [text, hdigits]; rfl, Or.inl (isAlphanumeric_of_isDigit hd)⟩
  | mark g =>
    rw [text, hsp.mark]
    cases g with
    | fractionOpening => exact Or.inl ⟨'(', _, rfl, Or.inr rfl⟩
    | rootOpening => exact Or.inl ⟨'s', _, rfl, Or.inl rfl⟩
    | nthOpening n => exact Or.inl ⟨'(', _, rfl, Or.inr rfl⟩
    | _ => cases hx
  | opening => exact hopening rest
  | closing => cases hx
  | call f =>
    obtain ⟨c, r, hname, hc⟩ := exists_name f.1 f.2
    refine Or.inl ⟨c, r ++ sp.opening ++ rest, ?_, Or.inl hc⟩
    rw [text, hsp.name]
    exact congrArg (· ++ sp.opening ++ rest) hname
  | sign s => cases hx

theorem Spelling.Late.follows_false {sp : Spelling} (hsp : sp.Late) {x : Lexeme} (hx : x.begins = false)
    (rest : List Char) : Follows false (x.text sp ++ rest) := by
  have hcons : ∀ {s : List Char} (c : Char), s.head? = some c → c ∈ [' ', ')', '^', '\\'] → Follows false s :=
    fun c hs hc d hd => by
      rw [hs] at hd
      obtain rfl := Option.some.inj hd
      exact hc
  cases x with
  | mark g =>
    rw [text, hsp.mark]
    cases g with
    | fractionBar | fractionClosing | rootClosing | nthClosing _ | exponentClosing => exact hcons ')' rfl (by decide)
    | exponentOpening => exact hcons '^' rfl (by decide)
    | _ => cases hx
  | closing =>
    rw [text]
    rcases hsp.closing with h | h <;> rw [h]
    · exact hcons '\\' rfl (by decide)
    · exact hcons ')' rfl (by decide)
  | sign s =>
    obtain ⟨r, hr⟩ := hsp.sign s
    rw [text, hr]
    exact hcons ' ' rfl (by decide)
  | _ => cases hx

theorem Spelling.Late.follows {sp : Spelling} (hsp : sp.Late) : ∀ {xs : List Lexeme} {expected : Bool},
    Placed expected xs → Follows expected (xs.flatMap (text sp))
  | [], _, h => by
    obtain rfl := h
    exact nofun
  | x :: xs, true, ⟨hx, _⟩ => by
    rw [List.flatMap_cons]
    exact hsp.follows_true hx _
  | x :: xs, false, ⟨hx, _⟩ => by
    rw [List.flatMap_cons]
    exact hsp.follows_false hx _

/-- **A rule that spells each lexeme anew before what can follow it spells the whole text anew.** -/
theorem Spelling.Late.substitute_eq {sp sp' : Spelling} (hsp : sp.Late) {rule : Rule}
    (hstep : ∀ x rest, Follows (!x.ends) rest →
      substitute rule (text sp x ++ rest) = text sp' x ++ substitute rule rest) :
    ∀ {xs : List Lexeme} {expected : Bool}, Placed expected xs →
      substitute rule (xs.flatMap (text sp)) = xs.flatMap (text sp')
  | [], _, _ => substitute_nil rule
  | x :: xs, _, ⟨_, hxs⟩ => by
    rw [List.flatMap_cons, List.flatMap_cons, hstep x _ (hsp.follows hxs), hsp.substitute_eq hstep hxs]

end Lexeme

open Lexeme (Follows)

/-! ## Signs -/

namespace Lexeme.Spelling

/-- Signs are written as in the dialect, too. -/
def dotted : Spelling := { unwound with sign := plain.sign }

theorem late_unwound : unwound.Late where
  name := rfl
  mark := rfl
  opening := Or.inl rfl
  closing := Or.inl rfl
  sign s := by cases s <;> exact ⟨_, rfl⟩

theorem late_dotted : dotted.Late where
  name := rfl
  mark := rfl
  opening := Or.inl rfl
  closing := Or.inl rfl
  sign s := by cases s <;> exact ⟨_, rfl⟩

end Lexeme.Spelling

theorem Lexeme.text_dotted {x : Lexeme} (hx : ∀ s, x ≠ .sign s) : x.text .dotted = x.text .unwound := by
  cases x with
  | sign s => exact absurd rfl (hx s)
  | _ => rfl

/-- Neither a blank nor a backslash. -/
def isSolid (c : Char) : Bool := !isBlank c && c ≠ '\\'

theorem isSolid_of_isAlphanumeric {c : Char} (h : isAlphanumeric c = true) : isSolid c = true := by
  rw [isSolid, isBlank_eq_false_of_isAlphanumeric h, decide_eq_true (by rintro rfl; cases h)]
  rfl

section
variable {word written : String}

theorem operatorCommand_of_isSolid {c : Char} (hc : isSolid c = true) (s : List Char) :
    operatorCommand word written (c :: s) = none := by
  rw [isSolid, Bool.and_eq_true, Bool.not_eq_true', decide_eq_true_eq] at hc
  rw [operatorCommand, trimLeft_cons hc.1]
  exact congrArg (Option.map _) (if_neg hc.2.symm)

theorem operatorCommand_turns_of_isSolid {l : List Char} (hl : ∀ c ∈ l, isSolid c = true) :
    (operatorCommand word written).Turns l l :=
  .of_forall_mem fun c hc => .of_none fun rest => operatorCommand_of_isSolid (hl c hc) rest

/-- The word begins neither `left(` nor `right)`. -/
def IsOperatorWord (word : String) : Prop :=
  ∀ rest, after? word.toList ("left(".toList ++ rest) = none ∧ after? word.toList ("right)".toList ++ rest) = none

theorem operatorCommand_turns_opening (hword : IsOperatorWord word) :
    (operatorCommand word written).Turns "\\left(".toList "\\left(".toList :=
  .cons_of_none (fun rest => congrArg (Option.map _) (hword rest).1) (operatorCommand_turns_of_isSolid (by decide))

theorem operatorCommand_turns_closing (hword : IsOperatorWord word) :
    (operatorCommand word written).Turns "\\right)".toList "\\right)".toList :=
  .cons_of_none (fun rest => congrArg (Option.map _) (hword rest).2) (operatorCommand_turns_of_isSolid (by decide))

theorem GroupMark.isSolid_of_mem_plain (g : GroupMark) : ∀ c ∈ g.plain, isSolid c = true := fun c hc =>
  (g.mem_plain c hc).elim isSolid_of_isAlphanumeric
    ((by decide : ∀ c ∈ ['(', ')', '^', '/'], isSolid c = true) c)

/-- A rule for an operator passes over every lexeme but signs. -/
theorem operatorCommand_turns_text (hword : IsOperatorWord word) {x : Lexeme} (hx : ∀ s, x ≠ .sign s) :
    (operatorCommand word written).Turns (x.text .unwound) (x.text .unwound) := by
  cases x with
  | letter c =>
    refine operatorCommand_turns_of_isSolid fun d hd => isSolid_of_isAlphanumeric ?_
    rw [List.mem_singleton.1 hd]
    exact isAlphanumeric_of_isLetter c.2
  | number n =>
    refine operatorCommand_turns_of_isSolid fun d hd => isSolid_of_isAlphanumeric ?_
    exact isAlphanumeric_of_isDigit (n.isDigit_of_mem d hd)
  | mark g => exact operatorCommand_turns_of_isSolid g.isSolid_of_mem_plain
  | opening => exact operatorCommand_turns_opening hword
  | closing => exact operatorCommand_turns_closing hword
  | call f =>
    refine .append (operatorCommand_turns_of_isSolid fun c hc => ?_) (operatorCommand_turns_opening hword)
    exact isSolid_of_isAlphanumeric (isAlphanumeric_of_mem_functionCommands f.1 f.2 c hc)
  | sign s => exact absurd rfl (hx s)

/-- No operator stands where an operand begins. -/
theorem operatorCommand_of_follows (hword : IsOperatorWord word) {s : List Char} (hs : Follows true s) :
    operatorCommand word written s = none := by
  rcases hs with ⟨c, r, rfl, hc | rfl⟩ | ⟨r, rfl⟩
  · exact operatorCommand_of_isSolid (isSolid_of_isAlphanumeric hc) r
  · exact operatorCommand_of_isSolid rfl r
  · exact congrArg (Option.map _) (hword r).1

theorem trimLeft_of_follows {s : List Char} (hs : Follows true s) : trimLeft s = s := by
  rcases hs with ⟨c, r, rfl, hc | rfl⟩ | ⟨r, rfl⟩
  · exact trimLeft_cons (isBlank_eq_false_of_isAlphanumeric hc) r
  · rfl
  · rfl

/-- A sign that is no command is passed over before an operand. -/
theorem substitute_operatorCommand_plain (hword : IsOperatorWord word) (s : Sign) {rest : List Char}
    (hrest : Follows true rest) : substitute (operatorCommand word written) (s.plain ++ rest) =
      s.plain ++ substitute (operatorCommand word written) rest := by
  have hsign : ∀ c, isSolid c = true → substitute (operatorCommand word written) (' ' :: c :: ' ' :: rest) =
      ' ' :: c :: ' ' :: substitute (operatorCommand word written) rest := fun c hc => by
    have hblank : ∀ r, operatorCommand word written (' ' :: r) = operatorCommand word written r := fun _ => rfl
    rw [substitute_cons_of_none ((hblank _).trans (operatorCommand_of_isSolid hc _)),
      substitute_cons_of_none (operatorCommand_of_isSolid hc _),
      substitute_cons_of_none ((hblank _).trans (operatorCommand_of_follows hword hrest))]
  cases s
  · exact hsign '+' rfl
  · exact hsign '-' rfl
  · exact hsign '*' rfl

end

theorem substitute_cdot (t : Term) : substitute (operatorCommand "cdot" " * ") (t.text .unwound) = t.text .dotted := by
  have hword : IsOperatorWord "cdot" := fun _ => ⟨rfl, rfl⟩
  refine Spelling.late_unwound.substitute_eq (fun x rest hrest => ?_) t.placed_lexemes
  by_cases hx : ∃ s, x = .sign s
  · obtain ⟨s, rfl⟩ := hx
    cases s with
    | plus => exact substitute_operatorCommand_plain hword .plus hrest
    | minus => exact substitute_operatorCommand_plain hword .minus hrest
    | dot =>
      have hfires : operatorCommand "cdot" " * " (" \\cdot ".toList ++ rest) = some (" * ".toList, trimLeft rest) := rfl
      rw [trimLeft_of_follows hrest] at hfires
      exact substitute_of_some hfires (by rw [List.length_append]; exact Nat.lt_add_of_pos_left (by decide))
  · rw [Lexeme.text_dotted (not_exists.1 hx)]
    exact operatorCommand_turns_text hword (not_exists.1 hx) rest

theorem substitute_operatorCommand_dotted {word : String} (hword : IsOperatorWord word) (written : String) (t : Term) :
    substitute (operatorCommand word written) (t.text .dotted) = t.text .dotted := by
  refine Spelling.late_dotted.substitute_eq (fun x rest hrest => ?_) t.placed_lexemes
  by_cases hx : ∃ s, x = .sign s
  · obtain ⟨s, rfl⟩ := hx
    exact substitute_operatorCommand_plain hword s hrest
  · rw [Lexeme.text_dotted (not_exists.1 hx)]
    exact operatorCommand_turns_text hword (not_exists.1 hx) rest

/-! ## Parentheses -/

/-- Only closing parentheses are written in LaTeX. -/
def Lexeme.Spelling.halfClosed : Spelling := { plain with closing := "\\right)".toList }

theorem literal_readsBackslash (read written : String) {l : List Char} (hread : read.toList = '\\' :: l) :
    Rule.ReadsBackslash (literal read written) := fun c s hc => by
  rw [literal, hread]
  exact congrArg (Option.map _) (if_neg (Ne.symm hc))

theorem Sign.backslash_not_mem_plain (s : Sign) : '\\' ∉ s.plain := by cases s <;> decide

theorem name_backslash_not_mem (f : Command) : '\\' ∉ f.1.2.toList :=
  backslash_not_mem (isAlphanumeric_of_mem_functionCommands f.1 f.2)

theorem substitute_opening (t : Term) : substitute (literal "\\left(" "(") (t.text .dotted) = t.text .halfClosed := by
  have h := literal_readsBackslash "\\left(" "(" rfl
  have hopening : Rule.Turns (literal "\\left(" "(") "\\left(".toList "(".toList :=
    .of_some (List.cons_ne_nil _ _) fun _ => rfl
  refine (Rule.Turns.flatMap fun x _ => ?_).substitute_eq
  cases x with
  | letter c => exact h.turns_of_not_mem c.backslash_not_mem
  | number n => exact h.turns_of_not_mem n.backslash_not_mem
  | mark g => exact h.turns_of_not_mem g.backslash_not_mem_plain
  | opening => exact hopening
  | closing =>
    exact .cons_of_none (l := "right)".toList) (fun _ => rfl) (h.turns_of_not_mem (by decide))
  | call f => exact (h.turns_of_not_mem (name_backslash_not_mem f)).append hopening
  | sign s => exact h.turns_of_not_mem s.backslash_not_mem_plain

/-- **After the parentheses the term is plain.** -/
theorem substitute_closing (t : Term) : substitute (literal "\\right)" ")") (t.text .halfClosed) = t.text .plain := by
  have h := literal_readsBackslash "\\right)" ")" rfl
  refine (Rule.Turns.flatMap fun x _ => ?_).substitute_eq
  cases x with
  | letter c => exact h.turns_of_not_mem c.backslash_not_mem
  | number n => exact h.turns_of_not_mem n.backslash_not_mem
  | mark g => exact h.turns_of_not_mem g.backslash_not_mem_plain
  | opening => exact h.turns_of_not_mem (l := "(".toList) (by decide)
  | closing => exact .of_some (List.cons_ne_nil _ _) fun _ => rfl
  | call f =>
    exact (h.turns_of_not_mem (name_backslash_not_mem f)).append (h.turns_of_not_mem (l := "(".toList) (by decide))
  | sign s => exact h.turns_of_not_mem s.backslash_not_mem_plain

/-! ## Words that do not occur -/

theorem letterCommand_turns_text {word : String} (name : String) (hletters : ∀ c ∈ word.toList, isLetter c = true)
    (hw : word.toList ∉ structureWords) (x : Lexeme) :
    (letterCommand word name).Turns (x.text .unwound) (x.text .unwound) := by
  have h := letterCommand_readsWord hletters name
  cases x with
  | letter c => exact h.turns_of_not_mem c.backslash_not_mem
  | number n => exact h.turns_of_not_mem n.backslash_not_mem
  | mark g => exact h.turns_of_not_mem g.backslash_not_mem_plain
  | opening => exact h.turns_opening hw
  | closing => exact h.turns_closing hw
  | call f => exact (h.turns_of_not_mem (name_backslash_not_mem f)).append (h.turns_opening hw)
  | sign s => exact h.turns_sign hw s

theorem backslash_not_mem_plain (t : Term) : '\\' ∉ t.text .plain := fun hmem => by
  obtain ⟨x, -, hx⟩ := List.mem_flatMap.1 hmem
  cases x with
  | letter c => exact c.backslash_not_mem hx
  | number n => exact n.backslash_not_mem hx
  | mark g => exact g.backslash_not_mem_plain hx
  | opening => exact (by decide : '\\' ∉ "(".toList) hx
  | closing => exact (by decide : '\\' ∉ ")".toList) hx
  | call f => exact List.not_mem_append (name_backslash_not_mem f) (by decide : '\\' ∉ "(".toList) hx
  | sign s => exact s.backslash_not_mem_plain hx

theorem Rule.ReadsBackslash.substitute_plain {rule : Rule} (h : rule.ReadsBackslash) (t : Term) :
    substitute rule (t.text .plain) = t.text .plain :=
  (h.turns_of_not_mem (backslash_not_mem_plain t)).substitute_eq

/-! ## Products -/

/-- No rule for products reads the two characters side by side. -/
def Apart (c d : Char) : Bool :=
  !((isDecimalDigit c && isLetter d) || (c = ')' && (isLetter d || isDecimalDigit d || d = '(')))

/-- A rule for two neighbours changes nothing where it finds none. -/
theorem substitute_eq_self_of_isChain {rule : Rule} (hsingle : ∀ c, rule [c] = none)
    (hpair : ∀ c d s, Apart c d = true → rule (c :: d :: s) = none) : ∀ {s : List Char},
    s.IsChain (Apart · · = true) → substitute rule s = s
  | [], _ => substitute_nil rule
  | [c], _ => by rw [substitute_cons_of_none (hsingle c), substitute_nil]
  | c :: d :: s, h => by
    rw [List.isChain_cons_cons] at h
    rw [substitute_cons_of_none (hpair c d s h.1), substitute_eq_self_of_isChain hsingle hpair h.2]

theorem apart_of_left {c : Char} (hc : c ∈ [' ', '(']) (d : Char) : Apart c d = true := by
  have hdigit : ∀ c ∈ [' ', '('], isDecimalDigit c = false ∧ c ≠ ')' := by decide
  rw [Apart, (hdigit c hc).1, decide_eq_false (hdigit c hc).2]
  rfl

theorem apart_of_right {d : Char} (hd : d ∈ [' ', ')', '^', '\\']) (c : Char) : Apart c d = true := by
  have hother : ∀ d ∈ [' ', ')', '^', '\\'], isLetter d = false ∧ isDecimalDigit d = false ∧ d ≠ '(' := by decide
  rw [Apart, (hother d hd).1, (hother d hd).2.1, decide_eq_false (hother d hd).2.2]
  simp

theorem apart_of_isDigit {c d : Char} (hc : isDigit c = true) (hd : isDigit d = true) : Apart c d = true := by
  rw [Apart, isLetter_eq_false_of_isDigit hd, decide_eq_false (by rintro rfl; cases hc)]
  simp

theorem Numeral.isChain_apart (n : Numeral) : n.digits.IsChain (Apart · · = true) :=
  (List.pairwise_of_forall_mem_list fun _ hc _ hd =>
    apart_of_isDigit (n.isDigit_of_mem _ hc) (n.isDigit_of_mem _ hd)).isChain

theorem isChain_append {l r : List Char} (hl : l.IsChain (Apart · · = true)) (hr : r.IsChain (Apart · · = true))
    (h : (∀ c ∈ l.getLast?, c ∈ [' ', '(']) ∨ ∀ d ∈ r.head?, d ∈ [' ', ')', '^', '\\']) :
    (l ++ r).IsChain (Apart · · = true) :=
  List.isChain_append.2 ⟨hl, hr, fun c hc d hd =>
    h.elim (fun h => apart_of_left (h c hc) d) fun h => apart_of_right (h d hd) c⟩

theorem GroupMark.isChain_apart (g : GroupMark) : g.plain.IsChain (Apart · · = true) := by
  cases g with
  | nthClosing n =>
    have hend : (n.digits ++ ")))".toList).IsChain (Apart · · = true) :=
      isChain_append n.isChain_apart (by decide) (Or.inr (by decide))
    exact isChain_append (by decide) hend (Or.inl (by decide))
  | nthOpening n => exact (by decide : "((".toList.IsChain (Apart · · = true))
  | _ => decide

theorem isChain_call : ∀ f ∈ functionCommands, (f.2.toList ++ "(".toList).IsChain (Apart · · = true) := by decide

theorem Lexeme.isChain_apart (x : Lexeme) : (x.text .plain).IsChain (Apart · · = true) := by
  cases x with
  | letter c => exact .singleton _
  | number n => exact n.isChain_apart
  | mark g => exact g.isChain_apart
  | opening => exact .singleton _
  | closing => exact .singleton _
  | call f => exact isChain_call f.1 f.2
  | sign s =>
    have h : ∀ s : Sign, s.plain.IsChain (Apart · · = true) := by rintro (_ | _ | _) <;> decide
    exact h s

theorem Lexeme.getLast?_of_not_ends {x : Lexeme} (hx : x.ends = false) : ∀ c ∈ (x.text .plain).getLast?, c ∈ [' ', '('] := by
  cases x with
  | mark g =>
    cases g with
    | fractionOpening | fractionBar | rootOpening | nthOpening _ | exponentOpening =>
      intro c hc
      obtain rfl := Option.some.inj hc
      decide
    | _ => cases hx
  | opening =>
    intro c hc
    obtain rfl := Option.some.inj hc
    decide
  | call f =>
    intro c hc
    rw [text, show Spelling.plain.opening = ['('] from rfl, List.getLast?_concat] at hc
    obtain rfl := Option.some.inj hc
    decide
  | sign s =>
    intro c hc
    cases s <;>
    · obtain rfl := Option.some.inj hc
      decide
  | _ => cases hx

namespace Lexeme.Spelling

theorem late_plain : plain.Late where
  name := rfl
  mark := rfl
  opening := Or.inr rfl
  closing := Or.inr rfl
  sign s := by cases s <;> exact ⟨_, rfl⟩

end Lexeme.Spelling

/-- **In a plain term no neighbours multiply.** -/
theorem isChain_plain : ∀ {xs : List Lexeme} {expected : Bool}, Placed expected xs →
    (xs.flatMap (Lexeme.text .plain)).IsChain (Apart · · = true)
  | [], _, _ => .nil
  | x :: xs, _, ⟨_, hxs⟩ => by
    rw [List.flatMap_cons]
    refine isChain_append x.isChain_apart (isChain_plain hxs) ?_
    cases hx : x.ends with
    | false => exact Or.inl (Lexeme.getLast?_of_not_ends hx)
    | true =>
      rw [hx] at hxs
      exact Or.inr (Spelling.late_plain.follows hxs)

/-! ## Runs before parentheses -/

theorem runOpening_eq_none (run : List Char) {rest : List Char} (hrun : ∀ c ∈ run, isRunCharacter c = true)
    (hrest : ∀ c ∈ rest.head?, isRunCharacter c = false ∧ c ≠ '(') : runOpening (run ++ rest) = none := by
  have hspan : (run ++ rest).span isRunCharacter = (run, rest) := by
    cases rest with
    | nil =>
      rw [List.span_eq_takeWhile_dropWhile, List.takeWhile_append_of_pos hrun, List.dropWhile_append_of_pos hrun,
        List.takeWhile_nil, List.dropWhile_nil, List.append_nil]
    | cons c rest => exact span_eq_of_all (hrest c rfl).1 rest hrun
  unfold runOpening
  rw [hspan]
  split
  · rfl
  · rename_i heq
    exact absurd rfl (hrest '(' (by rw [(Prod.mk.inj heq).2]; rfl)).2
  · rfl

/-- A run that stands before something else than a parenthesis is passed over. -/
theorem substitute_runOpening {rest : List Char} (hrest : ∀ c ∈ rest.head?, isRunCharacter c = false ∧ c ≠ '(') :
    ∀ {run : List Char}, (∀ c ∈ run, isRunCharacter c = true) →
      substitute runOpening (run ++ rest) = run ++ substitute runOpening rest
  | [], _ => rfl
  | c :: run, hrun => by
    have hnone : runOpening (c :: (run ++ rest)) = none := runOpening_eq_none (c :: run) hrun hrest
    rw [List.cons_append, substitute_cons_of_none hnone,
      substitute_runOpening hrest fun d hd => hrun d (List.mem_cons_of_mem c hd), List.cons_append]

theorem runOpening_turns {c : Char} (hc : isRunCharacter c = false) : runOpening.Turns [c] [c] :=
  .of_none fun rest => by
    have hspan : (c :: rest).span isRunCharacter = ([], c :: rest) := span_eq_of_all (a := []) hc rest nofun
    unfold runOpening
    rw [hspan]

theorem substitute_runOpening_run {run : List Char} (hrun : ∀ c ∈ run, isRunCharacter c = true) :
    substitute runOpening run = run := by
  have h : substitute runOpening (run ++ []) = run ++ substitute runOpening [] :=
    substitute_runOpening (fun c hc => by cases hc) hrun
  rwa [List.append_nil, substitute_nil, List.append_nil] at h

/-- A run multiplies the parenthesis behind it, unless it ends in the name of a function. -/
theorem substitute_runOpening_append {run : List Char} (hrun : ∀ c ∈ run, isRunCharacter c = true) (rest : List Char) :
    substitute runOpening (run ++ '(' :: rest) =
      run ++ (if run = [] ∨ endsInFunction run = true then ['('] else ['*', '(']) ++ substitute runOpening rest := by
  cases run with
  | nil => exact runOpening_turns rfl rest
  | cons c run =>
    have hfires : runOpening (c :: run ++ '(' :: rest) =
        some (c :: run ++ (if endsInFunction (c :: run) then ['('] else ['*', '(']), rest) := by
      unfold runOpening
      rw [span_eq_of_all (by rfl) rest hrun]
      rfl
    rw [substitute_of_some hfires (by simp only [List.length_append, List.length_cons]; omega)]
    cases endsInFunction (c :: run) <;> simp

/-- The name of a function stays as it is before its parenthesis. -/
theorem runOpening_turns_function (name : List Char) (hname : ∀ c ∈ name, isRunCharacter c = true)
    (hfun : endsInFunction name = true) : runOpening.Turns (name ++ ['(']) (name ++ ['(']) := fun rest => by
  rw [List.append_assoc, List.singleton_append, substitute_runOpening_append hname, if_pos (Or.inr hfun)]

theorem isRunCharacter_of_isAlphanumeric {c : Char} (h : isAlphanumeric c = true) : isRunCharacter c = true := by
  rw [isRunCharacter, h, Bool.true_or]

theorem endsInFunction_of_mem : ∀ f ∈ functionCommands, endsInFunction f.2.toList = true := by decide

theorem substitute_runOpening_plain (t : Term) : substitute runOpening (t.text .plain) = t.text .plain := by
  refine Spelling.late_plain.substitute_eq (fun x rest hrest => ?_) t.placed_lexemes
  have hchars : ∀ {l : List Char}, (∀ c ∈ l, isRunCharacter c = false) → runOpening.Turns l l := fun h =>
    .of_forall_mem fun c hc => runOpening_turns (h c hc)
  have hfollows : x.ends = true → ∀ c ∈ rest.head?, isRunCharacter c = false ∧ c ≠ '(' := fun hx c hc => by
    rw [hx] at hrest
    exact (by decide : ∀ c ∈ [' ', ')', '^', '\\'], isRunCharacter c = false ∧ c ≠ '(') c (hrest c hc)
  cases x with
  | letter c =>
    refine substitute_runOpening (hfollows rfl) fun d hd => isRunCharacter_of_isAlphanumeric ?_
    rw [List.mem_singleton.1 hd]
    exact isAlphanumeric_of_isLetter c.2
  | number n =>
    refine substitute_runOpening (hfollows rfl) fun d hd => isRunCharacter_of_isAlphanumeric ?_
    exact isAlphanumeric_of_isDigit (n.isDigit_of_mem d hd)
  | mark g =>
    cases g with
    | fractionOpening => exact hchars (l := "((".toList) (by decide) rest
    | fractionBar => exact hchars (l := ")/(".toList) (by decide) rest
    | fractionClosing => exact hchars (l := "))".toList) (by decide) rest
    | rootOpening => exact runOpening_turns_function "sqrt".toList (by decide) (by decide) rest
    | rootClosing => exact hchars (l := ")".toList) (by decide) rest
    | nthOpening n => exact hchars (l := "((".toList) (by decide) rest
    | nthClosing n =>
      have hdigits : runOpening.Turns (n.digits ++ ")))".toList) (n.digits ++ ")))".toList) := fun rest => by
        have hrun : ∀ c ∈ n.digits, isRunCharacter c = true := fun c hc =>
          isRunCharacter_of_isAlphanumeric (isAlphanumeric_of_isDigit (n.isDigit_of_mem c hc))
        have hclosing := hchars (l := ")))".toList) (by decide) rest
        rw [List.append_assoc, substitute_runOpening (fun c hc => ?_) hrun, hclosing, List.append_assoc]
        obtain rfl := Option.some.inj hc
        decide
      have hone : runOpening.Turns ['1', '/'] ['1', '/'] :=
        .cons_of_none (l := ['/']) (fun _ => rfl) (hchars (by decide))
      exact ((hchars (l := ")^(".toList) (by decide)).append (hone.append
        ((hchars (l := ['(']) (by decide)).append hdigits))) rest
    | exponentOpening => exact hchars (l := "^(".toList) (by decide) rest
    | exponentClosing => exact hchars (l := ")".toList) (by decide) rest
  | opening => exact hchars (l := "(".toList) (by decide) rest
  | closing => exact hchars (l := ")".toList) (by decide) rest
  | call f =>
    exact runOpening_turns_function _ (fun c hc =>
      isRunCharacter_of_isAlphanumeric (isAlphanumeric_of_mem_functionCommands f.1 f.2 c hc))
      (endsInFunction_of_mem f.1 f.2) rest
  | sign s => cases s <;> exact hchars (by decide) rest

end Heightfield.Latex
