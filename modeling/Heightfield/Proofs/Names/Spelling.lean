import Mathlib.Data.List.TakeWhile
import Heightfield.Formula.Names
import Heightfield.Proofs.Juxtaposition.Repeat
/-!
# The names that a text spells

Once its products are written out, a text spells names and nothing else with its letters: the functions of the
vocabulary before their parenthesis, constants, and letters that stand alone (`Spelled`).  So its variables can
be told from the text itself: they are its lone letters, but for the constants of one letter
(`variableLetters`).
-/
namespace Heightfield.Formula

open Juxtaposition

/-! ## Lone letters -/

/-- The letters of a text with no letter or digit beside them; `inside` says that one stands before the text. -/
def loneLetters (inside : Bool) : List Char → List Char
  | [] => []
  | c :: s =>
    if isLetter c && !inside && endsName s then c :: loneLetters (isAlphanumeric c) s
    else loneLetters (isAlphanumeric c) s

/-- The constants of one letter. -/
def constantLetters : List Char := ['e', 'i', 'E']

/-- The lone letters of a text that are no constants. -/
def variableLetters (s : List Char) : List Char := (loneLetters false s).filter (!constantLetters.contains ·)

theorem endsName_append_singleton (l : List Char) (d : Char) :
    endsName (l ++ [d]) = if l = [] then !isAlphanumeric d else endsName l := by
  cases l <;> rfl

theorem mem_loneLetters {c : Char} : ∀ {s : List Char} {inside : Bool}, c ∈ loneLetters inside s ↔
    isLetter c = true ∧ ∃ l r, s = l ++ c :: r ∧ (l = [] → inside = false) ∧ endsName l.reverse = true ∧
      endsName r = true
  | [], inside => by simp [loneLetters]
  | d :: s, inside => by
    have ih : c ∈ loneLetters (isAlphanumeric d) s ↔ isLetter c = true ∧ ∃ l r, d :: s = d :: l ++ c :: r ∧
        endsName (d :: l).reverse = true ∧ endsName r = true := by
      rw [mem_loneLetters]
      simp only [List.reverse_cons, endsName_append_singleton, List.reverse_eq_nil_iff, List.cons_append,
        List.cons.injEq, true_and]
      refine and_congr_right fun _ => exists_congr fun l => exists_congr fun r => and_congr_right fun _ => ?_
      cases l with
      | nil => simp [endsName]
      | cons e l => simp
    have hhead : (isLetter d && !inside && endsName s) = true ↔
        isLetter d = true ∧ inside = false ∧ endsName s = true := by
      rw [Bool.and_eq_true, Bool.and_eq_true, Bool.not_eq_true', and_assoc]
    have hsplit : c ∈ loneLetters inside (d :: s) ↔
        (c = d ∧ isLetter d = true ∧ inside = false ∧ endsName s = true) ∨ c ∈ loneLetters (isAlphanumeric d) s := by
      rw [← hhead, loneLetters]
      split
      · rename_i h
        rw [List.mem_cons]
        exact or_congr_left ⟨fun heq => ⟨heq, h⟩, And.left⟩
      · rename_i h
        exact ⟨Or.inr, fun hor => hor.resolve_left fun heq => h heq.2⟩
    rw [hsplit, ih]
    constructor
    · rintro (⟨rfl, hc, hin, hs⟩ | ⟨hc, l, r, hs, hl, hr⟩)
      · exact ⟨hc, [], s, rfl, fun _ => hin, rfl, hs⟩
      · exact ⟨hc, d :: l, r, hs, by simp, hl, hr⟩
    · rintro ⟨hc, l, r, hs, hin, hl, hr⟩
      cases l with
      | nil =>
        obtain ⟨rfl, rfl⟩ := List.cons.inj hs
        exact Or.inl ⟨rfl, hc, hin rfl, hr⟩
      | cons e l =>
        obtain ⟨rfl, -⟩ := List.cons.inj hs
        exact Or.inr ⟨hc, l, r, hs, hl, hr⟩

/-- **The variable letters of a text** are its letters, other than `e`, `i` and `E`, that have no letter or digit
beside them. -/
theorem mem_variableLetters {c : Char} {s : List Char} : c ∈ variableLetters s ↔
    isLetter c = true ∧ c ∉ constantLetters ∧
      ∃ l r, s = l ++ c :: r ∧ endsName l.reverse = true ∧ endsName r = true := by
  have hcontains : (!constantLetters.contains c) = true ↔ c ∉ constantLetters := by simp
  rw [variableLetters, List.mem_filter, mem_loneLetters, hcontains]
  simp only [implies_true, true_and]
  rw [and_assoc, and_comm (a := c ∉ constantLetters)]

section
variable {s : List Char}

/-- It makes no difference what stands before a text that begins with no letter. -/
theorem loneLetters_of_head {inside : Bool} (h : ∀ c ∈ s.head?, isLetter c = false) :
    loneLetters inside s = loneLetters false s := by
  cases s with
  | nil => rfl
  | cons c s => rw [loneLetters, loneLetters, h c rfl]; rfl

theorem isLetter_of_endsName (h : endsName s = true) : ∀ c ∈ s.head?, isLetter c = false := by
  cases s with
  | nil => exact nofun
  | cons c s =>
    rw [endsName, Bool.not_eq_true', isAlphanumeric, Bool.or_eq_false_iff] at h
    intro d hd
    obtain rfl := Option.some.inj hd
    exact h.1

/-- What is no letter, and no digit before a letter, adds no variable. -/
theorem variableLetters_cons {c : Char} (hc : isLetter c = false)
    (hdigit : isDigit c = true → ∀ d ∈ s.head?, isLetter d = false) : variableLetters (c :: s) = variableLetters s := by
  rw [variableLetters, loneLetters, hc, if_neg (by simp), variableLetters]
  cases hd : isDigit c with
  | true => rw [isAlphanumeric, hc, hd, Bool.or_true, loneLetters_of_head (hdigit hd)]
  | false => rw [isAlphanumeric, hc, hd, Bool.or_false]

/-- No letter of a longer name stands alone. -/
theorem loneLetters_append (hs : endsName s = true) : ∀ {w : List Char}, (∀ c ∈ w, isAlphanumeric c = true) →
    loneLetters true (w ++ s) = loneLetters false s
  | [], _ => loneLetters_of_head (isLetter_of_endsName hs)
  | c :: w, hw => by
    rw [List.cons_append, loneLetters, if_neg (by simp), hw c List.mem_cons_self,
      loneLetters_append hs fun d hd => hw d (List.mem_cons_of_mem c hd)]

theorem variableLetters_append {w : List Char} (hw : ∀ c ∈ w, isAlphanumeric c = true) (hlength : 2 ≤ w.length)
    (hs : endsName s = true) : variableLetters (w ++ s) = variableLetters s := by
  match w, hlength with
  | c :: d :: w, _ =>
    have hd : isAlphanumeric d = true := hw d (List.mem_cons_of_mem c List.mem_cons_self)
    have hglued : endsName (d :: w ++ s) = false := by rw [List.cons_append, endsName, hd]; rfl
    rw [variableLetters, List.cons_append, loneLetters, hglued, if_neg (by simp), hw c List.mem_cons_self,
      loneLetters_append hs fun e he => hw e (List.mem_cons_of_mem c he), variableLetters]

theorem variableLetters_letter {c : Char} (hc : isLetter c = true) (hs : endsName s = true) :
    variableLetters (c :: s) = if constantLetters.contains c then variableLetters s else c :: variableLetters s := by
  have hrest : loneLetters (isAlphanumeric c) s = loneLetters false s := loneLetters_of_head (isLetter_of_endsName hs)
  rw [variableLetters, loneLetters, hc, hs, if_pos (by decide), hrest, List.filter_cons, variableLetters]
  cases constantLetters.contains c <;> rfl

end

/-! ## Words -/

/-- A name that stands for a number: a constant, or a letter alone. -/
def isWord (w : String) : Bool :=
  constantNames.contains w || match w.toList with
    | [c] => isLetter c
    | _ => false

theorem isWord_constant {k : String} (hk : k ∈ constantNames) : isWord k = true := by
  rw [isWord, List.contains_iff_mem.2 hk, Bool.true_or]

theorem isWord_singleton {c : Char} (hc : isLetter c = true) : isWord (String.singleton c) = true := by
  rw [isWord, String.toList_singleton]
  exact Bool.or_eq_true_iff.2 (Or.inr hc)

theorem isWord_iff {w : String} : isWord w = true ↔
    w ∈ constantNames ∨ ∃ c, w = String.singleton c ∧ isLetter c = true := by
  constructor
  · intro h
    rw [isWord, Bool.or_eq_true, List.contains_iff_mem] at h
    refine h.imp_right fun h => ?_
    split at h
    · rename_i c hc
      exact ⟨c, String.toList_inj.1 (by rw [hc, String.toList_singleton]), h⟩
    · cases h
  · rintro (h | ⟨c, rfl, hc⟩)
    · exact isWord_constant h
    · exact isWord_singleton hc

theorem isLetter_of_isWord {w : String} (h : isWord w = true) :
    w.toList ≠ [] ∧ ∀ c ∈ w.toList, isLetter c = true := by
  rcases isWord_iff.1 h with hk | ⟨c, rfl, hc⟩
  · exact ⟨List.length_pos_iff.1 (length_pos_of_mem_constantNames w hk), isLetter_of_mem_constantNames hk⟩
  · rw [String.toList_singleton]
    exact ⟨List.cons_ne_nil c [], fun d hd => by rwa [List.mem_singleton.1 hd]⟩

theorem isKeyword_singleton (c : Char) : isKeyword (String.singleton c) = false := by
  have hall : ∀ k ∈ keywords, k.toList.length ≠ 1 := by decide
  rw [isKeyword, ← Bool.not_eq_true, List.contains_iff_mem]
  exact fun hmem => hall _ hmem (by rw [String.toList_singleton]; rfl)

theorem callee?_singleton (c : Char) : callee? (String.singleton c) = none := by
  have hall : ∀ x ∈ callees, x.1.toList.length ≠ 1 := by decide
  have hnone : callees.find? (·.1 = String.singleton c) = none := List.find?_eq_none.2 fun x hx heq =>
    hall x hx (by rw [of_decide_eq_true heq, String.toList_singleton]; rfl)
  rw [callee?, hnone]
  rfl

/-- A letter has no fixed meaning, but for the constants. -/
theorem isReserved_singleton {c : Char} : isReserved (String.singleton c) = constantLetters.contains c := by
  have hlength : (String.singleton c).toList.length = 1 := by rw [String.toList_singleton]; rfl
  have hconstant : (constant? (String.singleton c)).isSome = constantLetters.contains c := by
    have hall : ∀ x ∈ constants, x.1.toList.length = 1 → ∃ d ∈ constantLetters, x.1.toList = [d] := by decide
    have hletters : ∀ d ∈ constantLetters, ∃ x ∈ constants, x.1.toList = [d] := by decide
    rw [Bool.eq_iff_iff, constant?, Option.isSome_map, List.find?_isSome, List.contains_iff_mem]
    constructor
    · rintro ⟨x, hx, heq⟩
      have hx1 := of_decide_eq_true heq
      obtain ⟨d, hd, hxd⟩ := hall x hx (by rw [hx1, hlength])
      rw [hx1, String.toList_singleton] at hxd
      rwa [(List.cons.inj hxd).1]
    · intro hc
      obtain ⟨x, hx, hxc⟩ := hletters c hc
      exact ⟨x, hx, decide_eq_true (String.toList_inj.1 (by rw [hxc, String.toList_singleton]))⟩
  rw [isReserved, isKeyword_singleton, callee?_singleton, hconstant]
  rfl

/-! ## Spelled texts -/

/-- The letters of the text spell names: functions before their parenthesis, and words that are not called.  No
letter stands right behind a digit. -/
inductive Spelled : List Char → Prop where
  | nil : Spelled []
  | call {f : String} {s : List Char} (hf : f ∈ functionNames) (hs : Spelled s) : Spelled (f.toList ++ '(' :: s)
  | word {w : String} {s : List Char} (hw : isWord w = true) (hends : endsName s = true)
    (hopening : (trimLeft s).head? ≠ some '(') (hs : Spelled s) : Spelled (w.toList ++ s)
  | other {c : Char} {s : List Char} (hc : isLetter c = false)
    (hdigit : isDigit c = true → ∀ d ∈ s.head?, isLetter d = false) (hs : Spelled s) : Spelled (c :: s)

namespace Spelled

variable {c : Char} {s : List Char}

theorem of_cons (h : Spelled (c :: s)) (hc : isLetter c = false) :
    Spelled s ∧ (isDigit c = true → ∀ d ∈ s.head?, isLetter d = false) := by
  have hletter : ∀ {d : Char} {t r : List Char}, isLetter d = true → d :: t ++ r ≠ c :: s := fun hd heq => by
    rw [(List.cons.inj heq).1, hc] at hd
    cases hd
  generalize htext : c :: s = t at h
  cases h with
  | nil => cases htext
  | call hf hs =>
    obtain ⟨d, t, hd, hl⟩ := head_of_mem_functionNames hf
    rw [hd] at htext
    exact absurd htext.symm (hletter hl)
  | @word w _ hw _ _ hs =>
    obtain ⟨hne, hl⟩ := isLetter_of_isWord hw
    obtain ⟨d, t, hd⟩ := List.exists_cons_of_ne_nil hne
    rw [hd] at htext
    exact absurd htext.symm (hletter (hl d (by rw [hd]; exact List.mem_cons_self)))
  | other _ hdigit hs =>
    obtain ⟨rfl, rfl⟩ := List.cons.inj htext
    exact ⟨hs, hdigit⟩

theorem of_letter (h : Spelled (c :: s)) (hc : isLetter c = true) :
    (∃ f ∈ functionNames, ∃ r, c :: s = f.toList ++ '(' :: r ∧ Spelled r) ∨
      ∃ w r, isWord w = true ∧ c :: s = w.toList ++ r ∧ endsName r = true ∧ (trimLeft r).head? ≠ some '(' ∧
        Spelled r := by
  generalize htext : c :: s = t at h
  cases h with
  | nil => cases htext
  | call hf hs => exact Or.inl ⟨_, hf, _, rfl, hs⟩
  | word hw hends hopening hs => exact Or.inr ⟨_, _, hw, rfl, hends, hopening, hs⟩
  | other hd =>
    rw [(List.cons.inj htext).1, hd] at hc
    cases hc

/-- Behind characters that are no letters the text is spelled too, and its variable letters are the same. -/
theorem of_append : ∀ {l : List Char}, Spelled (l ++ s) → (∀ d ∈ l, isLetter d = false) →
    Spelled s ∧ variableLetters (l ++ s) = variableLetters s
  | [], h, _ => ⟨h, rfl⟩
  | d :: l, h, hl => by
    have hd := hl d List.mem_cons_self
    obtain ⟨htail, hdigit⟩ := of_cons h hd
    obtain ⟨hs, heq⟩ := of_append htail fun e he => hl e (List.mem_cons_of_mem d he)
    exact ⟨hs, (variableLetters_cons hd hdigit).trans heq⟩

theorem head_of_digit {l : List Char} (h : Spelled (l ++ c :: s)) (hl : ∀ d ∈ l, isLetter d = false)
    (hc : isDigit c = true) : ∀ d ∈ s.head?, isLetter d = false :=
  (of_cons (of_append h hl).1 (isLetter_eq_false_of_isDigit hc)).2 hc

end Spelled

/-- The parenthesis of a call adds no variable, and neither does its function. -/
theorem variableLetters_call {f : String} (hf : f ∈ functionNames) (s : List Char) :
    variableLetters (f.toList ++ '(' :: s) = variableLetters s := by
  have hlength : ∀ f ∈ functionNames, 2 ≤ f.toList.length := by decide
  rw [variableLetters_append (isAlphanumeric_of_mem_functionNames hf) (hlength f hf) (endsName_opening s),
    variableLetters_cons (by decide) fun hdigit => absurd hdigit (by decide)]

/-- **A word adds a variable just if it has no fixed meaning**, and then it is the letter. -/
theorem variableLetters_word {w : String} (hw : isWord w = true) {s : List Char} (hs : endsName s = true) :
    (variableLetters (w.toList ++ s)).map String.singleton =
      if isReserved w then (variableLetters s).map String.singleton
      else w :: (variableLetters s).map String.singleton := by
  by_cases hletter : ∃ c, w = String.singleton c ∧ isLetter c = true
  · obtain ⟨c, rfl, hc⟩ := hletter
    rw [String.toList_singleton, List.singleton_append, variableLetters_letter hc hs, isReserved_singleton]
    cases constantLetters.contains c <;> rfl
  · have hk : w ∈ constantNames := (isWord_iff.1 hw).resolve_right hletter
    have hreserved : ∀ k ∈ constantNames, isReserved k = true := by decide
    have hlength : 2 ≤ w.toList.length := by
      obtain ⟨hne, hletters⟩ := isLetter_of_isWord hw
      match h : w.toList, hne with
      | [c], _ =>
        exact absurd ⟨c, String.toList_inj.1 (by rw [h, String.toList_singleton]),
          hletters c (by rw [h]; exact List.mem_cons_self)⟩ hletter
      | c :: d :: t, _ => simp
    rw [hreserved w hk, if_pos rfl,
      variableLetters_append (isAlphanumeric_of_mem_constantNames hk) hlength hs]

/-! ## Explicit texts are spelled -/

/-- No parenthesis opens behind a word of an explicit text, not even behind blanks. -/
theorem head_trimLeft_join {k : Kind} (hk : k = .letter ∨ k = .constant) {ps : List Piece}
    (hps : ∀ p ∈ ps, p.Recognised) : (trimLeft (join (some k) ps)).head? ≠ some '(' := by
  intro h
  obtain ⟨r, hr⟩ := List.head?_eq_some_iff.1 h
  have hsplit : join (some k) ps = (join (some k) ps).takeWhile isBlank ++ '(' :: r := by
    rw [← hr]
    exact List.takeWhile_append_dropWhile.symm
  rcases star_or_not_multiplies (by decide) hps
    (fun c hc => List.mem_takeWhile_imp hc) hsplit with hstar | hmultiplies
  · cases hstar
  · rcases hk with rfl | rfl <;> cases hmultiplies

/-- A piece before what it does not multiply keeps the text spelled. -/
theorem spelled_text {p : Piece} (hp : p.Recognised) (hsolid : p.IsSolid) {ps : List Piece}
    (hps : ∀ q ∈ ps, q.Recognised) (h : Spelled (join (some p.last) ps)) :
    Spelled (p.text ++ join (some p.last) ps) := by
  have hunmultiplied := unmultiplied_join hps p.last
  cases p with
  | blank c => exact absurd rfl (hsolid c)
  | call f =>
    rw [Piece.text, List.append_assoc]
    exact .call hp h
  | constant k =>
    exact .word (isWord_constant hp) (hunmultiplied.endsName (Or.inr rfl)) (head_trimLeft_join (Or.inr rfl) hps) h
  | char c =>
    cases hc : isLetter c with
    | false =>
      refine .other hc (fun hdigit d hd => ?_) h
      obtain ⟨r, hr⟩ := List.head?_eq_some_iff.1 hd
      have hnot := hunmultiplied d r hr
      rw [Piece.last, Kind.multiplies_ofChar, juxtaposed, hdigit] at hnot
      exact (by simpa using hnot : isLetter d = false ∧ ¬d = '(').1
    | true =>
      have hlast : (Piece.char c).last = .letter := Piece.ofChar_of_isLetter hc
      rw [hlast] at h hunmultiplied ⊢
      have hword := Spelled.word (isWord_singleton hc) (hunmultiplied.endsName (Or.inl rfl))
        (head_trimLeft_join (Or.inl rfl) hps) h
      rwa [String.toList_singleton] at hword

theorem spelled_join : ∀ {ps : List Piece} {previous : Option Kind}, (∀ p ∈ ps, p.Recognised) →
    Spelled (join previous ps)
  | [], _, _ => .nil
  | p :: ps, previous, hps => by
    have hp := hps p List.mem_cons_self
    have hps' : ∀ q ∈ ps, q.Recognised := fun q hq => hps q (List.mem_cons_of_mem p hq)
    -- a blank spells nothing, and neither does the star that may stand before any other piece
    rcases p.blank_or_isSolid with ⟨c, rfl⟩ | hsolid
    · have hc : isAlphanumeric c = false := Bool.eq_false_iff.2 fun hc => by
        have hblank : isBlank c = true := hp
        rw [isBlank_eq_false_of_isAlphanumeric hc] at hblank
        cases hblank
      rw [isAlphanumeric, Bool.or_eq_false_iff] at hc
      exact .other hc.1 (fun hdigit => by rw [hc.2] at hdigit; cases hdigit) (spelled_join hps')
    · have htext := spelled_text hp hsolid hps' (spelled_join hps')
      rw [join_cons hsolid]
      rcases starBefore_cases previous p with ⟨hstar, -⟩ | ⟨hstar, -⟩
      · rw [hstar]
        exact .other (by decide) (fun hdigit => absurd hdigit (by decide)) htext
      · rw [hstar]
        exact htext

/-- **A text with its products written out is spelled.** -/
theorem spelled_explicit (s : List Char) : Spelled (explicit s) := spelled_join (recognised_of_mem_pieces s)

end Heightfield.Formula
