import Heightfield.Proofs.Names.Phrases
/-!
# Names that nobody defined

Where a name stands before a parenthesis in a spelled text, it is a function of the vocabulary, unless it has an
underscore (`Spelled.called`).  So the names that nobody defined, and that are tokens of a text all the same, have
an underscore, and stand in the text (`Token.undefined_of_tokens`).  A phrase has no other such names than its
tokens (`Phrase.undefinedNames_of_ofTokens`).
-/
namespace Heightfield.Formula

open Juxtaposition (eq_of_append_eq endsName_opening isAlphanumeric_of_mem_functionNames)
open Token (isNameStart isNameChar isSpace scan ofName Plain)

/-! ## Names before a parenthesis -/

/-- The name stands in the text, whole, before a parenthesis, blanks between them or not. -/
structure Calls (s name : List Char) : Prop where
  head : name.head?.any isNameStart = true
  chars : ∀ c ∈ name, isNameChar c = true
  stands : ∃ l blanks r, s = l ++ (name ++ (blanks ++ '(' :: r)) ∧ (∀ c ∈ l.getLast?, isNameChar c = false) ∧
    ∀ c ∈ blanks, isBlank c = true

section
variable {name blanks l r w s : List Char}

theorem endsName_blanks (hblanks : ∀ c ∈ blanks, isBlank c = true) : endsName (blanks ++ '(' :: r) = true := by
  cases blanks with
  | nil => rfl
  | cons c blanks =>
    have hc : isAlphanumeric c = false := Bool.eq_false_iff.2 fun halpha => by
      have hblank := hblanks c List.mem_cons_self
      rw [isBlank_eq_false_of_isAlphanumeric halpha] at hblank
      cases hblank
    rw [List.cons_append, endsName, hc]
    rfl

/-- A name of letters and digits does not end within another. -/
theorem exists_eq_append_of_word (hw : ∀ c ∈ w, isAlphanumeric c = true) (hl : ∀ c ∈ l.getLast?, isNameChar c = false)
    (h : w ++ s = l ++ r) : l = [] ∨ ∃ l', l = w ++ l' ∧ s = l' ++ r ∧ ∀ c ∈ l'.getLast?, isNameChar c = false := by
  rcases List.append_eq_append_iff.1 h with ⟨l', rfl, hs⟩ | ⟨m, rfl, hr⟩
  · refine Or.inr ⟨l', rfl, hs, fun c hc => hl c ?_⟩
    rw [List.getLast?_append, Option.mem_def.1 hc]
    rfl
  · rcases List.eq_nil_or_concat l with hnil | ⟨l', c, rfl⟩
    · exact Or.inl hnil
    · have hc := hw c (by simp)
      have hnot := hl c (by simp)
      rw [isNameChar, hc] at hnot
      cases hnot

/-- The name begins the text, before a parenthesis, blanks between them or not. -/
def Opens (s name : List Char) : Prop :=
  ∃ blanks r, s = name ++ (blanks ++ '(' :: r) ∧ ∀ c ∈ blanks, isBlank c = true

theorem Opens.head {c : Char} (h : Opens (c :: s) name) (hhead : name.head?.any isNameStart = true) :
    isNameStart c = true ∧ c ∈ name := by
  obtain ⟨blanks, r, hs, -⟩ := h
  cases name with
  | nil => cases hhead
  | cons d name =>
    obtain ⟨rfl, -⟩ := List.cons.inj hs
    exact ⟨hhead, List.mem_cons_self⟩

/-- Only the word itself begins a text that a word begins. -/
theorem Opens.eq_word (h : Opens (w ++ s) name) (hw : ∀ c ∈ w, isAlphanumeric c = true)
    (hname : ∀ c ∈ name, isAlphanumeric c = true) (hends : endsName s = true) :
    name = w ∧ (trimLeft s).head? = some '(' := by
  obtain ⟨blanks, r, hs, hblanks⟩ := h
  obtain rfl : w = name := eq_of_append_eq hends (endsName_blanks hblanks) hw hname hs
  rw [List.append_cancel_left_eq] at hs
  rw [hs, trimLeft_append hblanks]
  exact ⟨rfl, rfl⟩

theorem Calls.of_append (h : Calls (w ++ s) name) (hw : ∀ c ∈ w, isAlphanumeric c = true) :
    Opens (w ++ s) name ∨ Calls s name := by
  obtain ⟨hhead, hchars, l, blanks, r, hs, hl, hblanks⟩ := h
  rcases exists_eq_append_of_word hw hl hs with rfl | ⟨l', -, hs', hl'⟩
  · exact Or.inl ⟨blanks, r, hs, hblanks⟩
  · exact Or.inr ⟨hhead, hchars, l', blanks, r, hs', hl', hblanks⟩

theorem Calls.of_cons {c : Char} (h : Calls (c :: s) name) : Opens (c :: s) name ∨ Calls s name := by
  obtain ⟨hhead, hchars, l, blanks, r, hs, hl, hblanks⟩ := h
  cases l with
  | nil => exact Or.inl ⟨blanks, r, hs, hblanks⟩
  | cons d l =>
    refine Or.inr ⟨hhead, hchars, l, blanks, r, (List.cons.inj hs).2, fun e he => hl e ?_, hblanks⟩
    rw [List.getLast?_cons, Option.mem_def.1 he]
    rfl

/-- **A name before a parenthesis is a function of the vocabulary**, if it has no underscore. -/
theorem Spelled.called (h : Spelled s) (hname : Calls s name) (hunderscore : '_' ∉ name) :
    ∃ f ∈ functionNames, name = f.toList := by
  have halpha : ∀ c ∈ name, isAlphanumeric c = true := fun c hc => by
    have hchar := hname.chars c hc
    rw [isNameChar, Bool.or_eq_true, decide_eq_true_eq] at hchar
    exact hchar.resolve_right fun heq => hunderscore (heq ▸ hc)
  induction h with
  | nil =>
    obtain ⟨l, blanks, r, hs, -⟩ := hname.stands
    simp at hs
  | @call f t hf _ ih =>
    have hfalpha := isAlphanumeric_of_mem_functionNames hf
    rcases hname.of_append hfalpha with hopens | hlater
    · exact ⟨f, hf, (hopens.eq_word hfalpha halpha (endsName_opening t)).1⟩
    · rcases hlater.of_cons with hopens | hlater
      · -- a name begins with no parenthesis
        cases (hopens.head hname.head).1
      · exact ih hlater
  | @word v t hv hends hopening _ ih =>
    have hvalpha : ∀ c ∈ v.toList, isAlphanumeric c = true := fun c hc =>
      isAlphanumeric_of_isLetter ((isLetter_of_isWord hv).2 c hc)
    rcases hname.of_append hvalpha with hopens | hlater
    · exact absurd (hopens.eq_word hvalpha halpha hends).2 hopening
    · exact ih hlater
  | @other c t hc _ _ ih =>
    rcases hname.of_cons with hopens | hlater
    · -- what starts a name and is no letter is the underscore
      obtain ⟨hstart, hmem⟩ := hopens.head hname.head
      rw [isNameStart, hc, Bool.false_or, decide_eq_true_eq] at hstart
      exact absurd (hstart ▸ hmem) hunderscore
    · exact ih hlater

end

namespace Token

/-! ## Tokens -/

theorem of_ofName_undefined {w u : String} {r : List Char} (h : ofName w r = undefined u) :
    w = u ∧ isReserved u = false ∧ (trimLeft r).head? = some '(' := by
  by_cases hopening : (trimLeft r).head? = some '('
  · unfold ofName at h
    split at h
    · rename_i hboth
      obtain rfl := undefined.inj h
      exact ⟨rfl, by simpa using (Bool.and_eq_true_iff.1 hboth).2, hopening⟩
    · cases h
  · rw [ofName_word hopening] at h
    cases h

theorem underscore_of_ofName {c : Char} {s : List Char} (h : Spelled (c :: s)) (hstart : isNameStart c = true) {u : String}
    (hu : ofName (String.ofList (c :: s.takeWhile isNameChar)) (s.dropWhile isNameChar) = undefined u) :
    '_' ∈ u.toList ∧ u.toList <:+: c :: s := by
  obtain ⟨rfl, hreserved, hopening⟩ := of_ofName_undefined hu
  have hsplit : c :: s = (c :: s.takeWhile isNameChar) ++ s.dropWhile isNameChar := by
    rw [List.cons_append, List.takeWhile_append_dropWhile]
  rw [String.toList_ofList]
  refine ⟨?_, ⟨[], s.dropWhile isNameChar, by rw [List.nil_append, ← hsplit]⟩⟩
  by_contra hunderscore
  have hblanks := (List.takeWhile_append_dropWhile (p := isBlank) (l := s.dropWhile isNameChar)).symm
  obtain ⟨r, hr⟩ := List.head?_eq_some_iff.1 hopening
  rw [show (s.dropWhile isNameChar).dropWhile isBlank = '(' :: r from hr] at hblanks
  have hcalls : Calls (c :: s) (c :: s.takeWhile isNameChar) := by
    refine ⟨hstart, List.forall_mem_cons.2 ⟨isNameChar_of_isNameStart hstart, fun d hd => List.mem_takeWhile_imp hd⟩,
      [], (s.dropWhile isNameChar).takeWhile isBlank, r, ?_, (fun d hd => by cases hd),
      fun d hd => List.mem_takeWhile_imp hd⟩
    rw [List.nil_append, ← hblanks]
    exact hsplit
  obtain ⟨f, hf, heq⟩ := h.called hcalls hunderscore
  rw [heq, String.ofList_toList, isReserved_of_mem_callNames f (List.mem_cons_of_mem _ hf)] at hreserved
  cases hreserved

/-- **A name that nobody defined has an underscore**, and stands in the text. -/
theorem undefined_of_scan : ∀ {fuel depth : Nat} {s : List Char} {ts : List Token}, Plain s →
    scan fuel depth s = some ts → ∀ u, undefined u ∈ ts → '_' ∈ u.toList ∧ u.toList <:+: s
  | 0, _, _, _, _, hscan => by
    rw [scan] at hscan
    cases hscan
  | fuel + 1, _, [], ts, _, hscan => by
    rw [scan] at hscan
    · cases hscan
      exact fun u hu => by cases hu
    · exact Nat.succ_ne_zero fuel
  | fuel + 1, depth, c :: s, ts, h, hscan => by
    intro u hu
    cases hstart : isNameStart c with
    | false =>
      obtain ⟨r, depth', us, ts', ⟨l, hl, hletters⟩, hrest, rfl, hus⟩ := cutsOff_of_scan h hstart hscan
      have hmem : undefined u ∈ ts' := (List.mem_append.1 hu).resolve_left fun hmem => by cases hus _ hmem
      rw [hl] at h ⊢
      obtain ⟨hunderscore, hstands⟩ := undefined_of_scan (h.of_append hletters) hrest u hmem
      exact ⟨hunderscore, hstands.trans (List.suffix_append l r).isInfix⟩
    | true =>
      have hsplit : c :: s = (c :: s.takeWhile isNameChar) ++ s.dropWhile isNameChar := by
        rw [List.cons_append, List.takeWhile_append_dropWhile]
      rw [scan_name hstart] at hscan
      obtain ⟨ts', hts', rfl⟩ := Option.map_eq_some_iff.1 hscan
      rcases List.mem_cons.1 hu with hhead | htail
      · exact underscore_of_ofName h.spelled hstart hhead.symm
      · obtain ⟨hunderscore, hstands⟩ := undefined_of_scan (h.dropWhile hstart) hts' u htail
        refine ⟨hunderscore, hstands.trans (List.IsSuffix.isInfix ?_)⟩
        rw [hsplit]
        exact List.suffix_append _ _

/-! ## Factorial marks -/

section
variable {u : String} {before before' ts ts' : List Token}

theorem undefined_of_wrapped {f : String} (h : wrapped f before = some before') (hu : undefined u ∈ before') :
    undefined u ∈ before := by
  obtain ⟨⟨operand, rest⟩, hoperand, rfl⟩ := Option.map_eq_some_iff.1 h
  obtain ⟨blank, -, read, rfl, hread, -⟩ := splitsInto_of_factorialOperand? hoperand
  have hmem : undefined u ∈ operand ++ rest := by simpa using hu
  rw [hread] at hmem
  exact List.mem_append_right _ hmem

theorem undefined_of_afterMarks {n : Nat} (h : afterMarks n before = some before') (hu : undefined u ∈ before') :
    undefined u ∈ before := by
  unfold afterMarks at h
  split at h
  · rwa [Option.some.inj h]
  · exact undefined_of_wrapped h hu
  · exact undefined_of_wrapped h hu
  · cases h

theorem undefined_of_resolveFactorials : ∀ {ts before : List Token} {n : Nat},
    resolveFactorials before n ts = some ts' → undefined u ∈ ts' → undefined u ∈ before ∨ undefined u ∈ ts
  | [], before, n, h, hu => by
    rw [resolveFactorials] at h
    obtain ⟨before', hbefore, rfl⟩ := Option.map_eq_some_iff.1 h
    exact Or.inl (undefined_of_afterMarks hbefore (List.mem_reverse.1 hu))
  | t :: ts, before, n, h, hu => by
    by_cases hbang : t = mark .bang
    · subst hbang
      rw [resolveFactorials] at h
      exact (undefined_of_resolveFactorials h hu).imp_right (List.mem_cons_of_mem _)
    by_cases hgap : t = mark .gap
    · subst hgap
      rw [resolveFactorials] at h
      rcases undefined_of_resolveFactorials h hu with hmem | hmem
      · exact Or.inl ((List.mem_cons.1 hmem).resolve_left fun heq => by cases heq)
      · exact Or.inr (List.mem_cons_of_mem _ hmem)
    · rw [resolveFactorials] at h
      · obtain ⟨before', hbefore, hrest⟩ := Option.bind_eq_some_iff.1 h
        rcases undefined_of_resolveFactorials hrest hu with hmem | hmem
        · rcases List.mem_cons.1 hmem with rfl | hmem
          · exact Or.inr List.mem_cons_self
          · exact Or.inl (undefined_of_afterMarks hbefore hmem)
        · exact Or.inr (List.mem_cons_of_mem _ hmem)
      · exact hbang
      · exact hgap

end

theorem undefined_of_tokens {s : List Char} {ts : List Token} (h : Plain s) (hts : tokens s = some ts) {u : String}
    (hu : undefined u ∈ ts) : '_' ∈ u.toList ∧ u.toList <:+: s := by
  obtain ⟨resolved, hresolved, rfl⟩ := Option.map_eq_some_iff.1 hts
  obtain ⟨scanned, hscanned, hresolve⟩ := Option.bind_eq_some_iff.1 hresolved
  rcases undefined_of_resolveFactorials hresolve (List.mem_filter.1 hu).1 with hmem | hmem
  · cases hmem
  · exact undefined_of_scan h hscanned u hmem

end Token

namespace Phrase

/-! ## Phrases -/

mutual

/-- The names in the phrase that nobody defined. -/
def undefinedNames : Phrase → List String
  | undefined s => [s]
  | tuple as => allUndefinedNames as
  | star a | sign _ a | not a => a.undefinedNames
  | binary _ a b | and a b | or a b => a.undefinedNames ++ b.undefinedNames
  | conditional c a b => a.undefinedNames ++ c.undefinedNames ++ b.undefinedNames
  | call f as => f.undefinedNames ++ allUndefinedNames as
  | _ => []

def allUndefinedNames : List Phrase → List String
  | [] => []
  | a :: as => a.undefinedNames ++ allUndefinedNames as

end

/-- What is read from the tokens has the names `us`, all of them among the tokens, and leaves some of the tokens. -/
structure Draws (ts : List Token) (us : List String) (rest : List Token) : Prop where
  mem : ∀ u ∈ us, .undefined u ∈ ts
  rest_subset : rest ⊆ ts

section
variable {ts mid rest : List Token} {us vs : List String} {t : Token}

theorem Draws.nil (ts : List Token) : Draws ts [] ts := ⟨(fun u hu => by cases hu), List.Subset.refl ts⟩

theorem Draws.cons (h : Draws ts us rest) (t : Token) : Draws (t :: ts) us rest :=
  ⟨fun u hu => List.mem_cons_of_mem t (h.mem u hu), fun _ hu => List.mem_cons_of_mem t (h.rest_subset hu)⟩

theorem Draws.trans (h : Draws ts us mid) (h' : Draws mid vs rest) : Draws ts (us ++ vs) rest where
  mem u hu := (List.mem_append.1 hu).elim (h.mem u) fun hv => h.rest_subset (h'.mem u hv)
  rest_subset := fun _ hu => h.rest_subset (h'.rest_subset hu)

theorem Draws.tail (h : Draws ts us (t :: rest)) : Draws ts us rest :=
  ⟨h.mem, fun _ hu => h.rest_subset (List.mem_cons_of_mem t hu)⟩

end

/-- The readers, with some amount of fuel, bring no such name in. -/
structure Drawers (fuel : Nat) : Prop where
  expression : ∀ {level ts p rest}, Phrase.expression fuel level ts = some (p, rest) →
    Draws ts p.undefinedNames rest
  operand : ∀ {level ts p rest}, Phrase.operand fuel level ts = some (p, rest) → Draws ts p.undefinedNames rest
  following : ∀ {level a ts p rest all}, Draws all a.undefinedNames ts →
    Phrase.following fuel level a ts = some (p, rest) → Draws all p.undefinedNames rest
  item : ∀ {starred ts p rest}, Phrase.item fuel starred ts = some (p, rest) → Draws ts p.undefinedNames rest
  group : ∀ {ts p rest}, Phrase.group fuel ts = some (p, rest) → Draws ts p.undefinedNames rest
  operands : ∀ {starred ts ps rest}, Phrase.operands fuel starred ts = some (ps, rest) →
    Draws ts (allUndefinedNames ps) rest

theorem drawers_zero : Drawers 0 where
  expression h := by rw [Phrase.expression] at h; cases h
  operand h := by rw [Phrase.operand] at h; cases h
  following _ h := by rw [Phrase.following] at h; cases h
  item h := by rw [Phrase.item] at h; cases h
  group h := by rw [Phrase.group] at h; cases h
  operands h := by rw [Phrase.operands] at h; cases h

section
variable {fuel level : Nat} {ts rest all : List Token} {p a : Phrase}

theorem expression_draws (drawers : Drawers fuel) (h : expression (fuel + 1) level ts = some (p, rest)) :
    Draws ts p.undefinedNames rest := by
  rw [expression] at h
  obtain ⟨⟨a, ts'⟩, hoperand, hfollowing⟩ := Option.bind_eq_some_iff.1 h
  exact drawers.following (drawers.operand hoperand) hfollowing

theorem undefinedNames_ofWord {s : String} (h : ofWord s = some p) : p.undefinedNames = [] := by
  unfold ofWord at h
  split at h
  · cases h
    rfl
  split at h
  · cases h
    rfl
  split at h
  · cases h
    rfl
  split at h
  · cases h
  · cases h
    rfl

theorem operand_draws (drawers : Drawers fuel) (h : operand (fuel + 1) level ts = some (p, rest)) :
    Draws ts p.undefinedNames rest := by
  cases operand_reading h with
  | integer n => exact (Draws.nil _).cons _
  | decimal d e => exact (Draws.nil _).cons _
  | undefined s =>
    exact ⟨fun u hu => by rw [List.mem_singleton.1 hu]; exact List.mem_cons_self, List.subset_cons_self _ _⟩
  | not ha => exact (drawers.expression ha).cons _
  | word ha =>
    rw [undefinedNames_ofWord ha]
    exact (Draws.nil _).cons _
  | ellipsis => exact (Draws.nil _).cons _
  | plus ha => exact (drawers.expression ha).cons _
  | minus ha => exact (drawers.expression ha).cons _
  | group ha => exact (drawers.group ha).cons _

theorem following_draws (drawers : Drawers fuel) (ha : Draws all a.undefinedNames ts)
    (h : following (fuel + 1) level a ts = some (p, rest)) : Draws all p.undefinedNames rest := by
  cases following_reading h with
  | ends => exact ha
  | @call _ mid _ bs _ hbs hp =>
    have hcall : Draws all (call a bs).undefinedNames mid := ha.tail.trans (drawers.operands hbs)
    exact drawers.following hcall hp
  | @binary _ op _ _ _ mid _ b _ _ hb hp =>
    have hbinary : Draws all (binary op a b).undefinedNames mid := ha.tail.trans (drawers.expression hb)
    exact drawers.following hbinary hp
  | @and _ mid _ b _ hb hp =>
    have hand : Draws all (and a b).undefinedNames mid := ha.tail.trans (drawers.expression hb)
    exact drawers.following hand hp
  | @or _ mid _ b _ hb hp =>
    have hor : Draws all (or a b).undefinedNames mid := ha.tail.trans (drawers.expression hb)
    exact drawers.following hor hp
  | conditional hc hb => exact (ha.tail.trans (drawers.expression hc)).tail.trans (drawers.expression hb)

theorem item_draws {starred : Nat} (drawers : Drawers fuel) (h : item (fuel + 1) starred ts = some (p, rest)) :
    Draws ts p.undefinedNames rest := by
  cases item_reading h with
  | star ha => exact (drawers.expression ha).cons _
  | plain ha => exact drawers.expression ha

theorem group_draws (drawers : Drawers fuel) (h : group (fuel + 1) ts = some (p, rest)) :
    Draws ts p.undefinedNames rest := by
  cases group_reading h with
  | empty => exact (Draws.nil _).cons _
  | alone ha => exact (drawers.item ha).tail
  | tuple ha hbs => exact (drawers.item ha).tail.trans (drawers.operands hbs)

theorem allUndefinedNames_singleton (a : Phrase) : allUndefinedNames [a] = a.undefinedNames := by
  rw [allUndefinedNames, allUndefinedNames, List.append_nil]

theorem operands_draws {starred : Nat} {ps : List Phrase} (drawers : Drawers fuel)
    (h : operands (fuel + 1) starred ts = some (ps, rest)) : Draws ts (allUndefinedNames ps) rest := by
  cases operands_reading h with
  | nil => exact (Draws.nil _).cons _
  | last ha =>
    rw [allUndefinedNames_singleton]
    exact (drawers.item ha).tail
  | cons ha hbs => exact (drawers.item ha).tail.trans (drawers.operands hbs)

end

theorem drawers : ∀ fuel, Drawers fuel
  | 0 => drawers_zero
  | fuel + 1 =>
    { expression := expression_draws (drawers fuel)
      operand := operand_draws (drawers fuel)
      following := following_draws (drawers fuel)
      item := item_draws (drawers fuel)
      group := group_draws (drawers fuel)
      operands := operands_draws (drawers fuel) }

theorem items_draw : ∀ {fuel : Nat} {ts : List Token} {ps : List Phrase} {ends : Bool},
    items fuel ts = some (ps, ends) → ∀ u ∈ allUndefinedNames ps, .undefined u ∈ ts
  | 0, _, _, _, h => by
    rw [items] at h
    cases h
  | fuel + 1, ts, ps, ends, h => by
    cases items_reading h with
    | last ha =>
      rw [allUndefinedNames_singleton]
      exact ((drawers fuel).item ha).mem
    | comma ha =>
      rw [allUndefinedNames_singleton]
      exact ((drawers fuel).item ha).mem
    | cons ha hbs => exact (((drawers fuel).item ha).tail.trans ⟨items_draw hbs, List.Subset.refl _⟩).mem

theorem ofLine_draws {ts : List Token} {p : Phrase} (h : ofLine ts = some p) :
    ∀ u ∈ p.undefinedNames, .undefined u ∈ ts := by
  obtain ⟨us, hus, hread⟩ := ofLine_reading h
  have hline : ∀ u ∈ p.undefinedNames, .undefined u ∈ us := by
    cases hread with
    | alone ha => exact allUndefinedNames_singleton p ▸ items_draw ha
    | tuple hps => exact items_draw hps
  rcases hus with rfl | rfl
  · exact hline
  · exact fun u hu => List.mem_cons_of_mem _ (hline u hu)

/-- **The names in a phrase that nobody defined are among its tokens.** -/
theorem undefinedNames_of_ofTokens {ts : List Token} {p : Phrase} (h : ofTokens ts = some p) :
    ∀ u ∈ p.undefinedNames, .undefined u ∈ ts := by
  intro u hu
  obtain ⟨l, hl, hline⟩ := exists_line_of_ofTokens h
  have hsplit : l ∈ ts.splitBy fun a b => a ≠ .lineEnd && b ≠ .lineEnd := (List.mem_filter.1 hl).1
  have hmem := List.mem_flatten_of_mem hsplit (ofLine_draws hline u hu)
  rwa [List.flatten_splitBy] at hmem

end Phrase

end Heightfield.Formula
