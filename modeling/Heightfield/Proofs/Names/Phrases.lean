import Mathlib.Data.List.SplitBy
import Heightfield.Proofs.Formula.Reading
import Heightfield.Proofs.Formula.Grammar
import Heightfield.Proofs.Names.Factorials
/-!
# The names of a phrase

A phrase that is read from tokens has their names, in their order.  As the tokens of a text have no words of the
grammar and no function without its parenthesis, the phrase is closed (`Phrase.isClosed`): functions stand in it
only where they are called, and no operand of it is ever left out.
-/
namespace Heightfield.Formula

open Token (Named Breaks BeginsWithCall callNames standsAlone isReserved_of_underscore)

theorem isKeyword_of_named {s : String} (h : standsAlone s = true ∨ s ∈ callNames) : isKeyword s = false := by
  have hconstants : ∀ k ∈ constantNames, isKeyword k = false := by decide
  have hcalls : ∀ f ∈ callNames, isKeyword f = false := by decide
  rcases h with halone | hcall
  · rcases Bool.or_eq_true_iff.1 halone with hword | hunderscore
    · rcases isWord_iff.1 hword with hk | ⟨c, rfl, -⟩
      · exact hconstants s hk
      · exact isKeyword_singleton c
    · have hreserved := isReserved_of_underscore (List.contains_iff_mem.1 hunderscore)
      rw [isReserved, Bool.or_eq_false_iff, Bool.or_eq_false_iff] at hreserved
      exact hreserved.1.1
  · exact hcalls s hcall

namespace Phrase

/-! ## Closed phrases -/

/-- The phrase is the name of a function, even of one nobody defined. -/
def isFunction : Phrase → Bool
  | name s => callNames.contains s
  | undefined _ => true
  | _ => false

mutual

/-- The names of the phrase stand alone, but for the functions that are called, and it has no words of the grammar. -/
def isClosed : Phrase → Bool
  | integer _ | decimal _ _ | ellipsis => true
  | name s => standsAlone s
  | tuple as => allClosed as
  | star a | sign _ a => a.isClosed
  | binary _ a b => a.isClosed && b.isClosed
  | call f as => (f.isFunction || f.isClosed) && allClosed as
  | _ => false

def allClosed : List Phrase → Bool
  | [] => true
  | a :: as => a.isClosed && allClosed as

end

mutual

/-- The names without a fixed meaning, from left to right. -/
def freeNames : Phrase → List String
  | name s => if isReserved s then [] else [s]
  | tuple as => allFreeNames as
  | star a | sign _ a | not a => a.freeNames
  | binary _ a b | and a b | or a b => a.freeNames ++ b.freeNames
  | conditional c a b => a.freeNames ++ c.freeNames ++ b.freeNames
  | call f as => f.freeNames ++ allFreeNames as
  | _ => []

def allFreeNames : List Phrase → List String
  | [] => []
  | a :: as => a.freeNames ++ allFreeNames as

end

/-! ## Reading -/

/-- What is in the phrase and in the tokens behind it are the names `vs`, and the tokens behind it are named. -/
structure Takes (vs us : List String) (rest : List Token) : Prop where
  named : Named rest
  eq_append : vs = us ++ Token.freeNames rest

/-- The phrase is closed, or nothing can be read behind it: a phrase does not go on with a function. -/
def Ends (a : Phrase) (ts : List Token) : Prop := a.isClosed = true ∨ BeginsWithCall ts

/-- The phrase ends, or it is a function before its parenthesis. -/
def Heads (a : Phrase) (ts : List Token) : Prop :=
  a.Ends ts ∨ (a.isFunction = true ∧ ts.head? = some (.mark .opening))

section
variable {a b : Phrase} {ts : List Token}

theorem Ends.isClosed (h : a.Ends ts) (hts : Breaks ts) : a.isClosed = true := h.resolve_right hts.not_beginsWithCall

theorem Ends.imp (h : a.Ends ts) (hab : a.isClosed = true → b.isClosed = true) : b.Ends ts := h.imp_left hab

theorem Heads.ends (h : a.Heads ts) (hts : ts.head? ≠ some (.mark .opening)) : a.Ends ts :=
  h.resolve_right fun hf => hts hf.2

theorem Heads.isClosed (h : a.Heads ts) (hts : Breaks ts) : a.isClosed = true := (h.ends hts.head_ne).isClosed hts

theorem breaks_mark {m : Mark} (hm : m ≠ .opening) (ts : List Token) : Breaks (.mark m :: ts) := fun t ht => by
  obtain rfl := Option.some.inj ht
  exact ⟨fun heq => hm (by simpa using heq), rfl⟩

theorem breaks_nil : Breaks [] := fun t ht => by cases ht

theorem breaks_closing (ts : List Token) : Breaks (.mark .closing :: ts) := breaks_mark (by decide) ts

theorem breaks_comma (ts : List Token) : Breaks (.mark .comma :: ts) := breaks_mark (by decide) ts

end

/-- The readers, with some amount of fuel, take the names of what they read.  They call one another with less fuel, so
that one induction on the fuel proves all of it. -/
structure Readers (fuel : Nat) : Prop where
  expression : ∀ {level ts p rest}, Named ts → Phrase.expression fuel level ts = some (p, rest) →
    p.Ends rest ∧ Takes (Token.freeNames ts) p.freeNames rest
  operand : ∀ {level ts p rest}, Named ts → Phrase.operand fuel level ts = some (p, rest) →
    p.Heads rest ∧ Takes (Token.freeNames ts) p.freeNames rest
  following : ∀ {level a ts p rest}, a.Heads ts → Named ts → Phrase.following fuel level a ts = some (p, rest) →
    p.Ends rest ∧ Takes (a.freeNames ++ Token.freeNames ts) p.freeNames rest
  item : ∀ {starred ts p rest}, Named ts → Phrase.item fuel starred ts = some (p, rest) →
    p.Ends rest ∧ Takes (Token.freeNames ts) p.freeNames rest
  group : ∀ {ts p rest}, Named ts → Phrase.group fuel ts = some (p, rest) →
    p.isClosed = true ∧ Takes (Token.freeNames ts) p.freeNames rest
  operands : ∀ {starred ts ps rest}, Named ts → Phrase.operands fuel starred ts = some (ps, rest) →
    allClosed ps = true ∧ Takes (Token.freeNames ts) (allFreeNames ps) rest

theorem readers_zero : Readers 0 where
  expression _ h := by rw [Phrase.expression] at h; cases h
  operand _ h := by rw [Phrase.operand] at h; cases h
  following _ _ h := by rw [Phrase.following] at h; cases h
  item _ h := by rw [Phrase.item] at h; cases h
  group _ h := by rw [Phrase.group] at h; cases h
  operands _ h := by rw [Phrase.operands] at h; cases h

section
variable {fuel level : Nat} {ts rest : List Token} {p a : Phrase}

theorem expression_takes (readers : Readers fuel) (hts : Named ts)
    (h : Phrase.expression (fuel + 1) level ts = some (p, rest)) :
    p.Ends rest ∧ Takes (Token.freeNames ts) p.freeNames rest := by
  rw [Phrase.expression] at h
  obtain ⟨⟨a, ts'⟩, hoperand, hfollowing⟩ := Option.bind_eq_some_iff.1 h
  obtain ⟨hheads, htakes⟩ := readers.operand hts hoperand
  rw [htakes.eq_append]
  exact readers.following hheads htakes.named hfollowing

theorem not_named_of_isKeyword {s : String} (hs : isKeyword s = true) : ¬Named (.name s :: ts) := fun hts => by
  rw [isKeyword_of_named (hts.1.imp_right And.left)] at hs
  cases hs

theorem operand_takes (readers : Readers fuel) (hts : Named ts)
    (h : Phrase.operand (fuel + 1) level ts = some (p, rest)) :
    p.Heads rest ∧ Takes (Token.freeNames ts) p.freeNames rest := by
  cases operand_reading h with
  | integer n => exact ⟨Or.inl (Or.inl rfl), hts, rfl⟩
  | decimal d e => exact ⟨Or.inl (Or.inl rfl), hts, rfl⟩
  | undefined s => exact ⟨hts.1.symm.imp Or.inr fun hopening => ⟨rfl, hopening⟩, hts.2, rfl⟩
  | not => exact absurd hts (not_named_of_isKeyword (by decide))
  | @word s a hword =>
    rw [ofWord_eq_name (isKeyword_of_named (hts.1.imp_right And.left))] at hword
    cases hword
    refine ⟨hts.1.imp Or.inl fun hcall => ⟨List.contains_iff_mem.2 hcall.1, hcall.2⟩, hts.2, ?_⟩
    rw [Token.freeNames_name, freeNames]
    cases isReserved s <;> rfl
  | ellipsis => exact ⟨Or.inl (Or.inl rfl), (Token.named_cons rfl).1 hts, rfl⟩
  | plus ha =>
    obtain ⟨ha, htakes⟩ := readers.expression ((Token.named_cons rfl).1 hts) ha
    exact ⟨Or.inl ha, htakes⟩
  | minus ha =>
    obtain ⟨ha, htakes⟩ := readers.expression ((Token.named_cons rfl).1 hts) ha
    exact ⟨Or.inl ha, htakes⟩
  | group ha => exact (readers.group ((Token.named_cons rfl).1 hts) ha).imp_left (Or.inl ∘ Or.inl)

/-- What is called, be it a function or closed, is closed with its operands. -/
theorem isClosed_call {bs : List Phrase} (ha : a.Heads (.mark .opening :: ts)) (hbs : allClosed bs = true) :
    (call a bs).isClosed = true := by
  rw [Phrase.isClosed, hbs, Bool.and_true, Bool.or_eq_true]
  rcases ha with (hclosed | ⟨f, -, hf⟩) | hfunction
  · exact Or.inr hclosed
  · cases hf
  · exact Or.inl hfunction.1

theorem following_takes (readers : Readers fuel) (ha : a.Heads ts) (hts : Named ts)
    (h : Phrase.following (fuel + 1) level a ts = some (p, rest)) :
    p.Ends rest ∧ Takes (a.freeNames ++ Token.freeNames ts) p.freeNames rest := by
  cases following_reading h with
  | ends hhead => exact ⟨ha.ends hhead, hts, rfl⟩
  | @call us mid _ bs _ hbs hp =>
    obtain ⟨hbs, htakes⟩ := readers.operands ((Token.named_cons rfl).1 hts) hbs
    obtain ⟨hp, htakes'⟩ := readers.following (Or.inl (Or.inl (isClosed_call ha hbs))) htakes.named hp
    rw [Token.freeNames_cons rfl, htakes.eq_append, ← List.append_assoc]
    exact ⟨hp, htakes'⟩
  | @binary m op own right us mid _ b _ hm hb hp =>
    have hopening : m ≠ .opening := by
      rintro rfl
      cases hm
    have hclosed : a.isClosed = true := ha.isClosed (breaks_mark hopening us)
    obtain ⟨hb, htakes⟩ := readers.expression ((Token.named_cons rfl).1 hts) hb
    have hbinary : (Phrase.binary op a b).Ends mid := hb.imp fun hb => by rw [Phrase.isClosed, hclosed, hb]; rfl
    obtain ⟨hp, htakes'⟩ := readers.following (Or.inl hbinary) htakes.named hp
    rw [Token.freeNames_cons rfl, htakes.eq_append, ← List.append_assoc]
    exact ⟨hp, htakes'⟩
  | and => exact absurd hts (not_named_of_isKeyword (by decide))
  | or => exact absurd hts (not_named_of_isKeyword (by decide))
  | conditional => exact absurd hts (not_named_of_isKeyword (by decide))

theorem item_takes {starred : Nat} (readers : Readers fuel) (hts : Named ts)
    (h : Phrase.item (fuel + 1) starred ts = some (p, rest)) :
    p.Ends rest ∧ Takes (Token.freeNames ts) p.freeNames rest := by
  cases item_reading h with
  | star ha =>
    obtain ⟨ha, htakes⟩ := readers.expression ((Token.named_cons rfl).1 hts) ha
    exact ⟨ha, htakes⟩
  | plain ha => exact readers.expression hts ha

theorem group_takes (readers : Readers fuel) (hts : Named ts) (h : Phrase.group (fuel + 1) ts = some (p, rest)) :
    p.isClosed = true ∧ Takes (Token.freeNames ts) p.freeNames rest := by
  cases group_reading h with
  | empty => exact ⟨rfl, (Token.named_cons rfl).1 hts, rfl⟩
  | alone ha =>
    obtain ⟨ha, htakes⟩ := readers.item hts ha
    rw [htakes.eq_append]
    exact ⟨ha.isClosed (breaks_closing _), (Token.named_cons rfl).1 htakes.named, rfl⟩
  | tuple ha hbs =>
    obtain ⟨ha, htakes⟩ := readers.item hts ha
    obtain ⟨hbs, htakes'⟩ := readers.operands ((Token.named_cons rfl).1 htakes.named) hbs
    refine ⟨by rw [Phrase.isClosed, allClosed, ha.isClosed (breaks_comma _), hbs]; rfl, htakes'.named, ?_⟩
    rw [htakes.eq_append, Token.freeNames_cons rfl, htakes'.eq_append, freeNames, allFreeNames, List.append_assoc]

theorem operands_takes {starred : Nat} {ps : List Phrase} (readers : Readers fuel) (hts : Named ts)
    (h : Phrase.operands (fuel + 1) starred ts = some (ps, rest)) :
    allClosed ps = true ∧ Takes (Token.freeNames ts) (allFreeNames ps) rest := by
  cases operands_reading h with
  | nil => exact ⟨rfl, (Token.named_cons rfl).1 hts, rfl⟩
  | last ha =>
    obtain ⟨ha, htakes⟩ := readers.item hts ha
    refine ⟨by rw [allClosed, allClosed, ha.isClosed (breaks_closing _)]; rfl,
      (Token.named_cons rfl).1 htakes.named, ?_⟩
    rw [htakes.eq_append, Token.freeNames_cons rfl, allFreeNames, allFreeNames, List.append_nil]
  | cons ha hbs =>
    obtain ⟨ha, htakes⟩ := readers.item hts ha
    obtain ⟨hbs, htakes'⟩ := readers.operands ((Token.named_cons rfl).1 htakes.named) hbs
    refine ⟨by rw [allClosed, ha.isClosed (breaks_comma _), hbs]; rfl, htakes'.named, ?_⟩
    rw [htakes.eq_append, Token.freeNames_cons rfl, htakes'.eq_append, allFreeNames, List.append_assoc]

end

/-- **The readers take the names of what they read.** -/
theorem readers : ∀ fuel, Readers fuel
  | 0 => readers_zero
  | fuel + 1 =>
    { expression := expression_takes (readers fuel)
      operand := operand_takes (readers fuel)
      following := following_takes (readers fuel)
      item := item_takes (readers fuel)
      group := group_takes (readers fuel)
      operands := operands_takes (readers fuel) }

/-! ## Lines -/

theorem items_takes : ∀ {fuel : Nat} {ts : List Token} {ps : List Phrase} {ends : Bool}, Named ts →
    items fuel ts = some (ps, ends) → allClosed ps = true ∧ Token.freeNames ts = allFreeNames ps
  | 0, _, _, _, _, h => by
    rw [items] at h
    cases h
  | fuel + 1, ts, ps, ends, hts, h => by
    have hone : ∀ {a : Phrase}, a.isClosed = true → allClosed [a] = true ∧ a.freeNames ++ [] = allFreeNames [a] :=
      fun ha => ⟨by rw [allClosed, allClosed, ha]; rfl, rfl⟩
    cases items_reading h with
    | last ha =>
      obtain ⟨ha, htakes⟩ := (readers fuel).item hts ha
      rw [htakes.eq_append]
      exact hone (ha.isClosed breaks_nil)
    | comma ha =>
      obtain ⟨ha, htakes⟩ := (readers fuel).item hts ha
      rw [htakes.eq_append]
      exact hone (ha.isClosed (breaks_comma _))
    | cons ha hbs =>
      obtain ⟨ha, htakes⟩ := (readers fuel).item hts ha
      obtain ⟨hbs, hnames⟩ := items_takes ((Token.named_cons rfl).1 htakes.named) hbs
      rw [htakes.eq_append, Token.freeNames_cons rfl, hnames, allFreeNames]
      exact ⟨by rw [allClosed, ha.isClosed (breaks_comma _), hbs]; rfl, rfl⟩

theorem ofLine_freeNames {ts : List Token} {p : Phrase} (hts : Named ts) (h : ofLine ts = some p) :
    p.isClosed = true ∧ p.freeNames = Token.freeNames ts := by
  obtain ⟨us, rfl | rfl, hread⟩ := ofLine_reading h
  · cases hread with
    | alone ha =>
      obtain ⟨hclosed, hnames⟩ := items_takes hts ha
      rw [allClosed, allClosed, Bool.and_true] at hclosed
      exact ⟨hclosed, by rw [hnames, allFreeNames, allFreeNames, List.append_nil]⟩
    | tuple hps =>
      obtain ⟨hclosed, hnames⟩ := items_takes hts hps
      exact ⟨hclosed, hnames.symm⟩
  · exact absurd hts (not_named_of_isKeyword (by decide))

/-- A line ends where no call is torn apart. -/
theorem named_of_mem_lines {ts l : List Token} (hts : Named ts) (hl : l ∈ lines ts) : Named l := by
  obtain ⟨before, after, hsplit⟩ := List.append_of_mem (List.mem_of_mem_filter hl)
  have hchain := List.isChain_getLast_head_splitBy (fun a b : Token => a ≠ .lineEnd && b ≠ .lineEnd) ts
  rw [← List.flatten_splitBy (fun a b => a ≠ .lineEnd && b ≠ .lineEnd) ts, hsplit, List.flatten_append,
    List.flatten_cons] at hts
  rw [hsplit] at hchain
  replace hts := hts.of_append_right
  replace hchain := hchain.right_of_append
  cases after with
  | nil => rwa [List.flatten_nil, List.append_nil] at hts
  | cons m after =>
    obtain ⟨hne, hne', hbreak⟩ := hchain.rel
    rw [Bool.and_eq_false_iff, decide_eq_false_iff_not, not_not, decide_eq_false_iff_not, not_not] at hbreak
    rcases hbreak with hlast | hhead
    · rw [← List.append_nil l]
      have hget : l.getLast? = some .lineEnd := by rw [List.getLast?_eq_some_getLast hne, hlast]
      exact .replace (show Named [] from trivial) hts (fun s hs => by rw [hget] at hs; cases hs)
        fun s hs => by rw [hget] at hs; cases hs
    · refine hts.before fun t ht => ?_
      obtain ⟨u, m, rfl⟩ := List.exists_cons_of_ne_nil hne'
      obtain rfl := Option.some.inj ht
      rw [show u = .lineEnd from hhead]
      exact ⟨by decide, rfl⟩

theorem exists_line_of_ofTokens {ts : List Token} {p : Phrase} (h : ofTokens ts = some p) :
    ∃ l ∈ lines ts, ofLine l = some p := by
  unfold ofTokens at h
  split at h
  · cases h
  · rename_i l ls hlines
    obtain ⟨first, hfirst, hrest⟩ := Option.bind_eq_some_iff.1 h
    have heq : first = p := by
      revert hrest
      cases first.isStar
      · intro hrest
        obtain ⟨_, -, hpure⟩ := Option.bind_eq_some_iff.1 hrest
        exact Option.some.inj hpure
      · exact fun hrest => by cases hrest
    exact ⟨l, by rw [hlines]; exact List.mem_cons_self, heq ▸ hfirst⟩

/-- **The phrase of a text is closed.** -/
theorem ofTokens_isClosed {ts : List Token} {p : Phrase} (hts : Named ts) (h : ofTokens ts = some p) :
    p.isClosed = true := by
  obtain ⟨l, hl, hline⟩ := exists_line_of_ofTokens h
  exact (ofLine_freeNames (named_of_mem_lines hts hl) hline).1

/-- **The phrase of one line has the names of its tokens.** -/
theorem ofTokens_freeNames {ts : List Token} {p : Phrase} (hts : Named ts) (hline : ∀ t ∈ ts, t ≠ .lineEnd)
    (h : ofTokens ts = some p) : p.freeNames = Token.freeNames ts := by
  have hne : ts ≠ [] := by
    rintro rfl
    cases h
  obtain ⟨l, hl, hread⟩ := exists_line_of_ofTokens h
  rw [lines_eq_singleton hne hline, List.mem_singleton] at hl
  subst hl
  exact (ofLine_freeNames hts hread).2

end Phrase

end Heightfield.Formula
