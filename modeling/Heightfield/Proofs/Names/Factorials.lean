import Heightfield.Proofs.Names.Tokens
/-!
# Factorial marks move no name

A factorial mark becomes a call around what stands before it.  A function that ends up before the call keeps its
parenthesis, because a group is wrapped together with the function that stands before it, and the call itself is a
function before its parenthesis.  So the tokens of a plain text, factorial marks resolved, have its names
(`Token.tokens_named`).
-/
namespace Heightfield.Formula

namespace Token

/-! ## The operand of a mark -/

/-- The operand of a factorial mark and what stands before it are what has been read, but for a blank.  When the
operand begins with a parenthesis, no function stands before it. -/
def SplitsInto (before operand rest : List Token) : Prop :=
  operand ++ rest = before ∧
    (operand.getLast? = some (mark .opening) → ∀ s, rest.head? = some (name s) → isReserved s = false)

section
variable {operand rest before ts : List Token}

theorem splitsInto_withName (operand rest : List Token) :
    SplitsInto (operand ++ rest) (withName operand rest).1 (withName operand rest).2 := by
  unfold withName
  split
  · rename_i s rest
    split
    · refine ⟨by rw [List.append_assoc, List.singleton_append], fun hopening => ?_⟩
      rw [List.getLast?_concat] at hopening
      cases hopening
    · rename_i hreserved
      refine ⟨rfl, fun _ u hu => ?_⟩
      cases hu
      exact Bool.eq_false_iff.2 hreserved
  · rename_i hname
    refine ⟨rfl, fun _ s hs => ?_⟩
    obtain ⟨r, hr⟩ := List.head?_eq_some_iff.1 hs
    exact absurd hr (hname s r)

theorem append_of_group? : ∀ {before : List Token} {depth : Nat} {g rest : List Token},
    group? depth before = some (g, rest) → g ++ rest = before
  | [], _, _, _, h => by
    rw [group?] at h
    cases h
  | t :: before, depth, g, rest, h => by
    rw [group?] at h
    split at h
    · rename_i ht
      cases h
      rfl
    · obtain ⟨⟨g', rest'⟩, hgroup, heq⟩ := Option.map_eq_some_iff.1 h
      cases heq
      exact congrArg (t :: ·) (append_of_group? hgroup)

theorem splitsInto_of_factorialOperand? (h : factorialOperand? before = some (operand, rest)) :
    ∃ blank, (∀ t ∈ blank, t = mark .gap) ∧ ∃ read, before = blank ++ read ∧ SplitsInto read operand rest := by
  have halone : ∀ {t : Token} {rest : List Token}, t ≠ mark .opening → SplitsInto (t :: rest) [t] rest :=
    fun ht => ⟨rfl, fun hopening => absurd (Option.some.inj hopening) ht⟩
  unfold factorialOperand? at h
  split at h
  · obtain ⟨⟨g, rest'⟩, hgroup, heq⟩ := Option.map_eq_some_iff.1 h
    have hsplits := splitsInto_withName (mark .closing :: g) rest'
    rw [show withName (mark .closing :: g) rest' = (operand, rest) from heq] at hsplits
    rw [← append_of_group? hgroup]
    exact ⟨[], nofun, _, rfl, hsplits⟩
  · cases h
    exact ⟨[], nofun, _, rfl, halone nofun⟩
  · cases h
    exact ⟨[], nofun, _, rfl, halone nofun⟩
  · rename_i s rest'
    split at h
    · have hsplits := splitsInto_withName [name s] rest'
      rw [Option.some.inj h] at hsplits
      exact ⟨[], nofun, _, rfl, hsplits⟩
    · cases h
      exact ⟨[], nofun, _, rfl, halone nofun⟩
  · rename_i rest'
    have hsplits := splitsInto_withName [mark .ellipsis] rest'
    rw [Option.some.inj h] at hsplits
    exact ⟨[], nofun, _, rfl, hsplits⟩
  · rename_i rest'
    have hsplits := splitsInto_withName [] rest'
    rw [Option.some.inj h] at hsplits
    exact ⟨[mark .gap], List.forall_mem_singleton.2 rfl, _, rfl, hsplits⟩
  · cases h

/-! ## Calls around operands -/

/-- Neither the operand of a mark nor what stands before it is torn from a parenthesis, and a function can come in
between. -/
theorem named_of_splitsInto (h : SplitsInto before operand rest) (hnamed : Named (before.reverse ++ ts)) (hts : Breaks ts) :
    Named operand.reverse ∧ ∀ us, Named us → BeginsWithCall us → Named (rest.reverse ++ us) := by
  obtain ⟨rfl, hopening⟩ := h
  rw [List.reverse_append, List.append_assoc] at hnamed
  refine ⟨hnamed.of_append_right.before hts, fun us hus hcall =>
    .replace hus hnamed (fun s hs hhead hmem => ?_) fun _ _ => hcall⟩
  have hreserved := isReserved_of_mem_callNames s hmem
  rw [List.getLast?_reverse] at hs
  rw [List.head?_append, List.head?_reverse] at hhead
  cases hlast : operand.getLast? with
  | none =>
    rw [hlast, Option.none_or] at hhead
    exact hts.head_ne hhead
  | some t =>
    rw [hlast, Option.some_or] at hhead
    rw [hopening (hlast.trans hhead) s hs] at hreserved
    cases hreserved

/-- Around an operand a call is put, and nothing else changes. -/
theorem wrapped_named {f : String} (hf : f ∈ callNames) {before' : List Token} (h : wrapped f before = some before')
    (hnamed : Named (before.reverse ++ ts)) (hts : Breaks ts) :
    Named before'.reverse ∧ freeNames before'.reverse = freeNames before.reverse := by
  obtain ⟨⟨operand, rest⟩, hoperand, rfl⟩ := Option.map_eq_some_iff.1 h
  obtain ⟨blank, hblank, read, rfl, hsplits⟩ := splitsInto_of_factorialOperand? hoperand
  obtain ⟨-, hgap⟩ := named_of_forall fun t (ht : t ∈ blank.reverse) => by
    rw [hblank t (List.mem_reverse.1 ht)]
    rfl
  rw [List.reverse_append, List.append_assoc] at hnamed
  have hbreaks : Breaks (blank.reverse ++ ts) := by
    cases hb : blank.reverse with
    | nil => exact hts
    | cons t _ =>
      intro u hu
      obtain rfl := Option.some.inj hu
      rw [hblank t (by rw [← List.mem_reverse, hb]; exact List.mem_cons_self)]
      exact ⟨by decide, rfl⟩
  obtain ⟨hoperand', hrest⟩ := named_of_splitsInto hsplits hnamed hbreaks
  have hreverse : (mark .closing :: operand ++ mark .opening :: name f :: rest).reverse =
      rest.reverse ++ ([name f, mark .opening] ++ (operand.reverse ++ [mark .closing])) := by
    simp
  have hreserved := isReserved_of_mem_callNames f hf
  constructor
  · rw [hreverse]
    exact hrest _ (.append ⟨Or.inr ⟨hf, rfl⟩, trivial⟩ (hoperand'.append trivial)) ⟨f, hf, rfl⟩
  · have hopening : freeNames [name f, mark .opening] = [] := by rw [freeNames_name, hreserved]; rfl
    have hclosing : freeNames [mark .closing] = [] := rfl
    rw [hreverse, ← hsplits.1]
    simp only [freeNames_append, List.reverse_append, hgap, hopening, hclosing, List.nil_append, List.append_nil]

theorem breaks_bang (n : Nat) (ts : List Token) : Breaks (List.replicate (n + 1) (mark .bang) ++ ts) := fun t ht => by
  obtain rfl := Option.some.inj ht
  exact ⟨by decide, rfl⟩

theorem breaks_gap (ts : List Token) : Breaks (mark .gap :: ts) := fun t ht => by
  obtain rfl := Option.some.inj ht
  exact ⟨by decide, rfl⟩

/-- The marks in a row behind what has been read. -/
theorem afterMarks_named {n : Nat} {before' : List Token} (h : afterMarks n before = some before')
    (hnamed : Named (before.reverse ++ (List.replicate n (mark .bang) ++ ts))) :
    Named (before'.reverse ++ ts) ∧ freeNames before'.reverse = freeNames before.reverse := by
  have hts : Named ts := hnamed.of_append_right.of_append_right
  unfold afterMarks at h
  split at h
  · cases h
    exact ⟨hnamed, rfl⟩
  · obtain ⟨hbefore, hvariables⟩ := wrapped_named (by decide) h hnamed (breaks_bang _ ts)
    exact ⟨hbefore.append hts, hvariables⟩
  · obtain ⟨hbefore, hvariables⟩ := wrapped_named (by decide) h hnamed (breaks_bang _ ts)
    exact ⟨hbefore.append hts, hvariables⟩
  · cases h

/-- **Resolving the factorial marks moves no name.** -/
theorem resolveFactorials_named : ∀ (ts before : List Token) (n : Nat) {ts' : List Token},
    Named (before.reverse ++ (List.replicate n (mark .bang) ++ ts)) → resolveFactorials before n ts = some ts' →
      Named ts' ∧ freeNames ts' = freeNames before.reverse ++ freeNames ts
  | [], before, n, ts', hnamed, h => by
    rw [resolveFactorials] at h
    obtain ⟨before', hbefore, rfl⟩ := Option.map_eq_some_iff.1 h
    obtain ⟨hnamed', hvariables⟩ := afterMarks_named hbefore hnamed
    rw [List.append_nil] at hnamed'
    exact ⟨hnamed', by rw [hvariables, show freeNames [] = [] from rfl, List.append_nil]⟩
  | t :: ts, before, n, ts', hnamed, h => by
    -- what is read, the marks in a row and the rest are named together, whichever of them `t` joins
    by_cases hbang : t = mark .bang
    · subst hbang
      rw [resolveFactorials] at h
      refine resolveFactorials_named ts before (n + 1) ?_ h
      rwa [List.replicate_succ', List.append_assoc]
    by_cases hgap : t = mark .gap
    · subst hgap
      rw [resolveFactorials] at h
      have hbefore : Named before.reverse := hnamed.before (by
        cases n with
        | zero => exact breaks_gap ts
        | succ n => exact breaks_bang n _)
      have hts : Named ts := hnamed.of_append_right.of_append_right
      obtain ⟨hnamed', hvariables⟩ := resolveFactorials_named ts (mark .gap :: before) 0
        (by rw [List.reverse_cons, List.append_assoc]; exact hbefore.append hts) h
      refine ⟨hnamed', ?_⟩
      rw [hvariables, List.reverse_cons, freeNames_append, freeNames_cons rfl, List.append_assoc]
      rfl
    · rw [resolveFactorials] at h
      · obtain ⟨before', hbefore, hrest⟩ := Option.bind_eq_some_iff.1 h
        obtain ⟨hnamed', hvariables⟩ := afterMarks_named hbefore hnamed
        obtain ⟨hnamed'', hvariables'⟩ := resolveFactorials_named ts (t :: before') 0
          (by rw [List.reverse_cons, List.append_assoc]; exact hnamed') hrest
        refine ⟨hnamed'', ?_⟩
        rw [hvariables', List.reverse_cons, freeNames_append, hvariables, List.append_assoc, ← freeNames_append]
        rfl
      · exact hbang
      · exact hgap

/-! ## Blanks -/

theorem filter_named : ∀ {ts : List Token}, Named ts →
    Named (ts.filter (· ≠ mark .gap)) ∧ freeNames (ts.filter (· ≠ mark .gap)) = freeNames ts
  | [], _ => ⟨trivial, rfl⟩
  | t :: ts, h => by
    cases ht : t.isName with
    | false =>
      obtain ⟨hnamed, hvariables⟩ := filter_named ((named_cons ht).1 h)
      by_cases hgap : t = mark .gap
      · subst hgap
        exact ⟨hnamed, hvariables⟩
      · rw [List.filter_cons_of_pos (by simpa using hgap), freeNames_cons ht, freeNames_cons ht]
        exact ⟨(named_cons ht).2 hnamed, hvariables⟩
    | true =>
      cases t with
      | name s =>
        obtain ⟨hnamed, hvariables⟩ := filter_named h.2
        rw [List.filter_cons_of_pos rfl, freeNames_name, freeNames_name, hvariables]
        refine ⟨⟨h.1.imp_right fun hcall => ⟨hcall.1, ?_⟩, hnamed⟩, rfl⟩
        obtain ⟨us, rfl⟩ := List.head?_eq_some_iff.1 hcall.2
        rfl
      | undefined s =>
        obtain ⟨hnamed, hvariables⟩ := filter_named h.2
        rw [List.filter_cons_of_pos rfl]
        refine ⟨⟨h.1.imp ?_ ?_, hnamed⟩, hvariables⟩
        · rintro hopening
          obtain ⟨us, rfl⟩ := List.head?_eq_some_iff.1 hopening
          rfl
        · rintro ⟨f, hf, hcall⟩
          obtain ⟨us, rfl⟩ := List.head?_eq_some_iff.1 hcall
          exact ⟨f, hf, rfl⟩
      | _ => cases ht

end

/-- **The tokens of a plain text have its names**: without an underscore their variables are its variable letters. -/
theorem tokens_named {s : List Char} {ts : List Token} (h : Plain s) (hts : tokens s = some ts) :
    Named ts ∧ ('_' ∉ s → freeNames ts = (variableLetters s).map String.singleton) := by
  obtain ⟨resolved, hresolved, rfl⟩ := Option.map_eq_some_iff.1 hts
  obtain ⟨scanned, hscanned, hresolve⟩ := Option.bind_eq_some_iff.1 hresolved
  obtain ⟨hnamed, hvariables⟩ := scan_tells h hscanned
  obtain ⟨hnamed', hvariables'⟩ := resolveFactorials_named scanned [] 0 hnamed hresolve
  obtain ⟨hnamed'', hvariables''⟩ := filter_named hnamed'
  exact ⟨hnamed'', fun hunderscore => by rw [hvariables'', hvariables', hvariables hunderscore]; rfl⟩

end Token

end Heightfield.Formula
