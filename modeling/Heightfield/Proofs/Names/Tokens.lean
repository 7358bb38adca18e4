import Heightfield.Proofs.Formula.Dialect
import Heightfield.Proofs.Names.Spelling
/-!
# The names among the tokens

A spelled text is cut into tokens whose names are those it spells: a function stands before its parenthesis, and
every other name is a word or has an underscore (`Token.Named`).  So the variables among the tokens are the variable
letters of the text, if it has no underscore (`Token.scan_tells`).
-/
namespace Heightfield.Formula

open Juxtaposition (isAlphanumeric_of_mem_functionNames head_of_mem_functionNames)

namespace Token

/-! ## Names that are called and names that are not -/

/-- The functions that the tokens of a text can call. -/
def callNames : List String := "factorial2" :: functionNames

theorem isReserved_of_mem_callNames : ∀ f ∈ callNames, isReserved f = true := by decide

def isName : Token → Bool
  | name _ | undefined _ => true
  | _ => false

/-- The name is one of a number or a variable: a word, or a name with an underscore. -/
def standsAlone (s : String) : Bool := isWord s || s.toList.contains '_'

theorem standsAlone_of_isWord {w : String} (h : isWord w = true) : standsAlone w = true := by
  rw [standsAlone, h, Bool.true_or]

theorem isReserved_of_underscore {s : String} (h : '_' ∈ s.toList) : isReserved s = false := by
  have hkeywords : ∀ k ∈ keywords, '_' ∉ k.toList := by decide
  have hcallees : ∀ x ∈ callees, '_' ∉ x.1.toList := by decide
  have hconstants : ∀ x ∈ constants, '_' ∉ x.1.toList := by decide
  have hkeyword : isKeyword s = false := by
    rw [isKeyword, ← Bool.not_eq_true, List.contains_iff_mem]
    exact fun hs => hkeywords s hs h
  have hcallee : (callee? s).isSome = false := by
    rw [callee?, Option.isSome_map, ← Bool.not_eq_true, List.find?_isSome]
    rintro ⟨x, hx, heq⟩
    exact hcallees x hx (by rwa [of_decide_eq_true heq])
  have hconstant : (constant? s).isSome = false := by
    rw [constant?, Option.isSome_map, ← Bool.not_eq_true, List.find?_isSome]
    rintro ⟨x, hx, heq⟩
    exact hconstants x hx (by rwa [of_decide_eq_true heq])
  rw [isReserved, hkeyword, hcallee, hconstant]
  rfl

/-- A function stands at the beginning. -/
def BeginsWithCall (ts : List Token) : Prop := ∃ f ∈ callNames, ts.head? = some (name f)

/-- Each name stands alone, or is a function before a parenthesis.  A name nobody defined stands before its parenthesis
too, unless a function has come in between. -/
def Named : List Token → Prop
  | [] => True
  | name s :: ts => (standsAlone s = true ∨ s ∈ callNames ∧ ts.head? = some (mark .opening)) ∧ Named ts
  | undefined _ :: ts => (ts.head? = some (mark .opening) ∨ BeginsWithCall ts) ∧ Named ts
  | _ :: ts => Named ts

/-- Neither a parenthesis nor a name stands at the beginning. -/
def Breaks (ts : List Token) : Prop := ∀ t ∈ ts.head?, t ≠ mark .opening ∧ t.isName = false

theorem Breaks.head_ne {ts : List Token} (h : Breaks ts) : ts.head? ≠ some (mark .opening) := fun hopening =>
  (h _ hopening).1 rfl

theorem Breaks.not_beginsWithCall {ts : List Token} (h : Breaks ts) : ¬BeginsWithCall ts := by
  rintro ⟨f, -, hf⟩
  cases (h _ hf).2

/-- The name, unless its meaning is fixed. -/
def freeName? : Token → Option String
  | name s => if isReserved s then none else some s
  | _ => none

/-- The names without a fixed meaning, from left to right. -/
def freeNames (ts : List Token) : List String := ts.filterMap freeName?

section
variable {t : Token} {l r ts : List Token}

theorem isNameChar_of_isNameStart {c : Char} (h : isNameStart c = true) : isNameChar c = true := by
  rw [isNameStart, Bool.or_eq_true] at h
  rw [isNameChar, Bool.or_eq_true]
  exact h.imp_left isAlphanumeric_of_isLetter

theorem freeNames_append (l r : List Token) : freeNames (l ++ r) = freeNames l ++ freeNames r := List.filterMap_append

theorem freeNames_cons (ht : t.isName = false) (ts : List Token) : freeNames (t :: ts) = freeNames ts := by
  cases t with
  | name s => cases ht
  | _ => rfl

theorem freeNames_name (s : String) (ts : List Token) :
    freeNames (name s :: ts) = if isReserved s then freeNames ts else s :: freeNames ts := by
  rw [freeNames, List.filterMap_cons, freeName?]
  cases isReserved s <;> rfl

theorem named_cons (ht : t.isName = false) : Named (t :: ts) ↔ Named ts := by
  cases t with
  | name s => cases ht
  | undefined s => cases ht
  | _ => exact Iff.rfl

theorem named_of_forall : ∀ {ts : List Token}, (∀ t ∈ ts, t.isName = false) → Named ts ∧ freeNames ts = []
  | [], _ => ⟨trivial, rfl⟩
  | t :: ts, h => by
    have ht := h t List.mem_cons_self
    obtain ⟨hnamed, hvariables⟩ := named_of_forall fun u hu => h u (List.mem_cons_of_mem t hu)
    exact ⟨(named_cons ht).2 hnamed, by rw [freeNames_cons ht, hvariables]⟩

namespace Named

theorem append : ∀ {l : List Token}, Named l → Named r → Named (l ++ r)
  | [], _, hr => hr
  | t :: l, hl, hr => by
    cases t with
    | name s =>
      refine ⟨hl.1.imp_right fun hcall => ⟨hcall.1, ?_⟩, append hl.2 hr⟩
      cases l with
      | nil => cases hcall.2
      | cons u l => exact hcall.2
    | undefined s =>
      refine ⟨?_, append hl.2 hr⟩
      cases l with
      | nil =>
        rcases hl.1 with hopening | ⟨f, -, hf⟩
        · cases hopening
        · cases hf
      | cons u l => exact hl.1
    | _ => exact append (l := l) hl hr

theorem of_append_right : ∀ {l : List Token}, Named (l ++ r) → Named r
  | [], h => h
  | t :: l, h => by
    cases t with
    | name s => exact of_append_right h.2
    | undefined s => exact of_append_right h.2
    | _ => exact of_append_right (l := l) h

/-- At a place where no call is torn apart something else can follow, if it suits a name nobody defined. -/
theorem replace {r' : List Token} (hr' : Named r') : ∀ {l : List Token}, Named (l ++ r) →
    (∀ s, l.getLast? = some (name s) → r.head? = some (mark .opening) → s ∉ callNames) →
    (∀ s, l.getLast? = some (undefined s) → BeginsWithCall r') → Named (l ++ r')
  | [], _, _, _ => hr'
  | t :: l, h, hname, hundefined => by
    have hname' : ∀ s, l.getLast? = some (name s) → r.head? = some (mark .opening) → s ∉ callNames := fun s hs =>
      hname s (by rw [List.getLast?_cons, hs]; rfl)
    have hundefined' : ∀ s, l.getLast? = some (undefined s) → BeginsWithCall r' := fun s hs =>
      hundefined s (by rw [List.getLast?_cons, hs]; rfl)
    cases t with
    | name s =>
      refine ⟨h.1.imp_right fun hcall => ⟨hcall.1, ?_⟩, replace hr' h.2 hname' hundefined'⟩
      cases l with
      | nil => exact absurd hcall.1 (hname s rfl hcall.2)
      | cons u l => exact hcall.2
    | undefined s =>
      refine ⟨?_, replace hr' h.2 hname' hundefined'⟩
      cases l with
      | nil => exact Or.inr (hundefined s rfl)
      | cons u l => exact h.1
    | _ => exact replace hr' (l := l) h hname' hundefined'

/-- What stands before neither a parenthesis nor a name. -/
theorem before (h : Named (l ++ r)) (hr : Breaks r) : Named l := by
  rw [← List.append_nil l]
  refine replace (r := r) (show Named [] from trivial) h (fun _ _ hopening => absurd hopening hr.head_ne) fun s hs => ?_
  obtain ⟨l, rfl⟩ := List.getLast?_eq_some_iff.1 hs
  rw [List.append_assoc] at h
  exact (h.of_append_right.1.elim hr.head_ne hr.not_beginsWithCall).elim

end Named

end

/-! ## Texts that are cut -/

/-- A spelled text with no point before a name. -/
structure Plain (s : List Char) : Prop where
  spelled : Spelled s
  clean : Clean s

/-- The text `r` stands in `s` behind characters that are no letters. -/
def Passes (s r : List Char) : Prop := ∃ l, s = l ++ r ∧ ∀ d ∈ l, isLetter d = false

section
variable {c : Char} {l s r u : List Char}

theorem Passes.cons (hc : isLetter c = false) (s : List Char) : Passes (c :: s) s :=
  ⟨[c], rfl, List.forall_mem_singleton.2 hc⟩

theorem Passes.trans : Passes s r → Passes r u → Passes s u := by
  rintro ⟨l, rfl, hl⟩ ⟨l', rfl, hl'⟩
  exact ⟨l ++ l', (List.append_assoc l l' u).symm, List.forall_mem_append.2 ⟨hl, hl'⟩⟩

theorem Plain.of_append (h : Plain (l ++ s)) (hl : ∀ d ∈ l, isLetter d = false) : Plain s where
  spelled := (h.spelled.of_append hl).1
  clean u hu := h.clean u (hu.trans (List.suffix_append l s))

theorem Plain.of_name {w : List Char} (h : Plain (w ++ s)) (hs : Spelled s) : Plain s where
  spelled := hs
  clean u hu := h.clean u (hu.trans (List.suffix_append w s))

theorem Plain.head_of_point (h : Plain (l ++ '.' :: s)) : ∀ d ∈ s.head?, isLetter d = false := by
  have hforbidden := h.clean ('.' :: s) (List.suffix_append l _)
  cases s with
  | nil => exact nofun
  | cons d s =>
    intro e he
    obtain rfl := Option.some.inj he
    refine Bool.eq_false_iff.2 fun hd => ?_
    have hblank : isBlank d = false := isBlank_eq_false_of_isAlphanumeric (isAlphanumeric_of_isLetter hd)
    have hdrop : (d :: s).dropWhile isBlank = d :: s :=
      List.dropWhile_cons_of_neg (by rw [hblank]; exact Bool.false_ne_true)
    rw [forbidden?] at hforbidden
    simp only [hdrop, isNameStart, hd, Bool.true_or, if_true] at hforbidden
    cases hforbidden

/-! ## Numbers -/

/-- A run of digits ends behind a digit, or it is empty. -/
theorem passes_digitRun (s : List Char) : (Reading.digitRun s).2 = s ∨
    ∃ l d, s = l ++ d :: (Reading.digitRun s).2 ∧ (∀ e ∈ l, isLetter e = false) ∧ isDigit d = true := by
  have hcons : ∀ {p t r : List Char} {c : Char}, (∀ e ∈ p, isLetter e = false) → isDigit c = true →
      (r = t ∨ ∃ l d, t = l ++ d :: r ∧ (∀ e ∈ l, isLetter e = false) ∧ isDigit d = true) →
      ∃ l d, p ++ c :: t = l ++ d :: r ∧ (∀ e ∈ l, isLetter e = false) ∧ isDigit d = true := by
    rintro p t r c hp hc (rfl | ⟨l, d, rfl, hl, hd⟩)
    · exact ⟨p, c, rfl, hp, hc⟩
    · refine ⟨p ++ c :: l, d, by simp, ?_, hd⟩
      exact List.forall_mem_append.2 ⟨hp, List.forall_mem_cons.2 ⟨isLetter_eq_false_of_isDigit hc, hl⟩⟩
  fun_induction Reading.digitRun s with
  | case1 c s hc ds r hread ih =>
    rw [hread] at ih
    exact Or.inr (hcons (p := ['_']) (by decide) hc ih)
  | case2 c s hc => exact Or.inl rfl
  | case3 c s _ hc ds r hread ih =>
    rw [hread] at ih
    exact Or.inr (hcons (p := []) nofun hc ih)
  | case4 c s _ hc => exact Or.inl rfl
  | case5 => exact Or.inl rfl

/-- Digits that are read are no letters, and no letter stands behind them, if none stands there without them. -/
theorem digits?_plain (h : Plain s) (hs : ∀ d ∈ s.head?, isLetter d = false) :
    Passes s (Reading.digits? s).2 ∧ ∀ d ∈ (Reading.digits? s).2.head?, isLetter d = false := by
  have hnone : Passes s s ∧ ∀ d ∈ s.head?, isLetter d = false := ⟨⟨[], rfl, nofun⟩, hs⟩
  unfold Reading.digits?
  split
  · exact hnone
  · rcases passes_digitRun s with heq | ⟨l, d, hsplit, hl, hd⟩
    · rwa [heq]
    · have hspelled := h.spelled
      rw [hsplit] at hspelled
      refine ⟨⟨l ++ [d], by rwa [List.append_assoc], ?_⟩, hspelled.head_of_digit hl hd⟩
      exact List.forall_mem_append.2 ⟨hl, List.forall_mem_singleton.2 (isLetter_eq_false_of_isDigit hd)⟩

theorem exponent?_eq_none (h : ∀ d ∈ s.head?, isLetter d = false) : exponent? s = none := by
  cases s with
  | nil => rfl
  | cons d s =>
    have hd := h d rfl
    rw [exponent?, if_neg]
    rintro (rfl | rfl) <;> cases hd

theorem based?_eq_none (h : Plain s) : based? s = none := by
  unfold based?
  split
  · rename_i d r
    have hd : isLetter d = false := (h.spelled.of_cons (by decide)).2 (by decide) d rfl
    rw [base?, if_neg, if_neg, if_neg]
    · rfl
    all_goals
      rintro (rfl | rfl) <;> cases hd
  · rfl

/-- A fraction takes no letter, and no letter stands behind it. -/
theorem fraction?_plain (h : Plain s) : fraction? s = none ∨
    ∃ ds r, fraction? s = some (ds, r) ∧ Passes s r ∧ ∀ d ∈ r.head?, isLetter d = false := by
  unfold fraction?
  split
  · rename_i s
    obtain ⟨hpasses, hhead⟩ := digits?_plain (h.of_append (l := ['.']) (by decide)) (Plain.head_of_point (l := []) h)
    exact Or.inr ⟨_, _, rfl, (Passes.cons (by decide) s).trans hpasses, hhead⟩
  · exact Or.inl rfl

/-- A number without an exponent ends behind its digits. -/
theorem isName_of_decimal? {whole fraction r' : List Char} {isDecimal : Prop} [Decidable isDecimal] {t : Token}
    (h : (if startsImaginary r' then none
      else if isDecimal then some (decimal (Reading.digitsValue (whole ++ fraction)) (0 - fraction.length), r')
      else if whole.head? = some '0' ∧ Reading.digitsValue whole ≠ 0 then none
      else if whole.length > maxDigits then none
      else some (integer (Reading.digitsValue whole), r')) = some (t, r)) : t.isName = false ∧ r' = r := by
  split at h
  · cases h
  split at h
  · cases h
    exact ⟨rfl, rfl⟩
  split at h
  · cases h
  split at h
  · cases h
  · cases h
    exact ⟨rfl, rfl⟩

/-- **A number of a plain text takes no letter**, and is no name. -/
theorem number?_plain (h : Plain (c :: s)) (hc : isLetter c = false) {t : Token}
    (hn : number? (c :: s) = some (t, r)) :
    t.isName = false ∧ Passes (c :: s) r := by
  have hhead : ∀ d ∈ (c :: s).head?, isLetter d = false := fun d hd => by
    obtain rfl := Option.some.inj hd
    exact hc
  obtain ⟨hwhole, hr'⟩ := digits?_plain h hhead
  have hrest : Plain (Reading.digits? (c :: s)).2 := by
    obtain ⟨l, hl, hletters⟩ := hwhole
    exact Plain.of_append (l := l) (hl ▸ h) hletters
  rw [number?, based?_eq_none h] at hn
  rcases fraction?_plain hrest with hnone | ⟨fraction, r'', hsome, hpasses, hr''⟩
  · simp only [decimal?, hnone, exponent?_eq_none hr'] at hn
    obtain ⟨ht, rfl⟩ := isName_of_decimal? hn
    exact ⟨ht, hwhole⟩
  · simp only [decimal?, hsome, exponent?_eq_none hr''] at hn
    obtain ⟨ht, rfl⟩ := isName_of_decimal? hn
    exact ⟨ht, hwhole.trans hpasses⟩

/-! ## Marks -/

theorem isLetter_of_isSpace {d : Char} (h : isSpace d = true) : isLetter d = false :=
  Bool.eq_false_iff.2 fun hd => by
    rw [isSpace_eq_false_of_isAlphanumeric (isAlphanumeric_of_isLetter hd)] at h
    cases h

/-- Blanks and the mark behind them. -/
theorem passes_of_dropWhile {d : Char} (hd : isLetter d = false) (h : s.dropWhile isSpace = d :: r) : Passes s r := by
  have hblanks : Passes s (d :: r) :=
    ⟨s.takeWhile isSpace, by rw [← h, List.takeWhile_append_dropWhile], fun e he =>
      isLetter_of_isSpace (List.mem_takeWhile_imp he)⟩
  exact hblanks.trans (.cons hd r)

/-- **A mark takes no letter.** -/
theorem passes_of_mark? {m : Mark} (h : mark? s = some (m, r)) : Passes s r := by
  unfold mark? at h
  split at h
  iterate 8
    cases h
    exact .cons (by decide) _
  · split at h
    · rename_i hdrop
      cases h
      exact (Passes.cons (by decide) _).trans (passes_of_dropWhile (by decide) hdrop)
    · cases h
      exact .cons (by decide) _
  · split at h
    · rename_i hdrop
      cases h
      exact (Passes.cons (by decide) _).trans (passes_of_dropWhile (by decide) hdrop)
    · cases h
      exact .cons (by decide) _
  · split at h
    · rename_i hdrop
      split at h
      · rename_i hdrop'
        cases h
        exact (Passes.cons (by decide) _).trans
          ((passes_of_dropWhile (by decide) hdrop).trans (passes_of_dropWhile (by decide) hdrop'))
      · cases h
    · cases h
  · cases h

/-! ## Cutting -/

/-- With what is left of the fuel the tokens `ts` of `s` are those of a text that stands in `s` behind no letter, but
for some before them that are no names. -/
def CutsOff (fuel : Nat) (s : List Char) (ts : List Token) : Prop :=
  ∃ r depth us ts', Passes s r ∧ scan fuel depth r = some ts' ∧ ts = us ++ ts' ∧ ∀ u ∈ us, u.isName = false

theorem Passes.cutsOff {fuel depth : Nat} {ts : List Token} (h : Passes s r) (hscan : scan fuel depth r = some ts) :
    CutsOff fuel s ts := ⟨r, depth, [], ts, h, hscan, rfl, nofun⟩

theorem Passes.cutsOff_cons {fuel depth : Nat} {t : Token} {ts : List Token} (h : Passes s r) (ht : t.isName = false)
    (hscan : (scan fuel depth r).map (t :: ·) = some ts) : CutsOff fuel s ts := by
  obtain ⟨ts', hts', rfl⟩ := Option.map_eq_some_iff.1 hscan
  exact ⟨r, depth, [t], ts', h, hts', rfl, List.forall_mem_singleton.2 ht⟩

/-- **Where no name begins none is cut off**, and no letter is passed. -/
theorem cutsOff_of_scan (h : Plain (c :: s)) (hstart : isNameStart c = false) {fuel depth : Nat} {ts : List Token}
    (hscan : scan (fuel + 1) depth (c :: s) = some ts) : CutsOff fuel (c :: s) ts := by
  have hc : isLetter c = false := (Bool.or_eq_false_iff.1 hstart).1
  have hone := Passes.cons hc s
  rw [scan] at hscan
  split at hscan
  · exact hone.cutsOff_cons rfl hscan
  split at hscan
  · exact hone.cutsOff hscan
  split at hscan
  · split at hscan
    · exact hone.cutsOff hscan
    split at hscan
    · cases hscan
    · exact hone.cutsOff_cons rfl hscan
  split at hscan
  · split at hscan
    · exact hone.cutsOff hscan
    · exact hone.cutsOff_cons rfl hscan
  split at hscan
  · obtain ⟨⟨t, r⟩, hnumber, hrest⟩ := Option.bind_eq_some_iff.1 hscan
    obtain ⟨ht, hpasses⟩ := number?_plain h hc hnumber
    exact hpasses.cutsOff_cons ht hrest
  split at hscan
  · rename_i hname
    rw [hstart] at hname
    cases hname
  · obtain ⟨⟨m, r⟩, hmark, hrest⟩ := Option.bind_eq_some_iff.1 hscan
    exact (passes_of_mark? hmark).cutsOff_cons rfl hrest

/-- A function of the vocabulary is cut off before its parenthesis. -/
theorem ofName_call {f : String} (hf : f ∈ functionNames) : ofName f ('(' :: r) = name f := by
  rw [ofName, isReserved_of_mem_callNames f (List.mem_cons_of_mem _ hf)]
  simp

theorem ofName_word {w : String} (hr : (trimLeft r).head? ≠ some '(') : ofName w r = name w := by
  rw [ofName, if_neg]
  intro h
  obtain ⟨hhead, -⟩ := Bool.and_eq_true_iff.1 h
  obtain ⟨u, hu⟩ := List.head?_eq_some_iff.1 (of_decide_eq_true hhead)
  -- the blanks between tokens are blanks
  have hsplit := (List.takeWhile_append_dropWhile (p := isSpace) (l := r)).symm
  have hblank : ∀ d ∈ r.takeWhile isSpace, isBlank d = true := fun d hd => by
    have hspace := List.mem_takeWhile_imp hd
    simp only [isSpace, Bool.or_eq_true, decide_eq_true_eq] at hspace
    rcases hspace with (rfl | rfl) | rfl <;> decide
  rw [hsplit, trimLeft_append hblank, hu] at hr
  exact hr rfl

/-- A name with an underscore stands alone, unless nobody defined it and it stands before its parenthesis. -/
theorem ofName_underscore {w : List Char} (hw : '_' ∈ w) (r : List Char) :
    standsAlone (String.ofList w) = true ∧
      (ofName (String.ofList w) r = name (String.ofList w) ∨
        ofName (String.ofList w) r = undefined (String.ofList w) ∧ (r.dropWhile isSpace).head? = some '(') := by
  refine ⟨by rw [standsAlone, String.toList_ofList, List.contains_iff_mem.2 hw, Bool.or_true], ?_⟩
  unfold ofName
  split
  · rename_i h
    exact Or.inr ⟨rfl, of_decide_eq_true (Bool.and_eq_true_iff.1 h).1⟩
  · exact Or.inl rfl

/-- Behind a name that is not cut off further the text is spelled too. -/
theorem spelled_of_name {w : List Char} (h : Spelled (w ++ r)) (hw : ∀ d ∈ w, isNameChar d = true)
    (hr : ∀ d ∈ r.head?, isNameChar d = false) : Spelled r := by
  -- a name of the spelled text ends no later than `w`, because all of its characters are those of names
  have hends : ∀ {u v t : List Char}, u ++ r = v ++ t → (∀ d ∈ v, isNameChar d = true) → ∃ a, u = v ++ a ∧ t = a ++ r := by
    intro u v t heq hv
    rcases List.append_eq_append_iff.1 heq with ⟨a, rfl, hra⟩ | ⟨a, rfl, rfl⟩
    · cases a with
      | nil => exact ⟨[], by simp, by simpa using hra.symm⟩
      | cons d a =>
        have hd := hv d (List.mem_append_right _ List.mem_cons_self)
        rw [hr d (by rw [hra]; rfl)] at hd
        cases hd
    · exact ⟨a, rfl, rfl⟩
  generalize htext : w ++ r = t at h
  induction h generalizing w with
  | nil =>
    rw [(List.append_eq_nil_iff.1 htext).2]
    exact .nil
  | @call f s hf hs ih =>
    obtain ⟨a, rfl, ha⟩ := hends htext fun d hd => by
      rw [isNameChar, isAlphanumeric_of_mem_functionNames hf d hd, Bool.true_or]
    cases a with
    | nil =>
      rw [← show '(' :: s = r from ha]
      exact .other (by decide) (fun hdigit => absurd hdigit (by decide)) hs
    | cons d a => exact ih (fun e he => hw e (by simp [he])) (List.cons.inj ha).2.symm
  | @word v s hv _ _ hs ih =>
    obtain ⟨a, rfl, rfl⟩ := hends htext fun d hd => by
      rw [isNameChar, isAlphanumeric_of_isLetter ((isLetter_of_isWord hv).2 d hd), Bool.true_or]
    exact ih (fun e he => hw e (List.mem_append_right _ he)) rfl
  | @other c s hc hdigit hs ih =>
    cases w with
    | nil =>
      rw [show r = c :: s from htext]
      exact .other hc hdigit hs
    | cons d w => exact ih (fun e he => hw e (List.mem_cons_of_mem d he)) (List.cons.inj htext).2

/-- So is what stands behind a name that is cut off whole. -/
theorem Plain.dropWhile (h : Plain (c :: s)) (hstart : isNameStart c = true) : Plain (s.dropWhile isNameChar) := by
  have hchars : ∀ d ∈ c :: s.takeWhile isNameChar, isNameChar d = true :=
    List.forall_mem_cons.2 ⟨isNameChar_of_isNameStart hstart, fun d hd => List.mem_takeWhile_imp hd⟩
  have hrest : ∀ d ∈ (s.dropWhile isNameChar).head?, isNameChar d = false := fun d hd => by
    have hnot := List.head?_dropWhile_not isNameChar s
    rw [Option.mem_def.1 hd] at hnot
    simpa using hnot
  rw [← List.takeWhile_append_dropWhile (p := isNameChar) (l := s), ← List.cons_append] at h
  exact h.of_name (spelled_of_name h.spelled hchars hrest)

theorem isNameChar_eq_false (hs : endsName s = true) (hunderscore : '_' ∉ s.head?) : ∀ d ∈ s.head?, isNameChar d = false := by
  cases s with
  | nil => exact nofun
  | cons d s =>
    intro e he
    obtain rfl := Option.some.inj he
    rw [endsName, Bool.not_eq_true'] at hs
    rw [isNameChar, hs, Bool.false_or, decide_eq_false_iff_not]
    rintro rfl
    exact hunderscore rfl

theorem head?_scan_opening {fuel depth : Nat} {ts : List Token} (h : scan fuel depth ('(' :: s) = some ts) :
    ts.head? = some (mark .opening) := by
  cases fuel with
  | zero =>
    rw [scan] at h
    cases h
  | succ fuel =>
    rw [scan_mark (m := .opening) (r := s) (by decide) rfl] at h
    obtain ⟨ts', -, rfl⟩ := Option.map_eq_some_iff.1 h
    rfl

/-- Blanks before a parenthesis are passed. -/
theorem head?_scan_blanks : ∀ {fuel depth : Nat} {s : List Char} {ts : List Token},
    (s.dropWhile isSpace).head? = some '(' → scan fuel depth s = some ts → ts.head? = some (mark .opening)
  | _, _, [], _, hs, _ => by cases hs
  | 0, _, _ :: _, _, _, h => by
    rw [scan] at h
    cases h
  | fuel + 1, depth, c :: s, ts, hs, h => by
    cases hc : isSpace c with
    | false =>
      rw [List.dropWhile_cons_of_neg (by rw [hc]; exact Bool.false_ne_true)] at hs
      cases hs
      exact head?_scan_opening h
    | true =>
      rw [List.dropWhile_cons_of_pos hc] at hs
      have hbang : s.head? ≠ some '!' := fun hhead => by
        obtain ⟨r, rfl⟩ := List.head?_eq_some_iff.1 hhead
        cases hs
      rw [scan] at h
      simp only [hc, hbang, decide_false, Bool.and_false, Bool.false_eq_true, if_false, if_true] at h
      exact head?_scan_blanks hs h

/-- A name with an underscore is cut off whole. -/
theorem named_underscore {w : List Char} (hw : '_' ∈ w) {fuel depth : Nat} {ts : List Token} (hts : Named ts)
    (hscan : scan fuel depth r = some ts) : Named (ofName (String.ofList w) r :: ts) := by
  obtain ⟨halone, hname | ⟨hname, hopening⟩⟩ := ofName_underscore hw r
  · rw [hname]
    exact ⟨Or.inl halone, hts⟩
  · rw [hname]
    exact ⟨Or.inl (head?_scan_blanks hopening hscan), hts⟩

/-! ## Names among the tokens -/

/-- The tokens have the names of the text, and the variables among them are its variable letters, if it has no
underscore. -/
structure Tells (s : List Char) (ts : List Token) : Prop where
  named : Named ts
  freeNames_eq : '_' ∉ s → freeNames ts = (variableLetters s).map String.singleton

variable {fuel depth : Nat} {ts us : List Token}

/-- What is no letter tells nothing, if it becomes no name. -/
theorem Tells.passes (h : Tells r ts) (hspelled : Spelled (l ++ r)) (hl : ∀ d ∈ l, isLetter d = false)
    (hus : ∀ u ∈ us, u.isName = false) : Tells (l ++ r) (us ++ ts) := by
  obtain ⟨hnamed, hnone⟩ := named_of_forall hus
  refine ⟨hnamed.append h.named, fun hunderscore => ?_⟩
  rw [freeNames_append, hnone, h.freeNames_eq fun hmem => hunderscore (List.mem_append_right l hmem),
    (hspelled.of_append hl).2, List.nil_append]

theorem Tells.underscore {w : List Char} (h : Tells r ts) (hw : '_' ∈ w) (hscan : scan fuel depth r = some ts) :
    Tells (w ++ r) (ofName (String.ofList w) r :: ts) :=
  ⟨named_underscore hw h.named hscan, fun hunderscore => absurd (List.mem_append_left r hw) hunderscore⟩

theorem Tells.call {f : String} (h : Tells ('(' :: r) ts) (hf : f ∈ functionNames)
    (hscan : scan fuel depth ('(' :: r) = some ts) : Tells (f.toList ++ '(' :: r) (name f :: ts) := by
  have hcall := List.mem_cons_of_mem "factorial2" hf
  refine ⟨⟨Or.inr ⟨hcall, head?_scan_opening hscan⟩, h.named⟩, fun hunderscore => ?_⟩
  rw [freeNames_name, isReserved_of_mem_callNames f hcall, if_pos rfl,
    h.freeNames_eq fun hmem => hunderscore (List.mem_append_right _ hmem), variableLetters_call hf,
    variableLetters_cons (by decide) fun hdigit => absurd hdigit (by decide)]

theorem Tells.word {w : String} (h : Tells r ts) (hw : isWord w = true) (hends : endsName r = true) :
    Tells (w.toList ++ r) (name w :: ts) := by
  refine ⟨⟨Or.inl (standsAlone_of_isWord hw), h.named⟩, fun hunderscore => ?_⟩
  rw [freeNames_name, h.freeNames_eq fun hmem => hunderscore (List.mem_append_right _ hmem), variableLetters_word hw hends]

theorem scan_call {f : String} (hf : f ∈ functionNames) (fuel depth : Nat) (r : List Char) :
    scan (fuel + 1) depth (f.toList ++ '(' :: r) = (scan fuel depth ('(' :: r)).map (name f :: ·) := by
  obtain ⟨d, t, hd, hletter⟩ := head_of_mem_functionNames hf
  have hhead : ∀ e ∈ f.toList.head?, isNameStart e = true := fun e he => by
    rw [hd] at he
    rw [← Option.some.inj he]
    exact isNameStart_of_isLetter hletter
  rw [Lexeme.scan_word (by rw [hd]; exact List.cons_ne_nil d t) hhead
    (fun e he => by rw [isNameChar, isAlphanumeric_of_mem_functionNames hf e he]; rfl)
    (isNameChar_eq_false rfl (by simp)), String.ofList_toList, ofName_call hf]

theorem scan_word {w : String} (hw : isWord w = true) (hends : endsName r = true) (hunderscore : '_' ∉ r.head?)
    (hopening : (trimLeft r).head? ≠ some '(') (fuel depth : Nat) :
    scan (fuel + 1) depth (w.toList ++ r) = (scan fuel depth r).map (name w :: ·) := by
  obtain ⟨hne, hletters⟩ := isLetter_of_isWord hw
  rw [Lexeme.scan_word hne (fun e he => isNameStart_of_isLetter (hletters e (List.mem_of_mem_head? he)))
    (fun e he => isNameChar_of_isNameStart (isNameStart_of_isLetter (hletters e he)))
    (isNameChar_eq_false hends hunderscore), String.ofList_toList, ofName_word hopening]

/-- The underscore behind a word belongs to the name that is cut off. -/
theorem underscore_mem_takeWhile {w : List Char} (hw : ∀ d ∈ w, isNameChar d = true) (hr : '_' ∈ r.head?) :
    '_' ∈ (w ++ r).takeWhile isNameChar := by
  obtain ⟨r, rfl⟩ := List.head?_eq_some_iff.1 hr
  rw [List.takeWhile_append_of_pos hw]
  exact List.mem_append_right _ List.mem_cons_self

/-- **The names of a plain text are among its tokens**, and the variables among the tokens are its variable
letters, if it has no underscore. -/
theorem scan_tells : ∀ {fuel depth : Nat} {s : List Char} {ts : List Token}, Plain s → scan fuel depth s = some ts →
    Tells s ts
  | 0, _, _, _, _, hscan => by
    rw [scan] at hscan
    cases hscan
  | fuel + 1, _, [], ts, _, hscan => by
    rw [scan] at hscan
    · cases hscan
      exact ⟨trivial, fun _ => rfl⟩
    · exact Nat.succ_ne_zero fuel
  | fuel + 1, depth, c :: s, ts, h, hscan => by
    cases hstart : isNameStart c with
    | false =>
      obtain ⟨r, depth', us, ts', ⟨l, hl, hletters⟩, hrest, rfl, hus⟩ := cutsOff_of_scan h hstart hscan
      rw [hl] at h ⊢
      exact (scan_tells (h.of_append hletters) hrest).passes h.spelled hletters hus
    | true =>
      by_cases hunderscore : '_' ∈ c :: s.takeWhile isNameChar
      · rw [scan_name hstart] at hscan
        obtain ⟨ts', hts', rfl⟩ := Option.map_eq_some_iff.1 hscan
        have htells := (scan_tells (h.dropWhile hstart) hts').underscore hunderscore hts'
        rwa [List.cons_append, List.takeWhile_append_dropWhile] at htells
      -- the token of a name without an underscore ends where the name that the text spells ends
      have hc : isLetter c = true := by
        rw [isNameStart, Bool.or_eq_true, decide_eq_true_eq] at hstart
        exact hstart.resolve_right fun heq => hunderscore (heq ▸ List.mem_cons_self)
      rcases h.spelled.of_letter hc with ⟨f, hf, r, hf', hr⟩ | ⟨w, r, hw, hw', hends, hopening, hr⟩
      · rw [hf'] at h hscan ⊢
        rw [scan_call hf] at hscan
        obtain ⟨ts', hts', rfl⟩ := Option.map_eq_some_iff.1 hscan
        have hcall : Plain ('(' :: r) := h.of_name (.other (by decide) (fun hdigit => absurd hdigit (by decide)) hr)
        exact (scan_tells hcall hts').call hf hts'
      · have hhead : '_' ∉ r.head? := fun hhead => by
          have hletters := (isLetter_of_isWord hw).2
          have hmem := underscore_mem_takeWhile
            (fun d hd => isNameChar_of_isNameStart (isNameStart_of_isLetter (hletters d hd))) hhead
          rw [← hw', List.takeWhile_cons_of_pos (isNameChar_of_isNameStart hstart)] at hmem
          exact hunderscore hmem
        rw [hw'] at h hscan ⊢
        rw [scan_word hw hends hhead hopening] at hscan
        obtain ⟨ts', hts', rfl⟩ := Option.map_eq_some_iff.1 hscan
        exact (scan_tells (h.of_name hr) hts').word hw hends

end

end Token

end Heightfield.Formula
