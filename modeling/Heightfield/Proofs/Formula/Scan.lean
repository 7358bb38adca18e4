import Heightfield.Proofs.Formula.Tree
/-!
# Scanning what was written

The text of lexemes that take turns is cut into the tokens of the lexemes, one lexeme after the other
(`scan_placed`); it has none when an integer is too long.
-/
namespace Heightfield.Formula

open Lexeme (Placed)

/-! ## What follows a lexeme -/

namespace Lexeme

/-- The characters that end an operand. -/
def stops : List Char := [')', ',', '+', '-', '*', '/', '^']

/-- What can follow where an operand is expected, and where one has ended. -/
def Follows : (expected : Bool) → List Char → Prop
  | true, s => ∃ c r, s = c :: r ∧ (isAlphanumeric c = true ∨ c ∈ ['.', '(', '-'])
  | false, s => ∀ c ∈ s.head?, c ∈ stops

end Lexeme

open Lexeme (Follows stops)

/-! ## Numbers -/

theorem ne_underscore_of_isDigit {c : Char} (h : isDigit c = true) : c ≠ '_' := by
  rintro rfl
  cases h

theorem stops_number {c : Char} (h : c ∈ stops) :
    isDigit c = false ∧ c ∉ ['_', '.', 'e', 'E', 'j', 'J', 'x', 'X', 'o', 'O', 'b', 'B'] := by
  have hall : ∀ c ∈ stops,
      isDigit c = false ∧ c ∉ ['_', '.', 'e', 'E', 'j', 'J', 'x', 'X', 'o', 'O', 'b', 'B'] := by decide
  exact hall c h

section
variable {ds rest : List Char}

theorem digitRun_append (hrest : ∀ c ∈ rest.head?, isDigit c = false ∧ c ≠ '_') :
    ∀ {ds : List Char}, (∀ c ∈ ds, isDigit c = true) → Reading.digitRun (ds ++ rest) = (ds, rest)
  | [], _ => by
    rw [List.nil_append]
    unfold Reading.digitRun
    split
    · exact absurd rfl (hrest '_' rfl).2
    · rename_i c r _
      rw [(hrest c rfl).1]
      rfl
    · rfl
  | d :: ds, hds => by
    have hd := hds d List.mem_cons_self
    have ih := digitRun_append hrest fun c hc => hds c (List.mem_cons_of_mem d hc)
    rw [List.cons_append]
    unfold Reading.digitRun
    split
    · rename_i heq
      exact absurd (List.cons.inj heq).1 (ne_underscore_of_isDigit hd)
    · rename_i heq
      obtain ⟨rfl, rfl⟩ := List.cons.inj heq
      rw [hd, if_pos rfl, ih]
    · rename_i heq
      cases heq

theorem digits?_append (hrest : ∀ c ∈ rest.head?, isDigit c = false ∧ c ≠ '_') (hds : ∀ c ∈ ds, isDigit c = true) :
    Reading.digits? (ds ++ rest) = (ds, rest) := by
  unfold Reading.digits?
  split
  · rename_i s heq
    cases ds with
    | nil => exact absurd rfl (hrest '_' (by rw [show rest = '_' :: s from heq]; rfl)).2
    | cons d ds => exact absurd (List.cons.inj heq).1 (ne_underscore_of_isDigit (hds d List.mem_cons_self))
  · exact digitRun_append hrest hds

/-- Digits before something that announces no base are no number of another base. -/
theorem based?_append (hrest : ∀ c ∈ rest.head?, Token.base? c = none) (hds : ∀ c ∈ ds, isDigit c = true) (hne : ds ≠ []) :
    Token.based? (ds ++ rest) = none := by
  have hdigit : ∀ c, isDigit c = true → Token.base? c = none := fun c hc => by
    unfold Token.base?
    rw [if_neg, if_neg, if_neg]
    all_goals
      rintro (rfl | rfl) <;> cases hc
  unfold Token.based?
  split
  · rename_i c s heq
    have hc : Token.base? c = none := by
      match ds, hne, heq, hds with
      | [d], _, heq, _ =>
        rw [List.singleton_append] at heq
        exact hrest c (by rw [(List.cons.inj heq).2]; rfl)
      | d :: d' :: ds, _, heq, hds =>
        rw [List.cons_append, List.cons_append] at heq
        rw [← (List.cons.inj (List.cons.inj heq).2).1]
        exact hdigit d' (hds d' (List.mem_cons_of_mem d List.mem_cons_self))
    rw [hc]
    rfl
  · rfl

open Lexeme (Follows)

theorem base?_of_follows (h : Follows false rest) : ∀ c ∈ rest.head?, Token.base? c = none := fun c hc => by
  have hall : ∀ c ∈ stops, Token.base? c = none := by decide
  exact hall c (h c hc)

theorem exponent?_of_follows (h : Follows false rest) : Token.exponent? rest = none := by
  cases rest with
  | nil => rfl
  | cons c r =>
    have hc := (stops_number (h c rfl)).2
    simp only [List.mem_cons, List.not_mem_nil, or_false, not_or] at hc
    exact if_neg (by simp only [hc, or_self, not_false_eq_true])

theorem startsImaginary_of_follows (h : Follows false rest) : Token.startsImaginary rest = false := by
  cases rest with
  | nil => rfl
  | cons c r =>
    have hc := (stops_number (h c rfl)).2
    simp only [List.mem_cons, List.not_mem_nil, or_false, not_or] at hc
    simp only [Token.startsImaginary, hc, decide_false, Bool.or_self]

theorem fraction?_of_follows (h : Follows false rest) : Token.fraction? rest = none := by
  unfold Token.fraction?
  split
  · exact absurd (h '.' rfl) (by decide)
  · rfl

theorem isDigit_of_follows (h : Follows false rest) : ∀ c ∈ rest.head?, isDigit c = false ∧ c ≠ '_' := fun c hc =>
  ⟨(stops_number (h c hc)).1, fun heq => (stops_number (h c hc)).2 (by rw [heq]; decide)⟩

/-- An integer is read as it is written, unless it is too long. -/
theorem number?_integer (n : IntegerLiteral) (h : Follows false rest) :
    Token.number? (n.digits ++ rest) = if n.isShort then some (.integer n.value, rest) else none := by
  have hdigits := digits?_append (isDigit_of_follows h) n.isDigit_of_mem
  rw [Token.number?, based?_append (base?_of_follows h) n.isDigit_of_mem n.ne_nil]
  simp only [Token.decimal?, hdigits, fraction?_of_follows h, exponent?_of_follows h, startsImaginary_of_follows h,
    Bool.false_eq_true, if_false]
  rw [if_neg (fun hzero => hzero.2 (n.no_leading_zero hzero.1))]
  by_cases hshort : n.digits.length ≤ Token.maxDigits
  · rw [if_neg (by omega), if_pos (by simpa [IntegerLiteral.isShort] using hshort)]
    rfl
  · rw [if_pos (by omega), if_neg (by simpa [IntegerLiteral.isShort] using hshort)]

theorem number?_decimal (d : DecimalLiteral) (h : Follows false rest) :
    Token.number? (d.text ++ rest) = some (.decimal d.digits d.exponent, rest) := by
  have htext : d.text ++ rest = d.whole ++ '.' :: (d.fraction ++ rest) := by
    rw [DecimalLiteral.text, List.append_assoc, List.cons_append]
  have hwhole : Reading.digits? (d.whole ++ '.' :: (d.fraction ++ rest)) = (d.whole, '.' :: (d.fraction ++ rest)) :=
    digits?_append (fun c hc => by obtain rfl := Option.some.inj hc; decide)
      fun c hc => d.isDigit_of_mem c (List.mem_append_left _ hc)
  have hfraction : Token.fraction? ('.' :: (d.fraction ++ rest)) = some (d.fraction, rest) :=
    congrArg some (digits?_append (isDigit_of_follows h) fun c hc => d.isDigit_of_mem c (List.mem_append_right _ hc))
  have hbased : Token.based? (d.whole ++ '.' :: (d.fraction ++ rest)) = none := by
    cases hw : d.whole with
    | nil => rfl
    | cons c w =>
      rw [← hw]
      exact based?_append (fun c hc => by obtain rfl := Option.some.inj hc; decide)
        (fun c hc => d.isDigit_of_mem c (List.mem_append_left _ hc)) (by rw [hw]; exact List.cons_ne_nil _ _)
  rw [Token.number?, htext, hbased]
  simp only [Token.decimal?, hwhole, hfraction, exponent?_of_follows h, startsImaginary_of_follows h,
    Bool.false_eq_true, if_false, if_true, Int.zero_sub]
  rfl

end

/-! ## One lexeme -/

namespace Token

section
variable {c : Char} {s : List Char}

theorem isSpace_eq_false_of_isAlphanumeric {c : Char} (h : isAlphanumeric c = true) : isSpace c = false := by
  have hne : ∀ d ∈ [' ', '\t', '\x0C'], c ≠ d := fun d hd heq => by
    have hall : ∀ d ∈ [' ', '\t', '\x0C'], isAlphanumeric d = false := by decide
    rw [heq, hall d hd] at h
    cases h
  simp only [List.forall_mem_cons] at hne
  simp only [isSpace, hne.1, hne.2.1, hne.2.2.1, decide_false, Bool.or_self]

theorem scan_number (h : isDigit c = true ∨ (c = '.' ∧ s.head?.any isDigit = true)) (fuel depth : Nat) :
    scan (fuel + 1) depth (c :: s) = (number? (c :: s)).bind fun r => (scan fuel depth r.2).map (r.1 :: ·) := by
  have hspace : isSpace c = false ∧ c ≠ '\n' ∧ c ≠ '\r' := by
    rcases h with hc | ⟨rfl, -⟩
    · refine ⟨isSpace_eq_false_of_isAlphanumeric (isAlphanumeric_of_isDigit hc), ?_, ?_⟩
      · rintro rfl; cases hc
      · rintro rfl; cases hc
    · decide
  have hstart : (isDigit c || (c = '.' && s.head?.any isDigit)) = true := by
    rcases h with hc | ⟨rfl, hs⟩
    · rw [hc, Bool.true_or]
    · rw [hs]
      rfl
  rw [scan]
  simp only [hspace.1, hspace.2.1, hspace.2.2, decide_false, Bool.or_self, Bool.false_and, Bool.false_eq_true,
    if_false, hstart, if_true]

theorem isNameStart_of_isLetter {c : Char} (h : isLetter c = true) : isNameStart c = true := by
  rw [isNameStart, h, Bool.true_or]

theorem scan_name (hstart : isNameStart c = true) (fuel depth : Nat) :
    scan (fuel + 1) depth (c :: s) = (scan fuel depth (s.dropWhile isNameChar)).map
      (ofName (String.ofList (c :: s.takeWhile isNameChar)) (s.dropWhile isNameChar) :: ·) := by
  have hne : ∀ d, isNameStart d = false → c ≠ d := fun d hd heq => by
    rw [heq, hd] at hstart
    cases hstart
  have hspace : isSpace c = false := by
    simp only [isSpace, hne ' ' rfl, hne '\t' rfl, hne '\x0C' rfl, decide_false, Bool.or_self]
  have hdigit : isDigit c = false := by
    cases hd : isDigit c with
    | false => rfl
    | true =>
      rw [isNameStart, isLetter_eq_false_of_isDigit hd, decide_eq_false (ne_underscore_of_isDigit hd)] at hstart
      cases hstart
  rw [scan]
  simp only [hspace, hdigit, hne '\n' rfl, hne '\r' rfl, hne '.' rfl, decide_false, Bool.or_self, Bool.false_and,
    Bool.false_eq_true, if_false, hstart, if_true]

theorem scan_mark (hc : c ∈ '(' :: Lexeme.stops) {m : Mark} {r : List Char}
    (hm : mark? (c :: s) = some (m, r)) (fuel depth : Nat) :
    scan (fuel + 1) depth (c :: s) = (scan fuel (depthAfter depth m) r).map (mark m :: ·) := by
  have hall : ∀ c ∈ '(' :: Lexeme.stops, isSpace c = false ∧ c ≠ '\n' ∧ c ≠ '\r' ∧ isDigit c = false ∧
      c ≠ '.' ∧ isNameStart c = false := by decide
  obtain ⟨hspace, hn, hr, hdigit, hpoint, hstart⟩ := hall c hc
  rw [scan]
  simp only [hspace, hn, hr, hdigit, hpoint, hstart, decide_false, Bool.or_self, Bool.false_and, Bool.false_eq_true,
    if_false, hm, Option.bind_some]

end

end Token

namespace Lexeme

open Token (scan)

/-- Cutting the text of the lexeme gives its tokens, whatever is open before it; `n` steps are needed.  Too long
an integer cannot be cut off. -/
def Scans (style : PowerStyle) (x : Lexeme) (rest : List Char) : Prop :=
  ∀ depth, ∃ depth' n, n ≤ (x.text style).length ∧ ∀ fuel, scan (fuel + n) depth (x.text style ++ rest) =
    if x.isShort then (scan fuel depth' rest).map (x.tokens ++ ·) else none

theorem letters_of_mem_words : ∀ w ∈ words, w.toList ≠ [] ∧ ∀ c ∈ w.toList, isLetter c = true := by decide

theorem name_of_mem_functionNames : ∀ f ∈ functionNames,
    f.toList ≠ [] ∧ (∀ c ∈ f.toList.head?, isLetter c = true) ∧ (∀ c ∈ f.toList, Token.isNameChar c = true) ∧
      isReserved f = true := by decide

theorem scan_word {w : List Char} (hne : w ≠ []) (hhead : ∀ c ∈ w.head?, Token.isNameStart c = true)
    (hw : ∀ c ∈ w, Token.isNameChar c = true) {rest : List Char} (hrest : ∀ c ∈ rest.head?, Token.isNameChar c = false)
    (fuel depth : Nat) : scan (fuel + 1) depth (w ++ rest) =
      (scan fuel depth rest).map (Token.ofName (String.ofList w) rest :: ·) := by
  obtain ⟨c, w, rfl⟩ := List.exists_cons_of_ne_nil hne
  have htail : ∀ d ∈ w, Token.isNameChar d = true := fun d hd => hw d (List.mem_cons_of_mem c hd)
  have hstop : rest.dropWhile Token.isNameChar = rest ∧ rest.takeWhile Token.isNameChar = [] := by
    cases rest with
    | nil => exact ⟨rfl, rfl⟩
    | cons d r =>
      have hd := hrest d rfl
      exact ⟨List.dropWhile_cons_of_neg (by rw [hd]; exact Bool.false_ne_true),
        List.takeWhile_cons_of_neg (by rw [hd]; exact Bool.false_ne_true)⟩
  rw [List.cons_append, Token.scan_name (hhead c rfl), List.dropWhile_append_of_pos htail,
    List.takeWhile_append_of_pos htail, hstop.1, hstop.2, List.append_nil]

theorem scans_mark {style : PowerStyle} {x : Lexeme} {c : Char} {s rest : List Char} {m : Mark}
    (hc : c ∈ '(' :: stops) (hx : x.text style = c :: s) (hshort : x.isShort = true)
    (ht : x.tokens = [.mark m]) (hm : Token.mark? (c :: s ++ rest) = some (m, rest)) : x.Scans style rest := fun depth =>
  ⟨Token.depthAfter depth m, 1, by rw [hx]; exact Nat.le_add_left 1 s.length, fun fuel => by
    rw [hx, hshort, ht]
    exact Token.scan_mark hc hm fuel depth⟩

section
variable (style : PowerStyle) {rest : List Char}

theorem scans_integer (n : IntegerLiteral) (h : Follows false rest) : (integer n).Scans style rest := fun depth => by
  refine ⟨depth, 1, List.length_pos_iff.2 n.ne_nil, fun fuel => ?_⟩
  have hnumber := number?_integer n h
  obtain ⟨c, ds, hds⟩ := List.exists_cons_of_ne_nil n.ne_nil
  have hc := n.isDigit_of_mem c (by rw [hds]; exact List.mem_cons_self)
  rw [text, isShort]
  rw [hds, List.cons_append] at hnumber ⊢
  rw [Token.scan_number (Or.inl hc), hnumber]
  cases n.isShort <;> rfl

theorem head_decimal (d : DecimalLiteral) : ∃ c r, d.text = c :: r ∧
    ∀ rest, isDigit c = true ∨ (c = '.' ∧ (r ++ rest).head?.any isDigit = true) := by
  rcases hw : d.whole with _ | ⟨c, w⟩
  · obtain ⟨c, f, hf⟩ := List.exists_cons_of_ne_nil (d.ne_nil.resolve_left fun hne => hne hw)
    have hc : isDigit c = true := d.isDigit_of_mem c (by rw [hf]; simp)
    exact ⟨'.', d.fraction, by rw [DecimalLiteral.text, hw]; rfl, fun rest => Or.inr ⟨rfl, by rw [hf]; exact hc⟩⟩
  · have hc : isDigit c = true := d.isDigit_of_mem c (by rw [hw]; exact List.mem_append_left _ List.mem_cons_self)
    exact ⟨c, w ++ '.' :: d.fraction, by rw [DecimalLiteral.text, hw]; rfl, fun _ => Or.inl hc⟩

theorem scans_decimal (d : DecimalLiteral) (h : Follows false rest) : (decimal d).Scans style rest := fun depth => by
  refine ⟨depth, 1, by rw [text, DecimalLiteral.text, List.length_append, List.length_cons]; omega, fun fuel => ?_⟩
  have hnumber := number?_decimal d h
  obtain ⟨c, r, htext, hstart⟩ := head_decimal d
  rw [text]
  rw [htext, List.cons_append] at hnumber ⊢
  rw [Token.scan_number (hstart rest), hnumber]
  rfl

theorem scans_word (w : { s : String // s ∈ words }) (h : Follows false rest) : (word w).Scans style rest := fun depth => by
  obtain ⟨hne, hletters⟩ := letters_of_mem_words w.1 w.2
  refine ⟨depth, 1, List.length_pos_iff.2 hne, fun fuel => ?_⟩
  have hstop : ∀ c ∈ stops, Token.isNameChar c = false ∧ Token.isSpace c = false ∧ c ≠ '(' := by
    decide
  have hname : Token.ofName (String.ofList w.1.toList) rest = .name w.1 := by
    rw [String.ofList_toList, Token.ofName, if_neg]
    rintro hcall
    cases rest with
    | nil => cases hcall
    | cons c r =>
      obtain ⟨-, hspace, hopen⟩ := hstop c (h c rfl)
      rw [List.dropWhile_cons_of_neg (by rw [hspace]; exact Bool.false_ne_true)] at hcall
      simp [hopen] at hcall
  rw [text, scan_word hne (fun c hc => Token.isNameStart_of_isLetter (hletters c (List.mem_of_mem_head? hc)))
    (fun c hc => by rw [Token.isNameChar, isAlphanumeric, hletters c hc]; rfl)
    (fun c hc => (hstop c (h c hc)).1), hname]
  rfl

theorem scans_call (f : FunctionName) : (call f).Scans style rest := fun depth => by
  obtain ⟨hne, hhead, hchars, hreserved⟩ := name_of_mem_functionNames f.1 f.2
  refine ⟨depth + 1, 2, ?_, fun fuel => ?_⟩
  · have hpos := List.length_pos_iff.2 hne
    rw [text, List.length_append, List.length_singleton]
    omega
  · have hname : Token.ofName (String.ofList f.1.toList) ('(' :: rest) = .name f.1 := by
      rw [String.ofList_toList, Token.ofName, hreserved, Bool.not_true, Bool.and_false]
      rfl
    have hopening : scan (fuel + 1) depth ('(' :: rest) = (scan fuel (depth + 1) rest).map (Token.mark .opening :: ·) :=
      Token.scan_mark (by decide) rfl fuel depth
    rw [text, List.append_assoc, List.singleton_append,
      scan_word hne (fun c hc => Token.isNameStart_of_isLetter (hhead c hc)) hchars (fun c hc => by obtain rfl := Option.some.inj hc; decide), hname, hopening,
      Option.map_map]
    rfl

/-- A mark of one star or slash ends before an operand. -/
theorem mark?_of_follows (h : Follows true rest) :
    Token.mark? ('*' :: rest) = some (.times, rest) ∧ Token.mark? ('/' :: rest) = some (.over, rest) := by
  obtain ⟨c, r, rfl, hc⟩ := h
  have hstart : Token.isSpace c = false ∧ c ≠ '*' ∧ c ≠ '/' := by
    rcases hc with hc | hc
    · refine ⟨Token.isSpace_eq_false_of_isAlphanumeric hc, ?_, ?_⟩
      · rintro rfl; cases hc
      · rintro rfl; cases hc
    · exact (by decide : ∀ c ∈ ['.', '(', '-'], Token.isSpace c = false ∧ c ≠ '*' ∧ c ≠ '/') c hc
  have hdrop : (c :: r).dropWhile Token.isSpace = c :: r :=
    List.dropWhile_cons_of_neg (by rw [hstart.1]; exact Bool.false_ne_true)
  constructor
  · rw [Token.mark?, hdrop]
    split
    · rename_i heq
      exact absurd (List.cons.inj heq).1 hstart.2.1
    · rfl
  · rw [Token.mark?, hdrop]
    split
    · rename_i heq
      exact absurd (List.cons.inj heq).1 hstart.2.2
    · rfl

theorem scans_sign (s : ArithmeticSign) (h : Follows true rest) : (sign s).Scans style rest := by
  obtain ⟨htimes, hover⟩ := mark?_of_follows h
  cases s with
  | add => exact scans_mark (c := '+') (s := []) (by decide) rfl rfl rfl rfl
  | sub => exact scans_mark (c := '-') (s := []) (by decide) rfl rfl rfl rfl
  | mul => exact scans_mark (c := '*') (s := []) (by decide) rfl rfl rfl htimes
  | div => exact scans_mark (c := '/') (s := []) (by decide) rfl rfl rfl hover
  | pow =>
    cases style with
    | caret => exact scans_mark (c := '^') (s := []) (by decide) rfl rfl rfl rfl
    | stars => exact scans_mark (c := '*') (s := ['*']) (by decide) rfl rfl rfl rfl

/-- **A lexeme is cut off as its tokens.** -/
theorem scans (x : Lexeme) (h : Follows (!x.ends) rest) : x.Scans style rest := by
  cases x with
  | integer n => exact scans_integer style n h
  | decimal d => exact scans_decimal style d h
  | word w => exact scans_word style w h
  | call f => exact scans_call style f
  | opening => exact scans_mark (c := '(') (s := []) (by decide) rfl rfl rfl rfl
  | closing => exact scans_mark (c := ')') (s := []) (by decide) rfl rfl rfl rfl
  | comma => exact scans_mark (c := ',') (s := []) (by decide) rfl rfl rfl rfl
  | minus => exact scans_mark (c := '-') (s := []) (by decide) rfl rfl rfl rfl
  | sign s => exact scans_sign style s h

end

/-! ## Many lexemes -/

theorem follows_true (style : PowerStyle) {x : Lexeme} (hx : x.begins = true) (rest : List Char) :
    Follows true (x.text style ++ rest) := by
  cases x with
  | integer n =>
    obtain ⟨c, ds, hds⟩ := List.exists_cons_of_ne_nil n.ne_nil
    have hc := n.isDigit_of_mem c (by rw [hds]; exact List.mem_cons_self)
    exact ⟨c, ds ++ rest, by rw [text, hds]; rfl, Or.inl (isAlphanumeric_of_isDigit hc)⟩
  | decimal d =>
    obtain ⟨c, r, htext, hstart⟩ := head_decimal d
    refine ⟨c, r ++ rest, by rw [text, htext]; rfl, ?_⟩
    rcases hstart rest with hc | ⟨rfl, -⟩
    · exact Or.inl (isAlphanumeric_of_isDigit hc)
    · exact Or.inr (by decide)
  | word w =>
    obtain ⟨hne, hletters⟩ := letters_of_mem_words w.1 w.2
    obtain ⟨c, r, hw⟩ := List.exists_cons_of_ne_nil hne
    have hc := hletters c (by rw [hw]; exact List.mem_cons_self)
    exact ⟨c, r ++ rest, by rw [text, hw]; rfl, Or.inl (isAlphanumeric_of_isLetter hc)⟩
  | call f =>
    obtain ⟨hne, hhead, -, -⟩ := name_of_mem_functionNames f.1 f.2
    obtain ⟨c, r, hf⟩ := List.exists_cons_of_ne_nil hne
    have hc := hhead c (by rw [hf]; rfl)
    exact ⟨c, r ++ ['('] ++ rest, by rw [text, hf]; rfl, Or.inl (isAlphanumeric_of_isLetter hc)⟩
  | opening => exact ⟨'(', rest, rfl, Or.inr (by decide)⟩
  | minus => exact ⟨'-', rest, rfl, Or.inr (by decide)⟩
  | closing | comma | sign _ => cases hx

theorem follows_false (style : PowerStyle) {x : Lexeme} (hx : x.begins = false) (rest : List Char) :
    Follows false (x.text style ++ rest) := by
  have hcons : ∀ {c : Char} {r : List Char}, c ∈ stops → Follows false (c :: r) :=
    fun hc d hd => by
      obtain rfl := Option.some.inj hd
      exact hc
  cases x with
  | closing | comma => exact hcons (by decide)
  | sign s =>
    cases s with
    | pow => cases style <;> exact hcons (by decide)
    | _ => exact hcons (by decide)
  | _ => cases hx

theorem follows (style : PowerStyle) : ∀ {xs : List Lexeme} {expected : Bool}, Placed expected xs →
    Follows expected (xs.flatMap (text style))
  | [], _, h => by
    obtain rfl := h
    exact nofun
  | x :: xs, true, ⟨hx, _⟩ => by
    rw [List.flatMap_cons]
    exact follows_true style hx _
  | x :: xs, false, ⟨hx, _⟩ => by
    rw [List.flatMap_cons]
    exact follows_false style hx _

/-- **A text of lexemes that take turns is cut into their tokens.** -/
theorem scan_placed (style : PowerStyle) : ∀ {xs : List Lexeme} {expected : Bool}, Placed expected xs →
    ∀ fuel depth, (xs.flatMap (text style)).length < fuel →
      scan fuel depth (xs.flatMap (text style)) = if xs.all isShort then some (xs.flatMap tokens) else none
  | [], _, _, fuel + 1, _, _ => rfl
  | x :: xs, _, ⟨_, hxs⟩, fuel, depth, hfuel => by
    obtain ⟨depth', n, hn, hscan⟩ := scans style x (follows style hxs) depth
    rw [List.flatMap_cons, List.length_append] at hfuel
    obtain ⟨fuel', rfl⟩ := Nat.exists_eq_add_of_le' (show n ≤ fuel by omega)
    rw [List.flatMap_cons, hscan fuel', scan_placed style hxs fuel' depth' (by omega), List.all_cons, List.flatMap_cons]
    cases x.isShort <;> cases xs.all isShort <;> rfl

/-! ## Factorials -/

theorem tokens_plain (x : Lexeme) : ∀ t ∈ x.tokens, t ≠ .mark .bang ∧ t ≠ .mark .gap := by
  cases x with
  | sign s => cases s <;> simp [tokens, ArithmeticSign.mark]
  | _ => simp [tokens]

end Lexeme

theorem resolveFactorials_of_plain : ∀ {ts : List Token}, (∀ t ∈ ts, t ≠ .mark .bang ∧ t ≠ .mark .gap) →
    ∀ before, Token.resolveFactorials before 0 ts = some (before.reverse ++ ts)
  | [], _, before => by
    rw [Token.resolveFactorials, List.append_nil]
    rfl
  | t :: ts, h, before => by
    have ht := h t List.mem_cons_self
    rw [Token.resolveFactorials]
    · rw [Token.afterMarks, Option.bind_some,
        resolveFactorials_of_plain (fun u hu => h u (List.mem_cons_of_mem t hu)), List.reverse_cons,
        List.append_assoc, List.singleton_append]
    · exact ht.1
    · exact ht.2

/-- **The tokens of a text of lexemes are those of the lexemes**, unless an integer is too long. -/
theorem tokens_flatMap (style : PowerStyle) {xs : List Lexeme} (h : Placed true xs) :
    Token.tokens (xs.flatMap (Lexeme.text style)) =
      if xs.all Lexeme.isShort then some (xs.flatMap Lexeme.tokens) else none := by
  rw [Token.tokens, Lexeme.scan_placed style h _ 0 (Nat.lt_succ_self _)]
  cases xs.all Lexeme.isShort with
  | false => rfl
  | true =>
    have hplain : ∀ t ∈ xs.flatMap Lexeme.tokens, t ≠ .mark .bang ∧ t ≠ .mark .gap := fun t ht => by
      obtain ⟨x, -, hx⟩ := List.mem_flatMap.1 ht
      exact x.tokens_plain t hx
    rw [if_pos rfl, Option.bind_some, resolveFactorials_of_plain hplain, Option.map_some, List.reverse_nil,
      List.nil_append, List.filter_eq_self.2 fun t ht => by simpa using (hplain t ht).2]

end Heightfield.Formula
