import Heightfield.Proofs.Formula.Scan
import Heightfield.Proofs.Juxtaposition.Products
/-!
# Written formulas have their products written out

Where lexemes take turns, nothing that ends a factor stands before anything that begins one.  So the text of such
lexemes is left as it is when products are written out (`Lexeme.explicit_flatMap`).
-/
namespace Heightfield.Formula.Lexeme

open Juxtaposition

/-- A piece that ends like this is multiplied by nothing. -/
def Bare (previous : Option Kind) : Prop := ∀ k, starText previous k = []

theorem bare_none : Bare none := fun _ => rfl

theorem bare_opening : Bare (some .opening) := fun _ => rfl

theorem bare_other : Bare (some .other) := fun _ => rfl

/-- Writing out the products leaves the text of the lexeme, and what ends it is multiplied by nothing where an operand is
expected. -/
def Kept (style : PowerStyle) (x : Lexeme) (previous : Option Kind) (rest : List Char) : Prop :=
  ∃ k, join previous (pieces (x.text style ++ rest)) = x.text style ++ join (some k) (pieces rest) ∧
    (x.ends = false → Bare (some k))

theorem kept_of_ends {style : PowerStyle} {x : Lexeme} {previous : Option Kind} {rest : List Char} (k : Kind)
    (hends : x.ends = true)
    (hjoin : join previous (pieces (x.text style ++ rest)) = x.text style ++ join (some k) (pieces rest)) :
    x.Kept style previous rest := by
  refine ⟨k, hjoin, fun hnot => ?_⟩
  rw [hends] at hnot
  cases hnot

section
variable (style : PowerStyle) {previous : Option Kind} {rest : List Char}

theorem kept_integer (n : IntegerLiteral) (h : Bare previous) : (integer n).Kept style previous rest := by
  refine kept_of_ends .digit rfl ?_
  rw [text, join_digits n.isDigit_of_mem n.ne_nil, h, List.nil_append]

theorem join_bare_digits {ds : List Char} (hds : ∀ c ∈ ds, isDigit c = true) (h : Bare previous) (r : List Char) :
    ∃ k, join previous (pieces (ds ++ r)) = ds ++ join k (pieces r) := by
  cases ds with
  | nil => exact ⟨previous, rfl⟩
  | cons d ds =>
    refine ⟨some .digit, ?_⟩
    rw [join_digits hds (List.cons_ne_nil d ds), h, List.nil_append]

theorem kept_decimal (d : DecimalLiteral) (h : Bare previous) (hrest : Follows false rest) :
    (decimal d).Kept style previous rest := by
  have hpoint : Kind.ofChar '.' = .other := by decide
  obtain ⟨k, hwhole⟩ := join_bare_digits (r := '.' :: (d.fraction ++ rest))
    (fun c hc => d.isDigit_of_mem c (List.mem_append_left _ hc)) h
  obtain ⟨k', hfraction⟩ := join_bare_digits (r := rest) (fun c hc => d.isDigit_of_mem c (List.mem_append_right _ hc))
    bare_other
  have hstops : Stops rest := fun c hc => (by decide : ∀ c ∈ stops, c ∈ ')' :: joints) c (hrest c hc)
  refine kept_of_ends .digit rfl ?_
  rw [text, DecimalLiteral.text, List.append_assoc, List.cons_append, hwhole, join_sign (by decide) (by decide), hpoint,
    starText_other, List.nil_append, hfraction, hstops.join_eq k', hstops.join_eq (some .digit), List.append_assoc,
    List.cons_append]

theorem kept_word (w : { s : String // s ∈ words }) (h : Bare previous) (hrest : Follows false rest) :
    (word w).Kept style previous rest := by
  obtain ⟨w, hw⟩ := w
  rcases List.mem_append.1 hw with hconstant | hvariable
  · have hends : endsName rest = true := by
      cases rest with
      | nil => rfl
      | cons c r =>
        have hstop : isAlphanumeric c = false := (by decide : ∀ c ∈ stops, isAlphanumeric c = false) c (hrest c rfl)
        rw [endsName, hstop]
        rfl
    refine kept_of_ends .constant rfl ?_
    rw [text, join_constant hconstant hends, h, List.nil_append]
  · have hletter : ∀ v ∈ Mode.complex.permitted, ∃ c ∈ letters, v.toList = [c] := by decide
    obtain ⟨c, hc, hv⟩ := hletter w hvariable
    refine kept_of_ends (.ofChar c) rfl ?_
    rw [text, hv, List.singleton_append, join_char (piece_letter hc), h]
    rfl

theorem kept_call (f : FunctionName) (h : Bare previous) : (call f).Kept style previous rest := by
  refine ⟨.opening, ?_, fun _ => bare_opening⟩
  rw [text, List.append_assoc, List.singleton_append, join_name f.2, h]
  simp

/-- Where an operand is expected, a parenthesis or a minus sign stays. -/
theorem kept_start {x : Lexeme} {c : Char} (hx : x.text style = [c]) (hc : c ∈ ['(', '-']) (h : Bare previous) :
    x.Kept style previous rest := by
  have hall : ∀ c ∈ ['(', '-'], isBlank c = false ∧ isLetter c = false ∧
      (Kind.ofChar c = .opening ∨ Kind.ofChar c = .other) := by decide
  obtain ⟨hblank, hletter, hkind⟩ := hall c hc
  refine ⟨.ofChar c, ?_, fun _ => ?_⟩
  · rw [hx, List.singleton_append, join_sign hblank hletter, h]
    rfl
  · rcases hkind with hkind | hkind
    · rw [hkind]
      exact bare_opening
    · rw [hkind]
      exact bare_other

theorem kept_closing : closing.Kept style previous rest :=
  kept_of_ends (.ofChar ')') rfl (join_joint (by decide) previous rest)

/-- Behind an operand a joint stays. -/
theorem kept_joint {x : Lexeme} {c : Char} (hx : x.text style = [c]) (hc : c ∈ joints) : x.Kept style previous rest := by
  have hother : ∀ c ∈ joints, Kind.ofChar c = .other := by decide
  refine ⟨.other, ?_, fun _ => bare_other⟩
  rw [hx, List.singleton_append, join_joint (List.mem_cons_of_mem _ hc), hother c hc]
  rfl

theorem kept_sign (s : ArithmeticSign) : (sign s).Kept style previous rest := by
  cases s with
  | pow =>
    cases style with
    | caret => exact kept_joint .caret (c := '^') rfl (by decide)
    | stars =>
      refine ⟨.other, ?_, fun _ => bare_other⟩
      have hstar : Kind.ofChar '*' = .other := by decide
      change join previous (pieces ('*' :: '*' :: rest)) = '*' :: '*' :: join (some .other) (pieces rest)
      rw [join_joint (by decide), join_joint (by decide), hstar]
  | add => exact kept_joint style (c := '+') rfl (by decide)
  | sub => exact kept_joint style (c := '-') rfl (by decide)
  | mul => exact kept_joint style (c := '*') rfl (by decide)
  | div => exact kept_joint style (c := '/') rfl (by decide)

/-- **A lexeme is kept as it is.** -/
theorem kept (x : Lexeme) (h : x.begins = true → Bare previous) (hrest : Follows (!x.ends) rest) :
    x.Kept style previous rest := by
  cases x with
  | integer n => exact kept_integer style n (h rfl)
  | decimal d => exact kept_decimal style d (h rfl) hrest
  | word w => exact kept_word style w (h rfl) hrest
  | call f => exact kept_call style f (h rfl)
  | opening => exact kept_start style (c := '(') rfl (by decide) (h rfl)
  | minus => exact kept_start style (c := '-') rfl (by decide) (h rfl)
  | closing => exact kept_closing style
  | comma => exact kept_joint style (c := ',') rfl (by decide)
  | sign s => exact kept_sign style s

end

theorem join_flatMap (style : PowerStyle) : ∀ {xs : List Lexeme} {expected : Bool} {previous : Option Kind},
    Placed expected xs → (expected = true → Bare previous) →
      join previous (pieces (xs.flatMap (text style))) = xs.flatMap (text style)
  | [], _, previous, _, _ => by rw [List.flatMap_nil, pieces, join]
  | x :: xs, expected, previous, ⟨hx, hxs⟩, h => by
    obtain ⟨k, hkept, hbare⟩ := kept style x (fun hbegins => h (hx ▸ hbegins)) (follows style hxs)
    rw [List.flatMap_cons, hkept, join_flatMap style hxs fun hends => hbare (by simpa using hends)]

/-- **The text of lexemes that take turns has its products written out.** -/
theorem explicit_flatMap (style : PowerStyle) {xs : List Lexeme} (h : Placed true xs) :
    explicit (xs.flatMap (text style)) = xs.flatMap (text style) :=
  join_flatMap style h fun _ => bare_none

end Heightfield.Formula.Lexeme
