import Heightfield.Proofs.Juxtaposition.Repeat
/-!
# Products of factors

A product is written by putting its factors side by side: numbers, letters, constants, calls and parentheses,
which again hold such products.  Which factors may stand side by side without being read otherwise is part of
what a product is (`Shape.meets`).  `Expression.written` writes an expression with any text between its
factors; with none, and its products written out, it is the text with a star there
(`explicitProducts_written`).
-/
namespace Heightfield
namespace Juxtaposition

/-! ## Expressions -/

/-- What a factor looks like to its neighbours. -/
inductive Shape where
  | number | letter | constant | call | group
  deriving DecidableEq, Repr

namespace Shape

def first : Shape → Kind
  | number => .digit
  | letter | constant | call => .letter
  | group => .opening

def last : Shape → Kind
  | number => .digit
  | letter => .letter
  | constant => .constant
  | call | group => .closing

/-- Whether a factor of the second shape can be put behind one of the first.  Two numbers would be one, and a
constant is none before a letter or a digit. -/
def meets : Shape → Shape → Bool
  | number, b => b ≠ number
  | constant, b => b = group
  | letter, _ | call, _ | group, _ => true

theorem multiplies_of_meets {a b : Shape} (h : a.meets b = true) : a.last.multiplies b.first = true := by
  revert h
  cases a <;> cases b <;> decide

end Shape

abbrev Digits := { ds : List Char // ds ≠ [] ∧ ∀ c ∈ ds, isDigit c = true }

/-- A number as it is written. -/
structure Numeral where
  whole : Digits
  fraction : Option Digits

def Numeral.text (n : Numeral) : List Char := n.whole.1 ++ n.fraction.elim [] fun ds => '.' :: ds.1

/-- The letters that are factors of their own. -/
def letters : List Char := ['x', 'y', 'z']

/-- What stands between two products. -/
def joints : List Char := ['+', '-', '*', '/', '^', ',']

mutual

inductive Factor : Shape → Type where
  | number (n : Numeral) : Factor .number
  | letter (c : { c : Char // c ∈ letters }) : Factor .letter
  | constant (k : { k : String // k ∈ constantNames }) : Factor .constant
  | call (f : FunctionName) (arguments : Expression) : Factor .call
  /-- A call without arguments. -/
  | emptyCall (f : FunctionName) : Factor .call
  | group (e : Expression) : Factor .group

/-- A product, by the shape of its first factor. -/
inductive Product : Shape → Type where
  | factor {a : Shape} (f : Factor a) : Product a
  | times {a b : Shape} (f : Factor a) (p : Product b) (h : a.meets b = true) : Product a

inductive Expression : Type where
  | product {a : Shape} (p : Product a) : Expression
  | joined {a : Shape} (p : Product a) (c : { c : Char // c ∈ joints }) (e : Expression) : Expression

end

mutual

/-- The factor, with the text `times` between the factors in it. -/
def Factor.written (times : List Char) {a : Shape} : Factor a → List Char
  | .number n => n.text
  | .letter c => [c.1]
  | .constant k => k.1.toList
  | .call f arguments => f.1.toList ++ '(' :: (arguments.written times ++ [')'])
  | .emptyCall f => f.1.toList ++ ['(', ')']
  | .group e => '(' :: (e.written times ++ [')'])

def Product.written (times : List Char) {a : Shape} : Product a → List Char
  | .factor f => f.written times
  | .times f p _ => f.written times ++ (times ++ p.written times)

def Expression.written (times : List Char) : Expression → List Char
  | .product p => p.written times
  | .joined p c e => p.written times ++ c.1 :: e.written times

end

/-! ## Pieces and what stands before them -/

/-- The star before what begins as the kind says, if one is written. -/
def starText (previous : Option Kind) (k : Kind) : List Char :=
  if previous.any (·.multiplies k) then ['*'] else []

theorem starText_other (previous : Option Kind) : starText previous .other = [] := by
  cases previous with
  | none => rfl
  | some k => rw [starText, Option.any_some, Kind.multiplies_other, if_neg Bool.false_ne_true]

theorem starText_closing (previous : Option Kind) : starText previous .closing = [] := by
  cases previous with
  | none => rfl
  | some k => cases k <;> rfl

theorem starText_of_multiplies {k k' : Kind} (h : k.multiplies k' = true) : starText (some k) k' = ['*'] := by
  rw [starText, Option.any_some, if_pos h]

theorem join_solid {p : Piece} (hp : p.IsSolid) (previous : Option Kind) (ps : List Piece) :
    join previous (p :: ps) = starText previous p.first ++ (p.text ++ join (some p.last) ps) := by
  rw [join_cons hp, starBefore, starText]
  split <;> rfl

section
variable {previous : Option Kind} {r : List Char}

/-- A character that begins no name stands for itself. -/
theorem join_char {c : Char} (h : ∀ s, piece c s = .char c) :
    join previous (pieces (c :: r)) =
      starText previous (.ofChar c) ++ c :: join (some (.ofChar c)) (pieces r) := by
  rw [pieces_cons, h, join_solid (by simp [Piece.IsSolid])]
  rfl

theorem join_sign {c : Char} (hb : isBlank c = false) (hl : isLetter c = false) :
    join previous (pieces (c :: r)) =
      starText previous (.ofChar c) ++ c :: join (some (.ofChar c)) (pieces r) :=
  join_char fun s => piece_of_isLetter_eq_false hb hl s

theorem piece_letter {c : Char} (hc : c ∈ letters) (s : List Char) : piece c s = .char c := by
  have hfunctions : ∀ f ∈ functionNames, ∀ d ∈ f.toList.head?, d ∉ letters := by decide
  have hconstants : ∀ k ∈ constantNames, ∀ d ∈ k.toList.head?, d ∉ letters := by decide
  have hblank : ∀ c ∈ letters, isBlank c = false := by decide
  rcases piece_cases c s with ⟨-, hb⟩ | ⟨f, hf, r, -, hr⟩ | ⟨k, hk, r, -, hr, -⟩ | ⟨hp, -⟩
  · rw [hblank c hc] at hb
    cases hb
  · obtain ⟨d, t, hd, -⟩ := head_of_mem_functionNames hf
    rw [hd] at hr
    exact absurd ((List.cons.inj hr).1 ▸ hc) (hfunctions f hf d (by rw [hd]; rfl))
  · obtain ⟨d, t, hd, -⟩ := head_of_mem_constantNames hk
    rw [hd] at hr
    exact absurd ((List.cons.inj hr).1 ▸ hc) (hconstants k hk d (by rw [hd]; rfl))
  · exact hp

theorem join_name {f : String} (hf : f ∈ functionNames) :
    join previous (pieces (f.toList ++ '(' :: r)) =
      starText previous .letter ++ (f.toList ++ '(' :: join (some .opening) (pieces r)) := by
  obtain ⟨c, s, hs, -⟩ := head_of_mem_functionNames hf
  have hcons : f.toList ++ '(' :: r = c :: (s ++ '(' :: r) := by rw [hs, List.cons_append]
  have hdrop : (f.toList ++ '(' :: r).drop (Piece.call f).text.length = r := by
    rw [show f.toList ++ '(' :: r = (Piece.call f).text ++ r by simp [Piece.text], List.drop_left]
  rw [hcons, pieces_cons, piece_call hf hcons.symm, ← hcons, hdrop, join_solid (by simp [Piece.IsSolid])]
  simp [Piece.first, Piece.last, Piece.text]

theorem join_constant {k : String} (hk : k ∈ constantNames) (hr : endsName r = true) :
    join previous (pieces (k.toList ++ r)) =
      starText previous .letter ++ (k.toList ++ join (some .constant) (pieces r)) := by
  obtain ⟨c, s, hs, -⟩ := head_of_mem_constantNames hk
  have hcons : k.toList ++ r = c :: (s ++ r) := by rw [hs, List.cons_append]
  have hdrop : (k.toList ++ r).drop (Piece.constant k).text.length = r := List.drop_left
  rw [hcons, pieces_cons, piece_constant hk hcons.symm hr, ← hcons, hdrop, join_solid (by simp [Piece.IsSolid])]
  rfl

/-! ## Numbers -/

theorem ofChar_of_isDigit {c : Char} (h : isDigit c = true) : Kind.ofChar c = .digit := by
  rw [Kind.ofChar, if_pos h]

theorem join_digits {ds : List Char} (hds : ∀ c ∈ ds, isDigit c = true) (hne : ds ≠ []) :
    join previous (pieces (ds ++ r)) = starText previous .digit ++ (ds ++ join (some .digit) (pieces r)) := by
  induction ds generalizing previous with
  | nil => exact absurd rfl hne
  | cons d ds ih =>
    have hd := hds d List.mem_cons_self
    have hblank := isBlank_eq_false_of_isAlphanumeric (isAlphanumeric_of_isDigit hd)
    rw [List.cons_append, join_sign hblank (isLetter_eq_false_of_isDigit hd), ofChar_of_isDigit hd]
    cases ds with
    | nil => rfl
    | cons e ds =>
      rw [ih (fun c hc => hds c (List.mem_cons_of_mem d hc)) (List.cons_ne_nil e ds)]
      rfl

theorem join_numeral (n : Numeral) :
    join previous (pieces (n.text ++ r)) = starText previous .digit ++ (n.text ++ join (some .digit) (pieces r)) := by
  unfold Numeral.text
  rw [List.append_assoc, join_digits n.whole.2.2 n.whole.2.1]
  cases n.fraction with
  | none => simp
  | some ds =>
    have hpoint : Kind.ofChar '.' = .other := by decide
    rw [Option.elim_some, List.cons_append, join_sign (by decide) (by decide), hpoint, starText_other,
      join_digits ds.2.2 ds.2.1]
    simp [starText, Kind.multiplies]

end

/-! ## Factors, products and expressions -/

/-- The text begins with nothing that could belong to a product before it. -/
def Stops (r : List Char) : Prop := ∀ c ∈ r.head?, c ∈ ')' :: joints

theorem stops_nil : Stops [] := fun _ h => by cases h

theorem stops_cons {c : Char} (hc : c ∈ ')' :: joints) (r : List Char) : Stops (c :: r) := fun d hd => by
  obtain rfl := Option.some.inj hd
  exact hc

theorem Stops.endsName {r : List Char} (h : Stops r) : endsName r = true := by
  have hall : ∀ c ∈ ')' :: joints, isAlphanumeric c = false := by decide
  cases r with
  | nil => rfl
  | cons c r => rw [Heightfield.endsName, hall c (h c rfl)]; rfl

theorem join_joint {c : Char} (hc : c ∈ ')' :: joints) (previous : Option Kind) (r : List Char) :
    join previous (pieces (c :: r)) = c :: join (some (.ofChar c)) (pieces r) := by
  have hall : ∀ c ∈ ')' :: joints, isBlank c = false ∧ isLetter c = false ∧
      (Kind.ofChar c = .other ∨ Kind.ofChar c = .closing) := by decide
  obtain ⟨hb, hl, hk⟩ := hall c hc
  rw [join_sign hb hl]
  rcases hk with hk | hk
  · rw [hk, starText_other, List.nil_append]
  · rw [hk, starText_closing, List.nil_append]

/-- A product is not multiplied by what it stops before. -/
theorem Stops.join_eq {r : List Char} (h : Stops r) (previous : Option Kind) :
    join previous (pieces r) = join none (pieces r) := by
  cases r with
  | nil => rw [pieces, join, join]
  | cons c r => rw [join_joint (h c rfl), join_joint (h c rfl)]

theorem Product.endsName_written (p : Product .group) (times r : List Char) :
    endsName (p.written times ++ r) = true := by
  cases p with
  | factor f =>
    cases f with
    | group e => rfl
  | times f p h =>
    cases f with
    | group e => rfl

mutual

/-- **A factor is cut off whole, and its products are written out.** -/
theorem join_factor : ∀ {a : Shape} (previous : Option Kind) (f : Factor a) (r : List Char),
    (a = .constant → endsName r = true) → join previous (pieces (f.written [] ++ r)) =
      starText previous a.first ++ (f.written ['*'] ++ join (some a.last) (pieces r))
  | _, _, .number n, _, _ => join_numeral n
  | _, previous, .letter c, r, _ => by
    have hkind : ∀ c ∈ letters, Kind.ofChar c = .letter := by decide
    have hjoin : join previous (pieces (c.1 :: r)) =
        starText previous .letter ++ c.1 :: join (some .letter) (pieces r) := by
      rw [join_char (piece_letter c.2), hkind c.1 c.2]
    exact hjoin
  | _, _, .constant k, _, hr => join_constant k.2 (hr rfl)
  | _, previous, .call f arguments, r, _ => by
    have hinner := join_expression (some .opening) (fun _ => rfl) arguments (')' :: r) (stops_cons List.mem_cons_self r)
    simp only [Factor.written, List.append_assoc, List.cons_append, List.nil_append] at hinner ⊢
    rw [join_name f.2, hinner, join_joint List.mem_cons_self]
    rfl
  | _, previous, .emptyCall f, r, _ => by
    simp only [Factor.written, List.append_assoc, List.cons_append, List.nil_append]
    rw [join_name f.2, join_joint List.mem_cons_self]
    rfl
  | _, previous, .group e, r, _ => by
    have hinner := join_expression (some .opening) (fun _ => rfl) e (')' :: r) (stops_cons List.mem_cons_self r)
    simp only [Factor.written, List.append_assoc, List.cons_append, List.nil_append] at hinner ⊢
    rw [join_sign (by decide) (by decide), show Kind.ofChar '(' = .opening by decide, hinner,
      join_joint List.mem_cons_self]
    rfl

theorem join_product : ∀ {a : Shape} (previous : Option Kind) (p : Product a) (r : List Char), Stops r →
    join previous (pieces (p.written [] ++ r)) =
      starText previous a.first ++ (p.written ['*'] ++ join none (pieces r))
  | a, previous, .factor f, r, hr => by
    have hfactor := join_factor previous f r fun _ => hr.endsName
    rw [hr.join_eq] at hfactor
    exact hfactor
  | a, previous, @Product.times _ b f p h, r, hr => by
    have hnext : a = .constant → endsName (p.written [] ++ r) = true := by
      rintro rfl
      obtain rfl : b = .group := by simpa [Shape.meets] using h
      exact p.endsName_written [] r
    have hfactor := join_factor previous f (p.written [] ++ r) hnext
    have hproduct := join_product (some a.last) p r hr
    rw [starText_of_multiplies (Shape.multiplies_of_meets h)] at hproduct
    simp only [Product.written, List.nil_append, List.append_assoc, List.cons_append] at hfactor hproduct ⊢
    rw [hfactor, hproduct]

theorem join_expression : ∀ (previous : Option Kind), (∀ k, starText previous k = []) → ∀ (e : Expression)
    (r : List Char), Stops r →
    join previous (pieces (e.written [] ++ r)) = e.written ['*'] ++ join none (pieces r)
  | previous, hprevious, .product p, r, hr => by
    have hproduct := join_product previous p r hr
    rw [hprevious] at hproduct
    exact hproduct
  | previous, hprevious, .joined p c e, r, hr => by
    have hc : c.1 ∈ ')' :: joints := List.mem_cons_of_mem _ c.2
    have hother : ∀ c ∈ joints, Kind.ofChar c = .other := by decide
    have hproduct := join_product previous p (c.1 :: (e.written [] ++ r)) (stops_cons hc _)
    have hrest := join_expression (some (.ofChar c.1)) (fun k => by rw [hother c.1 c.2]; rfl) e r hr
    rw [hprevious, join_joint hc, hrest] at hproduct
    simp only [Expression.written, List.append_assoc, List.cons_append, List.nil_append] at hproduct ⊢
    exact hproduct

end

end Juxtaposition

open Juxtaposition

/-- **Juxtaposed products are written out.**  An expression whose products are factors side by side is explicit
with exactly one star between each two consecutive factors, also in the arguments of calls and between
parentheses. -/
theorem explicitProducts_written (e : Expression) :
    explicitProducts (String.ofList (e.written [])) = String.ofList (e.written ['*']) := by
  have hjoin := join_expression none (fun _ => rfl) e [] stops_nil
  rw [List.append_nil, pieces, join, List.append_nil] at hjoin
  rw [explicitProducts, String.toList_ofList, explicit, hjoin]

end Heightfield
