import Heightfield.Vocabulary
/-!
# Juxtaposition made explicit

Mathematicians write a product by putting its factors side by side: `2x`, `xsin(y)`,
`(x+1)(x-1)`.  This module cuts a text into *pieces* — calls `sin(`, constants `pi`,
single characters — and writes a `*` between two neighbouring pieces whenever the
first can end a factor and the second can begin one.  Blanks between them do not
matter.  Nothing else changes: the pieces of a text are the text, in order.
-/

namespace Heightfield

namespace Juxtaposition

/-- What a piece looks like from the side of its neighbour. -/
inductive Kind where
  | digit | letter | opening | closing | constant | other
  deriving DecidableEq, Repr

inductive Piece where
  /-- A name of the function table with its opening parenthesis. -/
  | call (name : String)
  | constant (name : String)
  | blank (c : Char)
  | char (c : Char)
  deriving DecidableEq, Repr

def Kind.ofChar (c : Char) : Kind :=
  if isDigit c then .digit
  else if isLetter c then .letter
  else if c = '(' then .opening
  else if c = ')' then .closing
  else .other

namespace Piece

def text : Piece → List Char
  | call name => name.toList ++ ['(']
  | constant name => name.toList
  | blank c => [c]
  | char c => [c]

/-- How the piece begins.  A name begins as a letter does. -/
def first : Piece → Kind
  | call _ => .letter
  | constant _ => .letter
  | blank _ => .other
  | char c => .ofChar c

def last : Piece → Kind
  | call _ => .opening
  | constant _ => .constant
  | blank _ => .other
  | char c => .ofChar c

end Piece

/-- Whether `a` ends a factor that is multiplied by the factor `b` begins.  Two digits
in a row are one number, even across a blank. -/
def Kind.multiplies : Kind → Kind → Bool
  | .digit, b => b = .letter || b = .opening
  | .letter, b | .closing, b | .constant, b => b = .digit || b = .letter || b = .opening
  | .opening, _ | .other, _ => false

/-! ## Cutting a text into pieces -/

/-- The piece at the beginning of `c :: s`. -/
def piece (c : Char) (s : List Char) : Piece :=
  if isBlank c then .blank c
  else match calledFunction? (c :: s) with
    | some f => .call f
    | none => match leadingConstant? (c :: s) with
      | some k => .constant k
      | none => .char c

theorem eq_append_of_calledFunction? {s : List Char} {f : String} (h : calledFunction? s = some f) :
    f ∈ functionNames ∧ ∃ r, s = f.toList ++ ['('] ++ r := by
  refine ⟨List.mem_of_find?_eq_some h, ?_⟩
  have h' := List.find?_some h
  obtain ⟨r, hr⟩ := Option.isSome_iff_exists.1 h'
  exact ⟨r, eq_append_of_after? hr⟩

theorem eq_append_of_leadingConstant? {s : List Char} {k : String} (h : leadingConstant? s = some k) :
    k ∈ constantNames ∧ ∃ r, s = k.toList ++ r ∧ endsName r = true := by
  refine ⟨List.mem_of_find?_eq_some h, ?_⟩
  have h' := List.find?_some h
  cases hr : after? k.toList s with
  | none => simp [hr] at h'
  | some r => exact ⟨r, eq_append_of_after? hr, by simpa [hr] using h'⟩

theorem length_pos_of_mem_constantNames : ∀ k ∈ constantNames, 0 < k.toList.length := by
  decide +kernel

/-- The first piece is a non-empty beginning of the text. -/
theorem exists_eq_text_piece_append (c : Char) (s : List Char) :
    (∃ r, c :: s = (piece c s).text ++ r) ∧ 0 < (piece c s).text.length := by
  unfold piece
  split
  · exact ⟨⟨s, rfl⟩, by simp [Piece.text]⟩
  · split
    · next f hf =>
      obtain ⟨_, r, hr⟩ := eq_append_of_calledFunction? hf
      exact ⟨⟨r, hr⟩, by simp [Piece.text]⟩
    · split
      · next k hk =>
        obtain ⟨hm, r, hr, _⟩ := eq_append_of_leadingConstant? hk
        exact ⟨⟨r, hr⟩, length_pos_of_mem_constantNames k hm⟩
      · exact ⟨⟨s, rfl⟩, by simp [Piece.text]⟩

/-- The pieces of a text, from left to right. -/
def pieces : List Char → List Piece
  | [] => []
  | c :: s => piece c s :: pieces ((c :: s).drop (piece c s).text.length)
termination_by s => s.length
decreasing_by
  have := (exists_eq_text_piece_append c s).2
  simp only [List.length_drop, List.length_cons]
  omega

/-- **The pieces of a text are the text.** -/
theorem flatMap_text_pieces (s : List Char) : (pieces s).flatMap Piece.text = s := by
  fun_induction pieces s with
  | case1 => rfl
  | case2 c s ih =>
    obtain ⟨r, hr⟩ := (exists_eq_text_piece_append c s).1
    rw [List.flatMap_cons, ih]
    conv => lhs; rhs; rw [hr]
    rw [List.drop_left, ← hr]

/-! ## Writing the products -/

/-- The text of the pieces `ps` with its products written out; `previous` is how the
last piece before them ended, if one did. -/
def join : Option Kind → List Piece → List Char
  | _, [] => []
  | previous, .blank c :: ps => c :: join previous ps
  | previous, p :: ps =>
    (if previous.any (·.multiplies p.first) then '*' :: p.text else p.text) ++ join (some p.last) ps

/-- The text with a `*` written for every product that is only a juxtaposition. -/
def explicit (s : List Char) : List Char := join none (pieces s)

end Juxtaposition

/-- The formula with every product written out: `2xsin(y)` becomes `2*x*sin(y)`. -/
def explicitProducts (s : String) : String :=
  String.ofList (Juxtaposition.explicit s.toList)

end Heightfield
