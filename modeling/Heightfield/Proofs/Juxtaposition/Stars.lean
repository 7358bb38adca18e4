import Heightfield.Proofs.Juxtaposition.Piece
/-!
# Where the product signs are written

The explicit text is the text with stars put in.  To say which stars were put in, `marked` keeps each
character of the explicit text apart from the stars that are new.  A new star stands between two pieces
whose characters are juxtaposed (`star_between`), and characters that are still juxtaposed in the explicit
text belong to one name (`glued_of_join`).  `explicitProducts_marked` is both together.
-/
namespace Heightfield
namespace Juxtaposition

/-! ## Marked texts -/

/-- A character of an explicit text: one of the text, or a star that was put in. -/
inductive Mark where
  | kept (c : Char)
  | star
  deriving DecidableEq, Repr

namespace Mark

def char : Mark → Char
  | kept c => c
  | star => '*'

/-- The character, if it is one of the text. -/
def kept? : Mark → Option Char
  | kept c => some c
  | star => none

theorem map_char_kept (s : List Char) : (s.map kept).map char = s := by
  rw [List.map_map]
  exact List.map_id' s

theorem filterMap_kept?_kept (s : List Char) : (s.map kept).filterMap kept? = s := by
  rw [List.filterMap_map]
  exact List.filterMap_some

end Mark

open Mark (kept star)

/-- The star before a piece, if one is put in. -/
def starBefore (previous : Option Kind) (p : Piece) : List Mark :=
  if previous.any (·.multiplies p.first) then [star] else []

theorem starBefore_cases (previous : Option Kind) (p : Piece) :
    (starBefore previous p = [star] ∧ previous.any (·.multiplies p.first) = true) ∨
      (starBefore previous p = [] ∧ previous.any (·.multiplies p.first) = false) := by
  unfold starBefore
  split
  · rename_i hm
    exact Or.inl ⟨rfl, hm⟩
  · rename_i hm
    exact Or.inr ⟨rfl, Bool.eq_false_iff.2 hm⟩

/-- `join`, with the new stars kept apart. -/
def marks : Option Kind → List Piece → List Mark
  | _, [] => []
  | previous, .blank c :: ps => kept c :: marks previous ps
  | previous, p :: ps => starBefore previous p ++ p.text.map kept ++ marks (some p.last) ps

/-- The explicit text, with the new stars kept apart. -/
def marked (s : List Char) : List Mark := marks none (pieces s)

theorem marks_cons {p : Piece} (hp : p.IsSolid) (previous : Option Kind) (ps : List Piece) :
    marks previous (p :: ps) = starBefore previous p ++ (p.text.map kept ++ marks (some p.last) ps) := by
  cases p with
  | blank c => exact absurd rfl (hp c)
  | _ => simp [marks]

theorem join_cons {p : Piece} (hp : p.IsSolid) (previous : Option Kind) (ps : List Piece) :
    join previous (p :: ps) = (starBefore previous p).map Mark.char ++ (p.text ++ join (some p.last) ps) := by
  cases p with
  | blank c => exact absurd rfl (hp c)
  | _ =>
    simp only [join, starBefore]
    split <;> simp [Mark.char]

/-- The marks of the pieces are the explicit text. -/
theorem map_char_marks : ∀ (previous : Option Kind) (ps : List Piece),
    (marks previous ps).map Mark.char = join previous ps
  | _, [] => rfl
  | previous, p :: ps => by
    rcases p.blank_or_isSolid with ⟨c, rfl⟩ | hp
    · exact congrArg (c :: ·) (map_char_marks previous ps)
    · rw [marks_cons hp, join_cons hp, List.map_append, List.map_append, Mark.map_char_kept,
        map_char_marks (some p.last) ps]

theorem filterMap_starBefore (previous : Option Kind) (p : Piece) :
    (starBefore previous p).filterMap Mark.kept? = [] := by
  rcases starBefore_cases previous p with ⟨hstar, -⟩ | ⟨hstar, -⟩ <;> rw [hstar] <;> rfl

/-- Without the new stars they are the text. -/
theorem filterMap_kept?_marks : ∀ (previous : Option Kind) (ps : List Piece),
    (marks previous ps).filterMap Mark.kept? = ps.flatMap Piece.text
  | _, [] => rfl
  | previous, p :: ps => by
    rcases p.blank_or_isSolid with ⟨c, rfl⟩ | hp
    · exact congrArg (c :: ·) (filterMap_kept?_marks previous ps)
    · rw [marks_cons hp, List.filterMap_append, List.filterMap_append, filterMap_starBefore,
        Mark.filterMap_kept?_kept, filterMap_kept?_marks (some p.last) ps, List.flatMap_cons, List.nil_append]

/-! ## New stars -/

/-- The last character of `s` that is no blank multiplies as the kind says. -/
def EndsAs (s : List Char) : Option Kind → Prop
  | none => True
  | some k => ∃ l a blanks, s = l ++ a :: blanks ∧ (∀ c ∈ blanks, isBlank c = true) ∧
      ∀ b, k.multiplies (Kind.ofChar b) = juxtaposed a b

theorem EndsAs.append_blank {s : List Char} {previous : Option Kind} (h : EndsAs s previous) {c : Char}
    (hc : isBlank c = true) : EndsAs (s ++ [c]) previous := by
  cases previous with
  | none => trivial
  | some k =>
    obtain ⟨l, a, blanks, rfl, hb, hk⟩ := h
    refine ⟨l, a, blanks ++ [c], by simp, fun d hd => ?_, hk⟩
    rcases List.mem_append.1 hd with hd | hd
    · exact hb d hd
    · rwa [List.mem_singleton.1 hd]

theorem endsAs_append_text {p : Piece} (h : p.Recognised) (hp : p.IsSolid) (s : List Char) :
    EndsAs (s ++ p.text) (some p.last) := by
  have ht := List.dropLast_concat_getLast h.text_ne_nil
  refine ⟨s ++ p.text.dropLast, p.text.getLast h.text_ne_nil, [], ?_, nofun, ?_⟩
  · rw [List.append_assoc, ht]
  · exact Piece.last_multiplies h hp ht.symm

/-- Where a new star can stand: right before a character, after a juxtaposed one. -/
def Placed (before : List Char) (after : List Mark) : Prop :=
  ∃ b rest l a blanks, after = kept b :: rest ∧ before = l ++ a :: blanks ∧
    (∀ c ∈ blanks, isBlank c = true) ∧ juxtaposed a b = true

theorem placed_before_piece {p : Piece} (h : p.Recognised) (hp : p.IsSolid) {s : List Char}
    {previous : Option Kind} (hs : EndsAs s previous) (hm : previous.any (·.multiplies p.first) = true)
    (rest : List Mark) : Placed s (p.text.map kept ++ rest) := by
  obtain ⟨b, t, ht⟩ := List.exists_cons_of_ne_nil h.text_ne_nil
  cases previous with
  | none => cases hm
  | some k =>
    obtain ⟨l, a, blanks, rfl, hb, hk⟩ := hs
    rw [Piece.first_eq_ofChar h hp ht] at hm
    exact ⟨b, t.map kept ++ rest, l, a, blanks, by rw [ht]; rfl, rfl, hb, (hk b).symm.trans hm⟩

/-- No new star stands among the kept characters of a piece. -/
theorem exists_of_kept_append_eq {r rest : List Mark} : ∀ {t : List Char} {l : List Mark},
    t.map kept ++ rest = l ++ star :: r → ∃ l', l = t.map kept ++ l' ∧ rest = l' ++ star :: r
  | [], l, h => ⟨l, rfl, h⟩
  | c :: t, [], h => by cases h
  | c :: t, m :: l, h => by
    simp only [List.map_cons, List.cons_append, List.cons.injEq] at h
    obtain ⟨l', rfl, hrest⟩ := exists_of_kept_append_eq h.2
    exact ⟨l', by rw [← h.1]; rfl, hrest⟩

/-- **A new star stands between two pieces, before a character that is juxtaposed to the last one before
it.**  Here `s` is the text before the pieces. -/
theorem star_between {r : List Mark} : ∀ {ps : List Piece} {previous : Option Kind} {s : List Char} {l : List Mark},
    (∀ p ∈ ps, p.Recognised) → EndsAs s previous → marks previous ps = l ++ star :: r →
      Placed (s ++ l.filterMap Mark.kept?) r ∧
        ∃ qs rs, ps = qs ++ rs ∧ l.filterMap Mark.kept? = qs.flatMap Piece.text
  | [], _, _, l, _, _, h => by cases l <;> cases h
  | p :: ps, previous, s, l, hps, hs, h => by
    have hp := hps p List.mem_cons_self
    have hps' : ∀ q ∈ ps, q.Recognised := fun q hq => hps q (List.mem_cons_of_mem p hq)
    rcases p.blank_or_isSolid with ⟨c, rfl⟩ | hsolid
    · cases l with
      | nil => cases h
      | cons m l =>
        obtain ⟨rfl, htail⟩ := List.cons.inj h
        obtain ⟨hplaced, qs, rs, rfl, hqs⟩ := star_between hps' (hs.append_blank hp) htail
        refine ⟨?_, .blank c :: qs, rs, rfl, congrArg (c :: ·) hqs⟩
        rw [List.append_assoc] at hplaced
        exact hplaced
    · -- a star further on comes from the pieces after this one
      have further : ∀ {l'}, p.text.map kept ++ marks (some p.last) ps = l' ++ star :: r →
          Placed (s ++ l'.filterMap Mark.kept?) r ∧
            ∃ qs rs, p :: ps = qs ++ rs ∧ l'.filterMap Mark.kept? = qs.flatMap Piece.text := by
        intro l' h'
        obtain ⟨l'', rfl, h''⟩ := exists_of_kept_append_eq h'
        obtain ⟨hplaced, qs, rs, rfl, hqs⟩ := star_between hps' (endsAs_append_text hp hsolid s) h''
        rw [List.filterMap_append, Mark.filterMap_kept?_kept]
        refine ⟨?_, p :: qs, rs, rfl, congrArg (p.text ++ ·) hqs⟩
        rw [List.append_assoc] at hplaced
        exact hplaced
      rw [marks_cons hsolid] at h
      rcases starBefore_cases previous p with ⟨hstar, hm⟩ | ⟨hstar, -⟩
      · rw [hstar] at h
        cases l with
        | nil =>
          obtain ⟨-, rfl⟩ := List.cons.inj h
          refine ⟨?_, [], p :: ps, rfl, rfl⟩
          rw [List.filterMap_nil, List.append_nil]
          exact placed_before_piece hp hsolid hs hm _
        | cons m l =>
          obtain ⟨rfl, htail⟩ := List.cons.inj h
          have hl : p.text.map kept ++ marks (some p.last) ps = l ++ star :: r := htail
          have hfurther := further hl
          exact hfurther
      · rw [hstar] at h
        exact further h

/-! ## Characters that stay side by side -/

/-- A name of the tables as it stands in a text: a function with its parenthesis, or a constant. -/
def IsToken (t : List Char) : Prop :=
  (∃ f ∈ functionNames, t = f.toList ++ ['(']) ∨ ∃ k ∈ constantNames, t = k.toList

/-- The two characters after `l` and before `r` lie inside one token. -/
def InsideToken (l : List Char) (a b : Char) (r : List Char) : Prop :=
  ∃ l' u v r', l = l' ++ u ∧ r = v ++ r' ∧ IsToken (u ++ a :: b :: v)

theorem InsideToken.append_left {l r : List Char} {a b : Char} (h : InsideToken l a b r) (s : List Char) :
    InsideToken (s ++ l) a b r := by
  obtain ⟨l', u, v, r', rfl, rfl, ht⟩ := h
  exact ⟨s ++ l', u, v, r', (List.append_assoc s l' u).symm, rfl, ht⟩

theorem isToken_text {p : Piece} (h : p.Recognised) {u v : List Char} {a b : Char}
    (hp : p.text = u ++ a :: b :: v) : IsToken p.text := by
  have hlen : ∀ c : Char, [c] ≠ u ++ a :: b :: v := by
    intro c hc
    have := congrArg List.length hc
    simp only [List.length_append, List.length_cons, List.length_nil] at this
    omega
  cases p with
  | call f => exact Or.inl ⟨f, h, rfl⟩
  | constant k => exact Or.inr ⟨k, h, rfl⟩
  | blank c => exact absurd hp (hlen c)
  | char c => exact absurd hp (hlen c)

/-- **What comes next after a piece is a star, or is not multiplied by it.** -/
theorem star_or_not_multiplies {b : Char} {r : List Char} (hb : isBlank b = false) {k : Kind} :
    ∀ {ps : List Piece} {blanks : List Char}, (∀ p ∈ ps, p.Recognised) → (∀ c ∈ blanks, isBlank c = true) →
      join (some k) ps = blanks ++ b :: r → b = '*' ∨ k.multiplies (Kind.ofChar b) = false
  | [], blanks, _, _, h => by cases blanks <;> cases h
  | p :: ps, blanks, hps, hblanks, h => by
    have hp := hps p List.mem_cons_self
    rcases p.blank_or_isSolid with ⟨c, rfl⟩ | hsolid
    · cases blanks with
      | nil =>
        obtain ⟨rfl, -⟩ := List.cons.inj h
        rw [show isBlank c = true from hp] at hb
        cases hb
      | cons d blanks =>
        obtain ⟨rfl, htail⟩ := List.cons.inj h
        exact star_or_not_multiplies hb (fun q hq => hps q (List.mem_cons_of_mem _ hq))
          (fun e he => hblanks e (List.mem_cons_of_mem _ he)) htail
    · obtain ⟨c, t, ht⟩ := List.exists_cons_of_ne_nil hp.text_ne_nil
      have hc : isBlank c = false := hp.isBlank_eq_false hsolid (by rw [ht]; exact List.mem_cons_self)
      rw [join_cons hsolid, ht] at h
      rcases starBefore_cases (some k) p with ⟨hstar, -⟩ | ⟨hstar, hm⟩
      · -- the star is no blank, so it is `b`
        rw [hstar] at h
        cases blanks with
        | nil => exact Or.inl (List.cons.inj h).1.symm
        | cons d blanks =>
          obtain ⟨rfl, -⟩ := List.cons.inj h
          exact absurd (hblanks _ List.mem_cons_self) (by decide)
      · rw [hstar] at h
        cases blanks with
        | nil =>
          obtain ⟨rfl, -⟩ := List.cons.inj h
          rw [Piece.first_eq_ofChar hp hsolid ht] at hm
          exact Or.inr hm
        | cons d blanks =>
          obtain ⟨rfl, -⟩ := List.cons.inj h
          rw [hblanks c List.mem_cons_self] at hc
          cases hc

/-- Where the character after `l` stands in two joined texts: in the second, at the end of the first, or
before another one in the first. -/
theorem append_eq_append_cons {t rest l s : List Char} {a : Char} (h : t ++ rest = l ++ a :: s) :
    (∃ m, l = t ++ m ∧ rest = m ++ a :: s) ∨ (t = l ++ [a] ∧ rest = s) ∨
      ∃ d m, t = l ++ a :: d :: m ∧ s = d :: (m ++ rest) := by
  rcases List.append_eq_append_iff.1 h with ⟨m, hl, hrest⟩ | ⟨m, ht, hs⟩
  · exact Or.inl ⟨m, hl, hrest⟩
  · cases m with
    | nil => exact Or.inl ⟨[], by simp [ht], by simpa using hs.symm⟩
    | cons d m =>
      obtain ⟨rfl, htail⟩ := List.cons.inj hs
      cases m with
      | nil => exact Or.inr (Or.inl ⟨ht, htail.symm⟩)
      | cons e m => exact Or.inr (Or.inr ⟨e, m, ht, htail⟩)

theorem juxtaposed_star_left (b : Char) : juxtaposed '*' b = false := by
  simp [juxtaposed, isLetter, isDigit]

theorem juxtaposed_star_right (a : Char) : juxtaposed a '*' = false := by
  simp [juxtaposed, isLetter, isDigit]

/-- Where the two characters stand beside a piece: both inside it, or both behind it.  If the first ends the piece, what
comes next is not juxtaposed to it. -/
theorem glued_of_text_append {p : Piece} (hp : p.Recognised) (hsolid : p.IsSolid) {a b : Char} (hab : juxtaposed a b = true)
    {l blanks r rest : List Char} (hblanks : ∀ c ∈ blanks, isBlank c = true)
    (hnext : rest = blanks ++ b :: r → b = '*' ∨ p.last.multiplies (Kind.ofChar b) = false)
    (hrest : ∀ {m}, rest = m ++ a :: (blanks ++ b :: r) → blanks = [] ∧ InsideToken m a b r)
    (h : p.text ++ rest = l ++ a :: (blanks ++ b :: r)) : blanks = [] ∧ InsideToken l a b r := by
  rcases append_eq_append_cons h with ⟨m, rfl, hm⟩ | ⟨ht, hbehind⟩ | ⟨d, m, ht, hm⟩
  · obtain ⟨hnil, hin⟩ := hrest hm
    exact ⟨hnil, hin.append_left p.text⟩
  · rcases hnext hbehind with rfl | hk
    · rw [juxtaposed_star_right] at hab
      cases hab
    · rw [Piece.last_multiplies hp hsolid ht, hab] at hk
      cases hk
  · cases blanks with
    | nil =>
      obtain ⟨rfl, rfl⟩ := List.cons.inj hm
      refine ⟨rfl, [], l, m, _, rfl, rfl, ?_⟩
      rw [← ht]
      exact isToken_text hp ht
    | cons c blanks =>
      obtain ⟨rfl, -⟩ := List.cons.inj hm
      have hc := hp.isBlank_eq_false hsolid (show c ∈ p.text by rw [ht]; simp)
      rw [hblanks c List.mem_cons_self] at hc
      cases hc

/-- **Juxtaposed characters of an explicit text lie inside one token.** -/
theorem glued_of_join {a b : Char} {r : List Char} (hab : juxtaposed a b = true) :
    ∀ {ps : List Piece} {previous : Option Kind} {l blanks : List Char}, (∀ p ∈ ps, p.Recognised) →
      (∀ c ∈ blanks, isBlank c = true) → join previous ps = l ++ a :: (blanks ++ b :: r) →
      blanks = [] ∧ InsideToken l a b r
  | [], _, l, _, _, _, h => by cases l <;> cases h
  | p :: ps, previous, l, blanks, hps, hblanks, h => by
    have hp := hps p List.mem_cons_self
    have hps' : ∀ q ∈ ps, q.Recognised := fun q hq => hps q (List.mem_cons_of_mem p hq)
    obtain ⟨ha, hb⟩ := isBlank_eq_false_of_juxtaposed hab
    rcases p.blank_or_isSolid with ⟨c, rfl⟩ | hsolid
    · cases l with
      | nil =>
        obtain ⟨rfl, -⟩ := List.cons.inj h
        rw [show isBlank c = true from hp] at ha
        cases ha
      | cons d l =>
        obtain ⟨rfl, htail⟩ := List.cons.inj h
        obtain ⟨hnil, hin⟩ := glued_of_join hab hps' hblanks htail
        exact ⟨hnil, hin.append_left [c]⟩
    · have within : ∀ {l'}, p.text ++ join (some p.last) ps = l' ++ a :: (blanks ++ b :: r) →
          blanks = [] ∧ InsideToken l' a b r := fun h' =>
        glued_of_text_append hp hsolid hab hblanks (star_or_not_multiplies hb hps' hblanks)
          (fun hm => glued_of_join hab hps' hblanks hm) h'
      rw [join_cons hsolid] at h
      rcases starBefore_cases previous p with ⟨hstar, -⟩ | ⟨hstar, -⟩
      · rw [hstar] at h
        cases l with
        | nil =>
          obtain ⟨rfl, -⟩ := List.cons.inj h
          rw [Mark.char, juxtaposed_star_left] at hab
          cases hab
        | cons d l =>
          obtain ⟨rfl, htail⟩ := List.cons.inj h
          obtain ⟨hnil, hin⟩ := within htail
          exact ⟨hnil, hin.append_left [_]⟩
      · rw [hstar] at h
        exact within h

end Juxtaposition

open Juxtaposition

/-- **Writing out the products puts in stars and nothing else.**  Without the new stars the explicit text
is the text.  In it juxtaposed characters, blanks between them or not, lie inside one name.  A new star
stands right before a character that is juxtaposed to the last one before it, and never inside a piece. -/
theorem explicitProducts_marked (s : String) :
    (explicitProducts s).toList = (marked s.toList).map Mark.char ∧
    (marked s.toList).filterMap Mark.kept? = s.toList ∧
    (∀ l a blanks b r, (explicitProducts s).toList = l ++ a :: (blanks ++ b :: r) →
      (∀ c ∈ blanks, isBlank c = true) → juxtaposed a b = true → blanks = [] ∧ InsideToken l a b r) ∧
    ∀ l r, marked s.toList = l ++ .star :: r →
      Placed (l.filterMap Mark.kept?) r ∧
        ∃ ps qs, pieces s.toList = ps ++ qs ∧ l.filterMap Mark.kept? = ps.flatMap Piece.text := by
  have hrec := recognised_of_mem_pieces s.toList
  have htext : (explicitProducts s).toList = join none (pieces s.toList) := String.toList_ofList
  refine ⟨?_, ?_, ?_, ?_⟩
  · rw [htext, marked, map_char_marks]
  · rw [marked, filterMap_kept?_marks, flatMap_text_pieces]
  · intro l a blanks b r h hblanks hab
    rw [htext] at h
    exact glued_of_join hab hrec hblanks h
  · intro l r h
    exact star_between hrec (s := []) (show EndsAs [] none from trivial) h

example : explicitProducts "2x sin(pi x)" = "2*x *sin(pi *x)" := by decide +kernel

end Heightfield
