import Heightfield.Proofs.Juxtaposition.Stars
/-!
# Writing the products twice

The explicit text, cut again, has the pieces of the text and the stars between them, except that a letter
which was glued to its neighbour may now stand alone and be read as a constant: `xe` is two letters, `x*e`
a letter, a star and a constant (`exists_pieces_append_join`).  A one-letter constant meets its neighbours
as a letter does, so the second pass puts in nothing.
-/
namespace Heightfield
namespace Juxtaposition

/-! ## Names and what follows them -/

/-- Two names that begin one text and end where no letter or digit follows are the same. -/
theorem eq_of_append_eq {r r' : List Char} (hr : endsName r = true) (hr' : endsName r' = true) :
    ∀ {a b : List Char}, (∀ c ∈ a, isAlphanumeric c = true) → (∀ c ∈ b, isAlphanumeric c = true) →
      a ++ r = b ++ r' → a = b
  | [], [], _, _, _ => rfl
  | [], c :: b, _, hb, h => by
    rw [show r = c :: (b ++ r') from h, endsName, hb c List.mem_cons_self] at hr
    cases hr
  | c :: a, [], ha, _, h => by
    rw [show r' = c :: (a ++ r) from h.symm, endsName, ha c List.mem_cons_self] at hr'
    cases hr'
  | c :: a, d :: b, ha, hb, h => by
    obtain ⟨rfl, htail⟩ := List.cons.inj h
    rw [eq_of_append_eq hr hr' (fun e he => ha e (List.mem_cons_of_mem c he))
      (fun e he => hb e (List.mem_cons_of_mem c he)) htail]

theorem endsName_opening (s : List Char) : endsName ('(' :: s) = true := rfl

theorem isAlphanumeric_of_mem_constantNames {k : String} (hk : k ∈ constantNames) :
    ∀ c ∈ k.toList, isAlphanumeric c = true := fun c hc => by
  exact isAlphanumeric_of_isLetter (isLetter_of_mem_constantNames hk c hc)

theorem calledFunction?_append {f : String} (hf : f ∈ functionNames) (s : List Char) :
    calledFunction? (f.toList ++ '(' :: s) = some f := by
  cases h : calledFunction? (f.toList ++ '(' :: s) with
  | none =>
    have hnone := List.find?_eq_none.1 h f hf
    rw [show f.toList ++ '(' :: s = (f.toList ++ ['(']) ++ s by simp, after?_append] at hnone
    exact absurd rfl hnone
  | some g =>
    obtain ⟨hg, r, hr⟩ := eq_append_of_calledFunction? h
    rw [List.append_assoc] at hr
    rw [String.toList_inj.1 (eq_of_append_eq (endsName_opening _) (endsName_opening _)
      (isAlphanumeric_of_mem_functionNames hf) (isAlphanumeric_of_mem_functionNames hg) hr)]

theorem leadingConstant?_append {k : String} (hk : k ∈ constantNames) {s : List Char} (hs : endsName s = true) :
    leadingConstant? (k.toList ++ s) = some k := by
  cases h : leadingConstant? (k.toList ++ s) with
  | none =>
    have hnone := List.find?_eq_none.1 h k hk
    rw [after?_append, Option.map_some, Option.getD_some, hs] at hnone
    exact absurd rfl hnone
  | some l =>
    obtain ⟨hl, r, hr, hends⟩ := eq_append_of_leadingConstant? h
    rw [String.toList_inj.1 (eq_of_append_eq hs hends (isAlphanumeric_of_mem_constantNames hk)
      (isAlphanumeric_of_mem_constantNames hl) hr)]

/-! ## What may follow a piece in an explicit text -/

/-- The text does not begin with a factor by which what ends as `k` would be multiplied. -/
def Unmultiplied (k : Kind) (s : List Char) : Prop := ∀ b r, s = b :: r → k.multiplies (Kind.ofChar b) = false

theorem Kind.ofChar_of_isBlank {c : Char} (h : isBlank c = true) : Kind.ofChar c = .other := by
  have hd : isAlphanumeric c = false := Bool.eq_false_iff.2 fun ha => by
    rw [isBlank_eq_false_of_isAlphanumeric ha] at h
    cases h
  rw [isAlphanumeric, Bool.or_eq_false_iff] at hd
  rw [Kind.ofChar, hd.1, hd.2, if_neg Bool.false_ne_true, if_neg Bool.false_ne_true,
    if_neg (by rintro rfl; revert h; decide), if_neg (by rintro rfl; revert h; decide)]

theorem Kind.multiplies_other (k : Kind) : k.multiplies .other = false := by cases k <;> rfl

/-- **What follows a piece in an explicit text is not multiplied by it**: a star stands before it if it
could be. -/
theorem unmultiplied_join {ps : List Piece} (hps : ∀ p ∈ ps, p.Recognised) (k : Kind) :
    Unmultiplied k (join (some k) ps) := by
  intro b r h
  cases hb : isBlank b with
  | true => rw [Kind.ofChar_of_isBlank hb, Kind.multiplies_other]
  | false =>
    have hblanks : ∀ c ∈ ([] : List Char), isBlank c = true := nofun
    rcases star_or_not_multiplies hb hps hblanks h with rfl | hk
    · exact Kind.multiplies_other k
    · exact hk

theorem Unmultiplied.endsName {k : Kind} {s : List Char} (h : Unmultiplied k s)
    (hk : k = .letter ∨ k = .constant) : endsName s = true := by
  cases s with
  | nil => rfl
  | cons b r =>
    have hb := h b r rfl
    rw [Heightfield.endsName, isAlphanumeric, Kind.isLetter_eq_decide, Kind.isDigit_eq_decide]
    rcases hk with rfl | rfl <;> cases hc : Kind.ofChar b <;> simp_all [Kind.multiplies]

theorem Unmultiplied.ne_opening {k : Kind} {s : List Char} (h : Unmultiplied k s)
    (hk : k = .letter ∨ k = .constant) (r : List Char) : s ≠ '(' :: r := by
  intro hs
  have hb := h '(' r hs
  rcases hk with rfl | rfl <;> cases hb

/-! ## Cutting an explicit text again -/

theorem head_of_mem_constantNames {k : String} (hk : k ∈ constantNames) :
    ∃ c s, k.toList = c :: s ∧ isLetter c = true := by
  obtain ⟨c, s, hs⟩ := List.exists_cons_of_ne_nil (List.length_pos_iff.1 (length_pos_of_mem_constantNames k hk))
  exact ⟨c, s, hs, isLetter_of_mem_constantNames hk c (by rw [hs]; exact List.mem_cons_self)⟩

/-- What the first piece of a text says about the text. -/
theorem piece_cases (c : Char) (s : List Char) :
    (piece c s = .blank c ∧ isBlank c = true) ∨
    (∃ f ∈ functionNames, ∃ r, piece c s = .call f ∧ c :: s = f.toList ++ '(' :: r) ∨
    (∃ k ∈ constantNames, ∃ r, piece c s = .constant k ∧ c :: s = k.toList ++ r ∧ endsName r = true) ∨
    (piece c s = .char c ∧ isBlank c = false) := by
  unfold piece
  split
  · exact Or.inl ⟨rfl, by assumption⟩
  · rename_i hb
    split
    · next f hf =>
      obtain ⟨hm, r, hr⟩ := eq_append_of_calledFunction? hf
      exact Or.inr (Or.inl ⟨f, hm, r, rfl, by rw [hr, List.append_assoc]; rfl⟩)
    · split
      · next k hk =>
        obtain ⟨hm, r, hr, hends⟩ := eq_append_of_leadingConstant? hk
        exact Or.inr (Or.inr (Or.inl ⟨k, hm, r, rfl, hr, hends⟩))
      · exact Or.inr (Or.inr (Or.inr ⟨rfl, Bool.eq_false_iff.2 hb⟩))

theorem piece_call {f : String} (hf : f ∈ functionNames) {c : Char} {s r : List Char}
    (hs : c :: s = f.toList ++ '(' :: r) : piece c s = .call f := by
  obtain ⟨d, t, hd, hl⟩ := head_of_mem_functionNames hf
  have hc : isAlphanumeric c = true := by
    rw [hd] at hs
    rw [(List.cons.inj hs).1]
    exact isAlphanumeric_of_isLetter hl
  have hcall : calledFunction? (c :: s) = some f := by rw [hs, calledFunction?_append hf]
  rw [piece, isBlank_eq_false_of_isAlphanumeric hc, if_neg Bool.false_ne_true, hcall]

theorem constantNames_disjoint : ∀ k ∈ constantNames, k ∉ functionNames := by decide

theorem piece_constant {k : String} (hk : k ∈ constantNames) {c : Char} {s r : List Char}
    (hs : c :: s = k.toList ++ r) (hends : endsName r = true) : piece c s = .constant k := by
  obtain ⟨d, t, hd, hl⟩ := head_of_mem_constantNames hk
  have hc : isAlphanumeric c = true := by
    rw [hd] at hs
    rw [(List.cons.inj hs).1]
    exact isAlphanumeric_of_isLetter hl
  have hcall : calledFunction? (c :: s) = none := by
    refine Option.eq_none_iff_forall_ne_some.2 fun f hf => ?_
    obtain ⟨hm, r', hr'⟩ := eq_append_of_calledFunction? hf
    rw [hs, List.append_assoc] at hr'
    -- the function would be the constant, and no name is in both tables
    have hkf : k.toList = f.toList := eq_of_append_eq hends (endsName_opening r')
      (isAlphanumeric_of_mem_constantNames hk) (isAlphanumeric_of_mem_functionNames hm) hr'
    exact constantNames_disjoint k hk (String.toList_inj.1 hkf ▸ hm)
  have hleading : leadingConstant? (c :: s) = some k := by rw [hs, leadingConstant?_append hk hends]
  rw [piece, isBlank_eq_false_of_isAlphanumeric hc, if_neg Bool.false_ne_true, hcall, hleading]

/-- Every name of the tables begins with a letter. -/
theorem piece_of_isLetter_eq_false {c : Char} (hb : isBlank c = false) (hc : isLetter c = false) (s : List Char) :
    piece c s = .char c := by
  rcases piece_cases c s with ⟨-, hblank⟩ | ⟨f, hf, r, -, hr⟩ | ⟨k, hk, r, -, hr, -⟩ | ⟨hp, -⟩
  · rw [hblank] at hb
    cases hb
  · obtain ⟨d, t, hd, hl⟩ := head_of_mem_functionNames hf
    rw [hd] at hr
    rw [(List.cons.inj hr).1, hl] at hc
    cases hc
  · obtain ⟨d, t, hd, hl⟩ := head_of_mem_constantNames hk
    rw [hd] at hr
    rw [(List.cons.inj hr).1, hl] at hc
    cases hc
  · exact hp

/-- A letter alone is read as a letter, or as a constant of one letter. -/
theorem piece_of_isLetter {c : Char} {s : List Char} (hc : isLetter c = true) (hs : Unmultiplied .letter s) :
    piece c s = .char c ∨ ∃ k, piece c s = .constant k ∧ k.toList = [c] := by
  have hends := hs.endsName (Or.inl rfl)
  rcases piece_cases c s with ⟨-, hblank⟩ | ⟨f, hf, r, -, hr⟩ | ⟨k, hk, r, hp, hr, hr'⟩ | ⟨hp, -⟩
  · rw [isBlank_eq_false_of_isAlphanumeric (isAlphanumeric_of_isLetter hc)] at hblank
    cases hblank
  · -- a longer name would go on with a letter or digit, and `s` begins with neither
    obtain ⟨d, t, hd, -⟩ := head_of_mem_functionNames hf
    have halpha := isAlphanumeric_of_mem_functionNames hf
    rw [hd] at hr halpha
    obtain ⟨rfl, htail⟩ := List.cons.inj hr
    have ht : [] = t := eq_of_append_eq hends (endsName_opening r) nofun
      (fun e he => halpha e (List.mem_cons_of_mem c he)) htail
    rw [← ht] at htail
    exact absurd htail (hs.ne_opening (Or.inl rfl) r)
  · obtain ⟨d, t, hd, -⟩ := head_of_mem_constantNames hk
    have halpha := isAlphanumeric_of_mem_constantNames hk
    rw [hd] at hr halpha
    obtain ⟨rfl, htail⟩ := List.cons.inj hr
    have ht : [] = t := eq_of_append_eq hends hr' nofun (fun e he => halpha e (List.mem_cons_of_mem c he)) htail
    exact Or.inr ⟨k, hp, by rw [hd, ← ht]⟩
  · exact Or.inl hp

/-- The two pieces have the same text and meet their neighbours alike. -/
structure Piece.Alike (p q : Piece) : Prop where
  text_eq : p.text = q.text
  first_eq : p.first = q.first
  last_eq : p.last.multiplies = q.last.multiplies

theorem Piece.Alike.refl (p : Piece) : p.Alike p := ⟨rfl, rfl, rfl⟩

theorem Piece.alike_constant_char {k : String} {c : Char} (hk : k.toList = [c]) (hc : isLetter c = true) :
    (constant k).Alike (char c) := by
  have hkind := ofChar_of_isLetter hc
  refine ⟨?_, ?_, ?_⟩
  · rw [text, text, hk]
  · rw [first, first, hkind]
  · rw [last, last, hkind]
    funext b
    exact Kind.constant_multiplies b

/-- A piece that stands before a text it does not multiply is found there again, or as a constant. -/
theorem piece_alike {p : Piece} (h : p.Recognised) (hp : p.IsSolid) {c : Char} {s r : List Char}
    (hs : c :: s = p.text ++ r) (hr : Unmultiplied p.last r) : (piece c s).IsSolid ∧ (piece c s).Alike p := by
  cases p with
  | blank d => exact absurd rfl (hp d)
  | call f =>
    rw [piece_call h (hs.trans (List.append_assoc _ _ _))]
    exact ⟨nofun, .refl _⟩
  | constant k =>
    rw [piece_constant h hs (hr.endsName (Or.inr rfl))]
    exact ⟨nofun, .refl _⟩
  | char d =>
    obtain ⟨rfl, rfl⟩ := List.cons.inj hs
    cases hl : isLetter c with
    | false =>
      rw [piece_of_isLetter_eq_false h hl]
      exact ⟨hp, .refl _⟩
    | true =>
      rw [Piece.last, Piece.ofChar_of_isLetter hl] at hr
      rcases piece_of_isLetter hl hr with hpiece | ⟨k, hpiece, hk⟩
      · rw [hpiece]
        exact ⟨hp, .refl _⟩
      · rw [hpiece]
        exact ⟨nofun, Piece.alike_constant_char hk hl⟩

theorem pieces_cons (c : Char) (s : List Char) :
    pieces (c :: s) = piece c s :: pieces ((c :: s).drop (piece c s).text.length) := by rw [pieces]

theorem pieces_blank {c : Char} (hc : isBlank c = true) (s : List Char) :
    pieces (c :: s) = .blank c :: pieces s := by
  have hpiece : piece c s = .blank c := by rw [piece, hc, if_pos rfl]
  rw [pieces_cons, hpiece, Piece.text, List.length_singleton, List.drop_one, List.tail_cons]

theorem pieces_char {c : Char} (hb : isBlank c = false) (hl : isLetter c = false) (s : List Char) :
    pieces (c :: s) = .char c :: pieces s := by
  rw [pieces_cons, piece_of_isLetter_eq_false hb hl, Piece.text, List.length_singleton, List.drop_one, List.tail_cons]

theorem pieces_star (s : List Char) : pieces ('*' :: s) = .char '*' :: pieces s :=
  pieces_char (by decide) (by decide) s

/-- **The first piece of what is left of an explicit text is the piece that was there, or alike.** -/
theorem exists_pieces_append_join {p : Piece} (h : p.Recognised) (hp : p.IsSolid) {ps : List Piece}
    (hps : ∀ q ∈ ps, q.Recognised) : ∃ q : Piece, q.IsSolid ∧ q.Alike p ∧
      pieces (p.text ++ join (some p.last) ps) = q :: pieces (join (some p.last) ps) := by
  obtain ⟨c, t, ht⟩ := List.exists_cons_of_ne_nil h.text_ne_nil
  have hs : c :: (t ++ join (some p.last) ps) = p.text ++ join (some p.last) ps := by rw [ht]; rfl
  obtain ⟨hsolid, halike⟩ := piece_alike h hp hs (unmultiplied_join hps p.last)
  refine ⟨_, hsolid, halike, ?_⟩
  rw [← hs, pieces_cons, halike.text_eq, hs, List.drop_left]

/-! ## The second pass -/

/-- `join` reads of a piece only its text and how it meets its neighbours. -/
theorem starBefore_congr {previous previous' : Option Kind} {p q : Piece}
    (hprevious : ∀ k, previous.any (·.multiplies k) = previous'.any (·.multiplies k)) (hpq : p.Alike q) :
    starBefore previous p = starBefore previous' q := by
  rw [starBefore, starBefore, hprevious, hpq.first_eq]

/-- **The pieces of an explicit text join to it again.** -/
theorem join_pieces_join : ∀ {ps : List Piece} {previous previous' : Option Kind}, (∀ p ∈ ps, p.Recognised) →
    (∀ k, previous'.any (·.multiplies k) = previous.any (·.multiplies k)) →
      join previous' (pieces (join previous ps)) = join previous ps
  | [], previous, previous', _, _ => by
    rw [show join previous [] = [] from rfl, pieces]
    rfl
  | p :: ps, previous, previous', hps, hprevious => by
    have hp := hps p List.mem_cons_self
    have hps' : ∀ q ∈ ps, q.Recognised := fun q hq => hps q (List.mem_cons_of_mem p hq)
    rcases p.blank_or_isSolid with ⟨c, rfl⟩ | hsolid
    · rw [show join previous (.blank c :: ps) = c :: join previous ps from rfl, pieces_blank hp]
      exact congrArg (c :: ·) (join_pieces_join hps' hprevious)
    · obtain ⟨q, hq, hqp, hpieces⟩ := exists_pieces_append_join hp hsolid hps'
      have hlast : ∀ k, (some q.last).any (·.multiplies k) = (some p.last).any (·.multiplies k) := fun k =>
        congrFun hqp.last_eq k
      have hrest := join_pieces_join hps' hlast
      rw [join_cons hsolid]
      rcases starBefore_cases previous p with ⟨hstar, -⟩ | ⟨hstar, hm⟩
      · -- the star multiplies nothing, on either side
        have hbefore : starBefore previous' (.char '*') = [] := by
          cases previous' with
          | none => rfl
          | some k => rw [starBefore, Option.any_some, show Piece.first (.char '*') = .other from rfl,
              Kind.multiplies_other, if_neg Bool.false_ne_true]
        have hafter : starBefore (some (Piece.char '*').last) q = [] := rfl
        have hchar : (Piece.char '*').IsSolid := fun c h => by cases h
        rw [hstar, List.map_cons, List.map_nil, List.cons_append, List.nil_append, Mark.char, pieces_star,
          hpieces, join_cons hchar, hbefore, join_cons hq, hafter, hrest, hqp.text_eq]
        rfl
      · have hnone : starBefore previous' q = [] := by rw [starBefore_congr hprevious hqp, hstar]
        rw [hstar, List.map_nil, List.nil_append, hpieces, join_cons hq, hnone, hrest, hqp.text_eq]
        rfl

theorem explicit_explicit (s : List Char) : explicit (explicit s) = explicit s :=
  join_pieces_join (recognised_of_mem_pieces s) fun _ => rfl

end Juxtaposition

open Juxtaposition

/-- **Writing out the products of an explicit text changes nothing.** -/
theorem explicitProducts_explicitProducts (s : String) :
    explicitProducts (explicitProducts s) = explicitProducts s := by
  have htext : (explicitProducts s).toList = join none (pieces s.toList) := String.toList_ofList
  have hjoin : join none (pieces (join none (pieces s.toList))) = join none (pieces s.toList) :=
    join_pieces_join (recognised_of_mem_pieces s.toList) fun _ => rfl
  calc explicitProducts (explicitProducts s)
      = String.ofList (join none (pieces (join none (pieces s.toList)))) := by
        rw [← htext]
        rfl
    _ = explicitProducts s := by
        rw [hjoin]
        rfl

example : explicitProducts "xe2pi" = "x*e*2*pi" := by decide +kernel

end Heightfield
