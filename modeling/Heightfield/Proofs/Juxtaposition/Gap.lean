import Mathlib.Data.List.Forall2
import Heightfield.Proofs.Juxtaposition.Seam
/-!
# Blanks put into a text

Blanks part two names that would be one without them (`Fuses`).  Where they part none, they change nothing but
themselves: the text is cut into the same pieces, up to a letter at the end of the first part that is read as a
constant before blanks (`Piece.Reads`), and the same products are written out
(`filter_explicit_append`).
-/
namespace Heightfield
namespace Juxtaposition

/-- A name of the tables goes across the place between the two texts, or a constant of several letters that ends
there does not end in the whole text. -/
def Fuses (l r : List Char) : Prop :=
  (∃ u v, IsToken (u ++ v) ∧ u ≠ [] ∧ v ≠ [] ∧ u <:+ l ∧ v <+: r) ∨
    ∃ k ∈ constantNames, 1 < k.toList.length ∧ k.toList <:+ l ∧ endsName r = false

theorem Fuses.mono {l r l' r' : List Char} (h : Fuses l' r') (hl : l' <:+ l) (hr : r' <+: r) (hne : r' ≠ []) :
    Fuses l r := by
  rcases h with ⟨u, v, ht, hu, hv, hul, hvr⟩ | ⟨k, hk, hlen, hkl, hends⟩
  · exact Or.inl ⟨u, v, ht, hu, hv, hul.trans hl, hvr.trans hr⟩
  · refine Or.inr ⟨k, hk, hlen, hkl.trans hl, ?_⟩
    obtain ⟨c, r', rfl⟩ := List.exists_cons_of_ne_nil hne
    obtain ⟨t, rfl⟩ := hr
    exact hends

theorem not_fuses_nil (l : List Char) : ¬Fuses l [] := by
  rintro (⟨u, v, -, -, hv, -, hvr⟩ | ⟨k, -, -, -, hends⟩)
  · exact hv (List.prefix_nil.1 hvr)
  · cases hends

/-! ## Pieces that read alike -/

/-- The two pieces are the same for the text that is joined from them. -/
def Piece.Reads (p q : Piece) : Prop := p = q ∨ p.IsSolid ∧ q.IsSolid ∧ p.Alike q

theorem Piece.Reads.text_eq {p q : Piece} (h : p.Reads q) : p.text = q.text := by
  rcases h with rfl | ⟨-, -, h⟩
  · rfl
  · exact h.text_eq

theorem join_congr {ps qs : List Piece} (h : List.Forall₂ Piece.Reads ps qs) : ∀ {previous previous' : Option Kind},
    (∀ k, previous.any (·.multiplies k) = previous'.any (·.multiplies k)) → join previous ps = join previous' qs := by
  induction h with
  | nil => exact fun _ => rfl
  | @cons p q ps qs hpq _ ih =>
    intro previous previous' hprevious
    rcases hpq with rfl | ⟨hp, hq, halike⟩
    · rcases p.blank_or_isSolid with ⟨c, rfl⟩ | hp
      · exact congrArg (c :: ·) (ih hprevious)
      · rw [join_cons hp, join_cons hp, starBefore_congr hprevious (.refl p), ih fun k => rfl]
    · rw [join_cons hp, join_cons hq, starBefore_congr hprevious halike, halike.text_eq,
        @ih (some p.last) (some q.last) fun k => congrFun halike.last_eq k]

/-! ## Cutting where no name goes across -/

theorem eq_nil_of_not_fuses {l r : List Char} (h : ¬Fuses l r) {u v : List Char} (ht : IsToken (u ++ v)) (hu : u ≠ [])
    (hul : u <:+ l) (hvr : v <+: r) : v = [] := by
  by_contra hv
  exact h (Or.inl ⟨u, v, ht, hu, hv, hul, hvr⟩)

theorem eq_singleton_of_prefix {k : String} (hk : k ∈ constantNames) {c : Char} (h : k.toList <+: [c]) :
    k.toList = [c] := by
  rcases List.prefix_cons_iff.1 h with hnil | ⟨t, ht, hnil⟩
  · exact absurd (length_pos_of_mem_constantNames k hk) (by rw [hnil]; exact Nat.lt_irrefl 0)
  · rw [ht, List.prefix_nil.1 hnil]

/-- A constant of one letter that ends the first text is read in the whole as well, or as its letter. -/
theorem leadingConstant?_cons {c : Char} {r : List Char} (h : ¬Fuses [c] r) :
    leadingConstant? (c :: r) = leadingConstant? [c] ∨
      leadingConstant? (c :: r) = none ∧ ∃ k, leadingConstant? [c] = some k ∧ k.toList = [c] := by
  cases hwhole : leadingConstant? (c :: r) with
  | some k =>
    obtain ⟨hk, t, ht, -⟩ := eq_append_of_leadingConstant? hwhole
    have hpre : k.toList <+: [c] := (prefix_append_iff (l := [c]) (eq_nil_of_not_fuses h) (List.cons_ne_nil _ _)
      (Or.inr ⟨k, hk, rfl⟩)).1 ⟨t, ht.symm⟩
    have hsingle := leadingConstant?_append hk (s := []) rfl
    rw [List.append_nil, eq_singleton_of_prefix hk hpre] at hsingle
    exact Or.inl hsingle.symm
  | none =>
    cases hfirst : leadingConstant? [c] with
    | none => exact Or.inl rfl
    | some k =>
      obtain ⟨hk, t, ht, -⟩ := eq_append_of_leadingConstant? hfirst
      exact Or.inr ⟨rfl, k, rfl, eq_singleton_of_prefix hk ⟨t, ht.symm⟩⟩

theorem piece_reads {c : Char} {s r : List Char} (h : ¬Fuses (c :: s) r) : (piece c (s ++ r)).Reads (piece c s) := by
  have hcall := calledFunction?_append_eq (eq_nil_of_not_fuses h) (List.cons_ne_nil c s)
  rw [List.cons_append] at hcall
  cases s with
  | cons d s =>
    have hconstant := leadingConstant?_append_eq (eq_nil_of_not_fuses h) (List.cons_ne_nil c (d :: s)) fun k hk hkl => by
      by_contra hends
      exact h (Or.inr ⟨k, hk, by rw [hkl]; simp, hkl ▸ List.suffix_rfl, by simpa using hends⟩)
    rw [List.cons_append] at hconstant
    exact Or.inl (by rw [piece, piece, hcall, hconstant])
  | nil =>
    rw [List.nil_append] at hcall ⊢
    rcases leadingConstant?_cons h with hconstant | ⟨hnone, k, hsome, hk⟩
    · exact Or.inl (by rw [piece, piece, hcall, hconstant])
    · rw [piece, piece, hcall]
      cases hblank : isBlank c with
      | true => exact Or.inl rfl
      | false =>
        cases calledFunction? [c] with
        | some f => exact Or.inl rfl
        | none =>
          have hletter := isLetter_of_mem_constantNames (eq_append_of_leadingConstant? hsome).1 c
            (by rw [hk]; exact List.mem_cons_self)
          have halike := Piece.alike_constant_char hk hletter
          simp only [Bool.false_eq_true, if_false, hnone, hsome]
          exact Or.inr ⟨by simp [Piece.IsSolid], by simp [Piece.IsSolid], halike.text_eq.symm, halike.first_eq.symm, halike.last_eq.symm⟩

theorem reads_refl (ps : List Piece) : List.Forall₂ Piece.Reads ps ps :=
  List.forall₂_same.2 fun _ _ => Or.inl rfl

/-- **Where no names fuse, a text is cut as its two parts are**, up to letters that are read as constants. -/
theorem pieces_append_reads {l r : List Char} (h : ¬Fuses l r) :
    List.Forall₂ Piece.Reads (pieces (l ++ r)) (pieces l ++ pieces r) := by
  rcases eq_or_ne r [] with rfl | hr
  · rw [List.append_nil, show pieces [] = [] by rw [pieces], List.append_nil]
    exact reads_refl _
  · fun_induction pieces l with
    | case1 => exact reads_refl _
    | case2 c s ih =>
      have hpiece := piece_reads h
      have hlen : (piece c s).text.length ≤ (c :: s).length := by
        obtain ⟨t, ht⟩ := (exists_eq_text_piece_append c s).1
        rw [ht, List.length_append]
        exact Nat.le_add_right _ _
      rw [List.cons_append, pieces_cons, List.cons_append, hpiece.text_eq, ← List.cons_append,
        List.drop_append_of_le_length hlen]
      exact .cons hpiece (ih fun hfuses => h (hfuses.mono (List.drop_suffix _ _) (List.prefix_refl r) hr))

/-! ## The products across blanks -/

/-- Blanks among the pieces change nothing but themselves. -/
theorem filter_join_blanks {w : List Char} (hw : ∀ c ∈ w, isBlank c = true) (qs : List Piece) :
    ∀ (ps : List Piece) (previous : Option Kind), (join previous (ps ++ (w.map .blank ++ qs))).filter (!isBlank ·) =
      (join previous (ps ++ qs)).filter (!isBlank ·)
  | [], previous => by
    have hjoin : ∀ w : List Char, join previous (w.map .blank ++ qs) = w ++ join previous qs := fun w => by
      induction w with
      | nil => rfl
      | cons c w ih => exact congrArg (c :: ·) ih
    rw [List.nil_append, List.nil_append, hjoin, List.filter_append, List.filter_eq_nil_iff.2, List.nil_append]
    exact fun c hc => by simp [hw c hc]
  | p :: ps, previous => by
    rcases p.blank_or_isSolid with ⟨c, rfl⟩ | hp
    · have ih := filter_join_blanks hw qs ps previous
      have hcons : ∀ rs, join previous (.blank c :: rs) = [c] ++ join previous rs := fun _ => rfl
      rw [List.cons_append, List.cons_append, hcons, hcons, List.filter_append, List.filter_append, ih]
    · have ih := filter_join_blanks hw qs ps (some p.last)
      rw [List.cons_append, List.cons_append, join_cons hp, join_cons hp, List.filter_append, List.filter_append,
        List.filter_append, List.filter_append, ih]

/-- **Where no names fuse, blanks change nothing but themselves.** -/
theorem filter_explicit_append {l r w : List Char} (hw : ∀ c ∈ w, isBlank c = true) (h : ¬Fuses l r) :
    (explicit (l ++ (w ++ r))).filter (!isBlank ·) = (explicit (l ++ r)).filter (!isBlank ·) := by
  rcases w with _ | ⟨b, w⟩
  · rfl
  · have hb := hw b List.mem_cons_self
    have hleft : Seam l (b :: w ++ r) := by
      refine .of_sign l (Bool.eq_false_iff.2 fun halpha => ?_) ?_ (w ++ r)
      · rw [isBlank_eq_false_of_isAlphanumeric halpha] at hb
        cases hb
      · rintro rfl
        cases hb
    rw [explicit, pieces_append hleft, pieces_append (.of_blanks hw r), pieces_of_blanks hw, filter_join_blanks hw,
      explicit, join_congr (pieces_append_reads h) fun _ => rfl]

end Juxtaposition
end Heightfield
