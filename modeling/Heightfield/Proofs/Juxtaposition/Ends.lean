import Heightfield.Proofs.Juxtaposition.Stars
/-!
# The ends of an explicit text

An explicit text begins and ends as the text does, so writing out the products of a trimmed text leaves it trimmed
(`trim_explicit`).  It has no characters but those of the text, and stars.
-/
namespace Heightfield

/-! ## Trimmed texts -/

theorem mem_of_mem_trim {c : Char} {s : List Char} (h : c ∈ trim s) : c ∈ s := by
  rw [trim, trimRight, List.mem_reverse] at h
  exact (List.dropWhile_suffix _).mem (List.mem_reverse.1 ((List.dropWhile_suffix _).mem h))

theorem getLast?_trim (s : List Char) : ∀ c ∈ (trim s).getLast?, isBlank c = false := fun c hc => by
  have hnot := List.head?_dropWhile_not isBlank (trimLeft s).reverse
  rw [trim, trimRight, List.getLast?_reverse] at hc
  rw [Option.mem_def.1 hc] at hnot
  simpa using hnot

theorem head?_trim (s : List Char) : ∀ c ∈ (trim s).head?, isBlank c = false := fun c hc => by
  have hprefix : trim s <+: trimLeft s := by
    have hsuffix := List.dropWhile_suffix (l := (trimLeft s).reverse) isBlank
    rwa [← List.reverse_prefix, List.reverse_reverse] at hsuffix
  obtain ⟨r, hr⟩ := hprefix
  have hhead : (trimLeft s).head? = some c := by rw [← hr, List.head?_append, Option.mem_def.1 hc]; rfl
  have hnot := List.head?_dropWhile_not isBlank s
  rw [show s.dropWhile isBlank = trimLeft s from rfl, hhead] at hnot
  simpa using hnot

namespace Juxtaposition

/-! ## What joined pieces begin and end with -/

theorem head?_join {ps : List Piece} (hps : ∀ p ∈ ps, p.Recognised) :
    (join none ps).head? = (ps.flatMap Piece.text).head? := by
  cases ps with
  | nil => rfl
  | cons p ps =>
    rcases p.blank_or_isSolid with ⟨c, rfl⟩ | hsolid
    · rfl
    · obtain ⟨c, t, ht⟩ := List.exists_cons_of_ne_nil (hps p List.mem_cons_self).text_ne_nil
      rw [join_cons hsolid, List.flatMap_cons, ht]
      rfl

theorem getLast?_join : ∀ {ps : List Piece} {previous : Option Kind}, (∀ p ∈ ps, p.Recognised) →
    (join previous ps).getLast? = (ps.flatMap Piece.text).getLast?
  | [], _, _ => rfl
  | p :: ps, previous, hps => by
    have ih : ∀ {previous}, (join previous ps).getLast? = (ps.flatMap Piece.text).getLast? :=
      getLast?_join fun q hq => hps q (List.mem_cons_of_mem p hq)
    rcases p.blank_or_isSolid with ⟨c, rfl⟩ | hsolid
    · rw [join, List.flatMap_cons, List.getLast?_cons, ih, ← List.getLast?_cons]
      rfl
    · have hlast : ∀ l : List Char, (l ++ p.text).getLast? = p.text.getLast? := fun l => by
        rw [List.getLast?_append, List.getLast?_eq_some_getLast (hps p List.mem_cons_self).text_ne_nil, Option.some_or]
      rw [join_cons hsolid, List.flatMap_cons, ← List.append_assoc, List.getLast?_append, ih, hlast,
        List.getLast?_append]

/-- **The products of a trimmed text are written out within it.** -/
theorem trim_explicit (s : List Char) : trim (explicit (trim s)) = explicit (trim s) := by
  have hps := recognised_of_mem_pieces (trim s)
  refine trim_eq_self (fun c hc => head?_trim s c ?_) fun c hc => getLast?_trim s c ?_
  · rwa [explicit, head?_join hps, flatMap_text_pieces] at hc
  · rwa [explicit, getLast?_join hps, flatMap_text_pieces] at hc

theorem mem_explicit {c : Char} {s : List Char} (h : c ∈ explicit s) : c ∈ s ∨ c = '*' := by
  rw [explicit, ← map_char_marks] at h
  obtain ⟨m, hm, rfl⟩ := List.mem_map.1 h
  cases m with
  | star => exact Or.inr rfl
  | kept d =>
    left
    rw [← flatMap_text_pieces s, ← filterMap_kept?_marks none]
    exact List.mem_filterMap.2 ⟨_, hm, rfl⟩

end Juxtaposition

end Heightfield
