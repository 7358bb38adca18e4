import Mathlib.Logic.Function.Iterate
import Heightfield.Latex.Plain
import Heightfield.Proofs.Juxtaposition.Ends
import Heightfield.Proofs.Latex.SpacedRules
/-!
# The normal form of groups

A group rule writes less weight than it reads (`groupRule_sheds`).  So a pass of all rules takes weight away, or no rule
applies anywhere and nothing changes (`substituteAll_sheds`): the passes end, at the first that changes nothing
(`ungroup_eq_iterate`).  What the converter gives in the end holds no backslash and no brace, and no blank at its ends
(`conversion_settles`).
-/
namespace Heightfield.Latex

/-! ## What is read and what is written -/

/-- What the rule reads weighs at least `n` more than what it writes for it. -/
def Rule.Sheds (n : ℕ) (rule : Rule) : Prop :=
  ∀ ⦃s w rest : List Char⦄, rule s = some (w, rest) → ∃ read, s = read ++ rest ∧ weight w + n ≤ weight read

theorem enclosed_sheds (p : Char → Bool) (closing : List Char) : Rule.Sheds (weight closing) (enclosed p closing) := by
  intro s w rest h
  obtain ⟨r, hr, heq⟩ := Option.map_eq_some_iff.1 h
  obtain ⟨rfl, rfl⟩ := Prod.mk.inj heq
  refine ⟨s.takeWhile p ++ closing, ?_, ?_⟩
  · rw [List.append_assoc, ← eq_append_of_after? hr, List.takeWhile_append_dropWhile]
  · rw [weight_append]

theorem weight_le_of_before? {e s a : List Char} (h : before? e s = some a) : weight a ≤ weight s := by
  obtain ⟨r, hr, rfl⟩ := Option.map_eq_some_iff.1 h
  have hs : s = r.reverse ++ e := by
    have hrev := congrArg List.reverse (eq_append_of_after? hr)
    simpa using hrev
  rw [hs, weight_append]
  omega

theorem weight_le_of_nonempty? {s a : List Char} (h : nonempty? s = some a) : weight a ≤ weight s := by
  cases s with
  | nil => cases h
  | cons c s =>
    cases h
    exact le_rfl

namespace Rule.Sheds

variable {n m : ℕ} {rule rule' : Rule}

theorem opened (h : rule.Sheds n) (p : List Char) : Rule.Sheds (weight p + n) (opened p rule) := by
  intro s w rest hs
  obtain ⟨r, hr, hrule⟩ := Option.bind_eq_some_iff.1 hs
  obtain ⟨read, rfl, hle⟩ := h hrule
  refine ⟨p ++ read, by rw [eq_append_of_after? hr, List.append_assoc], ?_⟩
  rw [weight_append]
  omega

theorem bind (h : rule.Sheds n) {f : List Char → Option (List Char)}
    (hf : ∀ {a b}, f a = some b → weight b ≤ weight a) :
    Rule.Sheds n fun s => (rule s).bind fun r => (f r.1).map (·, r.2) := by
  intro s w rest hs
  obtain ⟨⟨a, rest'⟩, hrule, hmap⟩ := Option.bind_eq_some_iff.1 hs
  obtain ⟨b, hb, heq⟩ := Option.map_eq_some_iff.1 hmap
  obtain ⟨rfl, rfl⟩ := Prod.mk.inj heq
  obtain ⟨read, rfl, hle⟩ := h hrule
  have hweight : weight b ≤ weight a := hf hb
  exact ⟨read, rfl, by omega⟩

theorem map (h : rule.Sheds n) {f : List Char → List Char} (hf : ∀ a, weight (f a) = weight a) :
    Rule.Sheds n fun s => (rule s).map fun r => (f r.1, r.2) := by
  intro s w rest hs
  obtain ⟨⟨a, rest'⟩, hrule, heq⟩ := Option.map_eq_some_iff.1 hs
  obtain ⟨rfl, rfl⟩ := Prod.mk.inj heq
  obtain ⟨read, rfl, hle⟩ := h hrule
  exact ⟨read, rfl, by rw [hf]; exact hle⟩

theorem andThen (h : rule.Sheds n) (h' : rule'.Sheds m) {f : List Char → List Char → List Char}
    (hf : ∀ a b, weight (f a b) = weight a + weight b) :
    Rule.Sheds (n + m) fun s => (rule s).bind fun r => (rule' r.2).map fun r' => (f r.1 r'.1, r'.2) := by
  intro s w rest hs
  obtain ⟨⟨a, rest'⟩, hrule, hmap⟩ := Option.bind_eq_some_iff.1 hs
  obtain ⟨⟨b, rest''⟩, hrule', heq⟩ := Option.map_eq_some_iff.1 hmap
  obtain ⟨rfl, rfl⟩ := Prod.mk.inj heq
  obtain ⟨read, rfl, hle⟩ := h hrule
  obtain ⟨read', hread', hle'⟩ := h' hrule'
  obtain rfl : rest' = read' ++ rest'' := hread'
  refine ⟨read ++ read', (List.append_assoc _ _ _).symm, ?_⟩
  have hweight : weight (f a b) = weight a + weight b := hf a b
  rw [weight_append]
  dsimp only
  omega

theorem or (h : rule.Sheds n) (h' : rule'.Sheds n) : Rule.Sheds n fun s => (rule s).or (rule' s) := by
  intro s w rest hs
  rcases Option.or_eq_some_iff.1 hs with hs | ⟨-, hs⟩
  · exact h hs
  · exact h' hs

theorem mono (h : rule.Sheds n) (hm : m ≤ n) : rule.Sheds m := by
  intro s w rest hs
  obtain ⟨read, rfl, hle⟩ := h hs
  exact ⟨read, rfl, by omega⟩

end Rule.Sheds

/-! ## The rules for groups -/

theorem braced?_sheds : Rule.Sheds 0 braced? := by
  rw [braced?_eq]
  exact enclosed_sheds _ _

theorem barred?_sheds : Rule.Sheds 1 barred? := by
  rw [barred?_eq]
  exact (enclosed_sheds _ _).bind weight_le_of_nonempty?

theorem index?_sheds : Rule.Sheds 1 index? := (enclosed_sheds _ _).bind weight_le_of_nonempty?

theorem sizedBraced?_sheds : Rule.Sheds 0 sizedBraced? := by
  refine braced?_sheds.bind (f := fun a => (before? "\\right".toList a).or (before? "\\right\\".toList a)) fun h => ?_
  rcases Option.or_eq_some_iff.1 h with h | ⟨-, h⟩
  · exact weight_le_of_before? h
  · exact weight_le_of_before? h

theorem weight_surround {l r : List Char} (hl : weight l = 0) (hr : weight r = 0) (a : List Char) :
    weight (l ++ a ++ r) = weight a := by
  rw [weight_append, weight_append, hl, hr]
  omega

theorem weight_absolute (a : List Char) : weight (absolute a) = weight a := weight_surround rfl rfl a

theorem weight_exponent (a : List Char) : weight (exponent a) = weight a := weight_surround rfl rfl a

theorem weight_join {l m r : List Char} (hl : weight l = 0) (hm : weight m = 0) (hr : weight r = 0) (a b : List Char) :
    weight (l ++ a ++ m ++ b ++ r) = weight a + weight b := by
  simp only [weight_append, hl, hm, hr]
  omega

/-- **A group rule writes less weight than it reads.** -/
theorem groupRule_sheds : ∀ rule ∈ groupRules, rule.Sheds 1 := by
  simp only [groupRules, List.forall_mem_cons]
  refine ⟨?_, ?_, ?_, ?_, ?_, ?_, ?_, ?_, List.forall_mem_nil _⟩
  · have hroot : ∀ a b, weight ("((".toList ++ b ++ ")^(1/(".toList ++ a ++ ")))".toList) = weight a + weight b := by
      intro a b
      rw [weight_join rfl rfl rfl, Nat.add_comm]
    rw [nthRoot_eq]
    exact (index?_sheds.andThen braced?_sheds hroot).opened "\\sqrt[".toList
  · rw [squareRoot_eq]
    exact (braced?_sheds.map (weight_surround rfl rfl)).opened "\\sqrt\x7b".toList
  · have hcontents : ∀ {a b}, ((before? "\\right".toList a).bind nonempty?).map absolute = some b → weight b ≤ weight a := by
      intro a b h
      obtain ⟨c, hc, rfl⟩ := Option.map_eq_some_iff.1 h
      obtain ⟨d, hd, hne⟩ := Option.bind_eq_some_iff.1 hc
      rw [weight_absolute]
      exact (weight_le_of_nonempty? hne).trans (weight_le_of_before? hd)
    rw [sizedBars_eq]
    exact ((barred?_sheds.bind hcontents).opened "\\left|".toList).mono (by decide)
  · rw [bars_eq]
    exact ((barred?_sheds.map weight_absolute).opened "|".toList).mono (by decide)
  · rw [fraction_eq]
    exact (braced?_sheds.andThen (braced?_sheds.opened "\x7b".toList) (weight_join rfl rfl rfl)).opened
      "\\frac\x7b".toList |>.mono (by decide)
  · rw [sizedExponent_eq]
    exact (((sizedBraced?_sheds.opened "\\\x7b".toList).or (sizedBraced?_sheds.opened "\x7b".toList)).map
      weight_exponent).opened "^\\left".toList
  · rw [escapedExponent_eq]
    exact ((braced?_sheds.bind weight_le_of_before?).map weight_exponent).opened "^\\\x7b".toList
  · rw [bracedExponent_eq]
    exact (braced?_sheds.map weight_exponent).opened "^\x7b".toList

/-! ## A pass -/

/-- A rule applies nowhere in a text. -/
def Rule.Clears (rule : Rule) (s : List Char) : Prop := ∀ t, t <:+ s → rule t = none

theorem Rule.clears_nil {rule : Rule} (h : rule [] = none) : rule.Clears [] := fun t ht => by
  rwa [List.suffix_nil.1 ht]

theorem Rule.Clears.cons {rule : Rule} {c : Char} {s : List Char} (h : rule (c :: s) = none) (hs : rule.Clears s) :
    rule.Clears (c :: s) := fun t ht => by
  rcases List.suffix_cons_iff.1 ht with rfl | ht
  · exact h
  · exact hs t ht

/-- Where the rule applies it reads something, and leaves less to the rest. -/
theorem Rule.Sheds.rest_lt {rule : Rule} (h : rule.Sheds 1) {s w rest : List Char} (hrule : rule s = some (w, rest)) :
    rest.length < s.length ∧ weight w + weight rest < weight s := by
  obtain ⟨read, rfl, hle⟩ := h hrule
  have hne : read ≠ [] := by
    rintro rfl
    exact absurd hle (Nat.not_succ_le_zero _)
  have hpos := List.length_pos_iff.2 hne
  rw [List.length_append, weight_append]
  exact ⟨by omega, by omega⟩

/-- A substitution takes weight away, or there is nothing to substitute. -/
theorem substitute_sheds {rule : Rule} (h : rule.Sheds 1) (s : List Char) :
    rule.Clears s ∨ weight (substitute rule s) < weight s := by
  -- on the length: where the rule applies, the substitution goes on behind all that it read
  induction hn : s.length using Nat.strongRecOn generalizing s with
  | _ n ih =>
    subst hn
    cases hrule : rule s with
    | none =>
      cases s with
      | nil => exact Or.inl (Rule.clears_nil hrule)
      | cons c s =>
        rw [substitute_cons_of_none hrule]
        rcases ih s.length (Nat.lt_succ_self _) s rfl with hclear | hlt
        · exact Or.inl (.cons hrule hclear)
        · have hcons : ∀ r, weight (c :: r) = weight [c] + weight r := fun r => weight_append [c] r
          rw [hcons, hcons s]
          exact Or.inr (by omega)
    | some r =>
      obtain ⟨w, rest⟩ := r
      obtain ⟨hlength, hweight⟩ := h.rest_lt hrule
      right
      rw [substitute_of_some hrule hlength, weight_append]
      rcases ih rest.length hlength rest rfl with hclear | hlt
      · rwa [substitute_eq_self hclear]
      · omega

/-- **A pass takes weight away, or no rule applies anywhere** and the text stays. -/
theorem substituteAll_sheds : ∀ {rules : List Rule}, (∀ rule ∈ rules, rule.Sheds 1) → ∀ s,
    (substituteAll rules s = s ∧ ∀ rule ∈ rules, rule.Clears s) ∨ weight (substituteAll rules s) < weight s
  | [], _, s => Or.inl ⟨rfl, nofun⟩
  | rule :: rules, h, s => by
    obtain ⟨hrule, hrules⟩ := List.forall_mem_cons.1 h
    rw [substituteAll_cons, List.forall_mem_cons]
    rcases substitute_sheds hrule s with hclear | hlt
    · rw [substitute_eq_self hclear]
      rcases substituteAll_sheds hrules s with ⟨hself, hclears⟩ | hlt
      · exact Or.inl ⟨hself, hclear, hclears⟩
      · exact Or.inr hlt
    · -- the later rules give no weight back
      rcases substituteAll_sheds hrules (substitute rule s) with ⟨hself, -⟩ | hlt'
      · exact Or.inr (by rwa [hself])
      · exact Or.inr (by omega)

/-! ## The passes -/

/-- All group rules one after the other. -/
def pass (s : List Char) : List Char := substituteAll groupRules s

theorem pass_sheds (s : List Char) : (pass s = s ∧ ∀ rule ∈ groupRules, rule.Clears s) ∨ weight (pass s) < weight s :=
  substituteAll_sheds groupRule_sheds s

/-- **The passes go on as long as they change something**, each of them takes weight away, and then no rule applies. -/
theorem ungroup_eq_iterate (s : List Char) : ∃ k, ungroup s = pass^[k] s ∧
    k + weight (ungroup s) ≤ weight s ∧ (∀ j < k, pass^[j + 1] s ≠ pass^[j] s) ∧
    pass (ungroup s) = ungroup s ∧ ∀ rule ∈ groupRules, rule.Clears (ungroup s) := by
  fun_induction ungroup s with
  | case1 s t hlt ih =>
    obtain ⟨k, hiterate, hweight, hchange, hfixed, hclears⟩ := ih
    have ht : t = pass s := rfl
    refine ⟨k + 1, hiterate, by omega, fun j hj => ?_, hfixed, hclears⟩
    cases j with
    | zero =>
      show pass s ≠ s
      rw [← ht]
      rintro heq
      rw [heq] at hlt
      exact lt_irrefl _ hlt
    | succ j => exact hchange j (by omega)
  | case2 s t hge =>
    rcases pass_sheds s with ⟨hself, hclears⟩ | hlt
    · have ht : t = s := hself
      rw [ht]
      exact ⟨0, rfl, by omega, fun j hj => absurd hj (Nat.not_lt_zero j), hself, hclears⟩
    · exact absurd hlt hge

/-! ## The end of the conversion -/

/-- The last of the rules behind groups leaves no backslash. -/
theorem backslash_not_mem_substitute (s : List Char) : '\\' ∉ substitute (literal "\\" "") s := by
  induction s with
  | nil =>
    rw [substitute_nil]
    exact List.not_mem_nil
  | cons c s ih =>
    by_cases hc : c = '\\'
    · subst hc
      have hfires : literal "\\" "" ('\\' :: s) = some ([], s) := rfl
      rwa [substitute_of_some hfires (by simp)]
    · have hnone : literal "\\" "" (c :: s) = none := congrArg (Option.map _) (if_neg (Ne.symm hc))
      rw [substitute_cons_of_none hnone]
      exact List.not_mem_cons_of_ne_of_not_mem (Ne.symm hc) ih

theorem backslash_not_mem_closed (s : List Char) : '\\' ∉ substituteAll closingRules s := by
  have hlast : closingRules = closingRules.dropLast ++ [literal "\\" ""] := rfl
  rw [hlast, substituteAll_append]
  exact backslash_not_mem_substitute _

theorem parenthesis_clean {c : Char} (hc : c ≠ '\\') : parenthesis c ∉ ['\\', '{', '}'] := by
  unfold parenthesis
  split_ifs with hopen hclose
  · decide
  · decide
  · simp [hc, hopen, hclose]

/-- **What the converter gives is clean**: no backslash, no brace. -/
theorem plainText_clean (s : List Char) : ∀ c ∈ plainText s, c ∉ ['\\', '{', '}'] := by
  unfold plainText
  split
  · exact nofun
  · intro c hc
    obtain ⟨d, hd, rfl⟩ := List.mem_map.1 (mem_of_mem_trim hc)
    refine parenthesis_clean ?_
    rintro rfl
    exact backslash_not_mem_closed _ hd

theorem plainText_trimmed (s : List Char) : ∃ t, plainText s = trim t := by
  unfold plainText
  split
  · exact ⟨[], rfl⟩
  · exact ⟨_, rfl⟩

/-- **The conversion settles.**  Wherever a group rule applies, the text loses weight; the passes end at the first that
changes nothing, and then no group rule applies anywhere; and in the end there is no backslash, no brace and no blank
at either end, whatever the text was. -/
theorem conversion_settles (s : List Char) :
    (∀ rule ∈ groupRules, ∀ before written rest, rule s = some (written, rest) →
      weight (before ++ (written ++ rest)) < weight (before ++ s)) ∧
    (∃ k ≤ weight s, ungroup s = pass^[k] s ∧ pass (ungroup s) = ungroup s ∧
      ∀ j < k, pass^[j + 1] s ≠ pass^[j] s) ∧
    (∀ rule ∈ groupRules, ∀ t, t <:+ ungroup s → rule t = none) ∧
    let plain := (latexToPlain (String.ofList s)).toList
    (∀ c ∈ plain, c ∉ ['\\', '{', '}']) ∧
      (∀ c ∈ plain.head?, isBlank c = false) ∧ ∀ c ∈ plain.getLast?, isBlank c = false := by
  obtain ⟨k, hiterate, hweight, hchange, hfixed, hclears⟩ := ungroup_eq_iterate s
  refine ⟨?_, ⟨k, by omega, hiterate, hfixed, hchange⟩, hclears, ?_⟩
  · intro rule hr before written rest hs
    obtain ⟨read, hread, hle⟩ := groupRule_sheds rule hr hs
    rw [hread]
    simp only [weight_append]
    omega
  · intro plain
    have hplain : plain = plainText s := by
      show (latexToPlain (String.ofList s)).toList = _
      rw [latexToPlain, String.toList_ofList, String.toList_ofList]
    obtain ⟨t, ht⟩ := plainText_trimmed s
    rw [hplain]
    refine ⟨plainText_clean s, ?_, ?_⟩
    · rw [ht]
      exact head?_trim t
    · rw [ht]
      exact getLast?_trim t

end Heightfield.Latex
