import Mathlib.Data.List.TakeWhile
import Heightfield.Latex.Substitution
/-!
# Substitution part by part

A text is often put together from parts each of which a rule treats on its own, whatever follows it
(`Rule.Turns`): it passes over the part, or writes something else for it.  Then it treats the whole text part
by part.
-/
namespace Heightfield.Latex

variable {rule : Rule}

theorem substitute_cons_of_none {c : Char} {s : List Char} (h : rule (c :: s) = none) :
    substitute rule (c :: s) = c :: substitute rule s := by
  rw [substitute, h]

theorem substitute_of_some {s w rest : List Char} (h : rule s = some (w, rest)) (hlt : rest.length < s.length) :
    substitute rule s = w ++ substitute rule rest := by
  cases s with
  | nil => cases hlt
  | cons c s =>
    rw [substitute, h]
    exact if_pos hlt

/-- Whatever follows `l`, the rule writes `w` for it and goes on behind it. -/
def Rule.Turns (rule : Rule) (l w : List Char) : Prop :=
  ∀ rest, substitute rule (l ++ rest) = w ++ substitute rule rest

namespace Rule.Turns

theorem nil : rule.Turns [] [] := fun _ => rfl

theorem append {l l' w w' : List Char} (h : rule.Turns l w) (h' : rule.Turns l' w') :
    rule.Turns (l ++ l') (w ++ w') := fun rest => by
  rw [List.append_assoc, h, h', List.append_assoc]

theorem cons {c : Char} {l w : List Char} (hc : rule.Turns [c] [c]) (h : rule.Turns l w) :
    rule.Turns (c :: l) (c :: w) := hc.append h

theorem of_none {c : Char} (h : ∀ rest, rule (c :: rest) = none) : rule.Turns [c] [c] := fun rest =>
  substitute_cons_of_none (h rest)

theorem of_forall_mem {l : List Char} (h : ∀ c ∈ l, rule.Turns [c] [c]) : rule.Turns l l := by
  induction l with
  | nil => exact nil
  | cons c l ih =>
    exact cons (h c List.mem_cons_self) (ih fun d hd => h d (List.mem_cons_of_mem c hd))

/-- Where a rule does not apply, it copies the character and goes on. -/
theorem cons_of_none {c : Char} {l w : List Char} (hc : ∀ rest, rule (c :: (l ++ rest)) = none)
    (h : rule.Turns l w) : rule.Turns (c :: l) (c :: w) := fun rest => by
  rw [List.cons_append, substitute_cons_of_none (hc rest), h rest, List.cons_append]

/-- A rule that consumes a part writes its own text for it. -/
theorem of_some {l w : List Char} (hl : l ≠ []) (h : ∀ rest, rule (l ++ rest) = some (w, rest)) : rule.Turns l w :=
  fun rest => substitute_of_some (h rest) (by
    have := List.length_pos_iff.2 hl
    rw [List.length_append]
    omega)

theorem flatMap {α : Type} {f g : α → List Char} : ∀ {l : List α}, (∀ x ∈ l, rule.Turns (f x) (g x)) →
    rule.Turns (l.flatMap f) (l.flatMap g)
  | [], _ => nil
  | x :: _, h => (h x List.mem_cons_self).append (flatMap fun y hy => h y (List.mem_cons_of_mem x hy))

theorem substitute_eq {l w : List Char} (h : rule.Turns l w) : substitute rule l = w := by
  have hnil := h []
  rwa [List.append_nil, substitute_nil, List.append_nil] at hnil

theorem unique {l w w' : List Char} (h : rule.Turns l w) (h' : rule.Turns l w') : w = w' :=
  h.substitute_eq.symm.trans h'.substitute_eq

end Rule.Turns

theorem substituteAll_cons (rules : List Rule) (s : List Char) :
    substituteAll (rule :: rules) s = substituteAll rules (substitute rule s) := rfl

theorem substituteAll_append (rules rules' : List Rule) (s : List Char) :
    substituteAll (rules ++ rules') s = substituteAll rules' (substituteAll rules s) :=
  List.foldl_append

theorem substituteAll_eq_self {s : List Char} : ∀ {rules : List Rule}, (∀ rule ∈ rules, substitute rule s = s) →
    substituteAll rules s = s
  | [], _ => rfl
  | rule :: rules, h => by
    rw [substituteAll_cons, h rule List.mem_cons_self]
    exact substituteAll_eq_self fun r hr => h r (List.mem_cons_of_mem rule hr)

/-- The first character of a text without the property, if not all have it. -/
theorem forall_or_exists_first (p : Char → Bool) (x : List Char) : (∀ c ∈ x, p c = true) ∨
    ∃ a c b, x = a ++ c :: b ∧ (∀ d ∈ a, p d = true) ∧ p c = false := by
  have hsplit := List.takeWhile_append_dropWhile (p := p) (l := x)
  cases hdrop : x.dropWhile p with
  | nil =>
    rw [hdrop, List.append_nil] at hsplit
    exact Or.inl fun c hc => List.mem_takeWhile_imp (hsplit.symm ▸ hc)
  | cons c b =>
    have hnot := List.head?_dropWhile_not p x
    rw [hdrop] at hnot hsplit
    exact Or.inr ⟨_, c, b, hsplit.symm, fun d hd => List.mem_takeWhile_imp hd, by simpa using hnot⟩

end Heightfield.Latex
