import Mathlib.Data.String.Basic
import Heightfield.Formula.Expr
/-!
# The variables of an expression

`Expr.freeVariables` lists the names of an expression's variables in increasing order, each once.
-/
namespace Heightfield.Formula.Expr

theorem mem_insertName {s t : String} : ∀ {l : List String}, t ∈ insertName s l ↔ t = s ∨ t ∈ l
  | [] => by rw [insertName, List.mem_singleton]; simp
  | u :: l => by
    unfold insertName
    split
    · exact List.mem_cons
    · split
      · rename_i h
        subst h
        simp
      · rw [List.mem_cons, mem_insertName, List.mem_cons]
        tauto

theorem insertName_sorted {s : String} : ∀ {l : List String}, l.Pairwise (· < ·) → (insertName s l).Pairwise (· < ·)
  | [], _ => List.pairwise_singleton _ s
  | u :: l, h => by
    obtain ⟨hu, hl⟩ := List.pairwise_cons.1 h
    unfold insertName
    split
    · rename_i hlt
      exact List.pairwise_cons.2 ⟨fun v hv => (List.mem_cons.1 hv).elim (fun heq => heq ▸ hlt)
        fun hmem => lt_trans hlt (hu v hmem), h⟩
    · split
      · exact h
      · rename_i hnlt hne
        have hlt : u < s := lt_of_le_of_ne (not_lt.1 hnlt) (Ne.symm hne)
        refine List.pairwise_cons.2 ⟨fun v hv => ?_, insertName_sorted hl⟩
        exact (mem_insertName.1 hv).elim (fun heq => heq ▸ hlt) (hu v)

/-- **A variable is free in an expression just if its name occurs there.** -/
theorem mem_freeVariables {e : Expr} {s : String} : s ∈ e.freeVariables ↔ s ∈ e.names := by
  unfold freeVariables
  induction e.names with
  | nil => rfl
  | cons t l ih => rw [List.foldr_cons, mem_insertName, ih, List.mem_cons]

/-- **The variables stand in increasing order**, each once. -/
theorem freeVariables_sorted (e : Expr) : e.freeVariables.Pairwise (· < ·) := by
  unfold freeVariables
  induction e.names with
  | nil => exact .nil
  | cons t l ih => exact insertName_sorted ih

theorem names_opposite (e : Expr) : e.opposite.names = e.names := by
  unfold opposite
  split <;> rfl

theorem hasBare_opposite (e : Expr) : e.opposite.hasBare = e.hasBare := by
  unfold opposite
  split <;> rfl

end Heightfield.Formula.Expr
