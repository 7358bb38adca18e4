/-!
# Substitution in a text from left to right

A *rule* looks at the beginning of a text and, when it applies there, gives what to
write instead and the text that remains.  `substitute` applies a rule at the leftmost
place where it applies, goes on behind that place, and copies every other character.
A rule that consumes nothing is taken not to apply, so a substitution always ends.
-/

namespace Heightfield.Latex

/-- What to write instead of the beginning of a text, and what remains of it. -/
abbrev Rule := List Char → Option (List Char × List Char)

def substitute (rule : Rule) : List Char → List Char
  | [] => []
  | c :: s =>
    match rule (c :: s) with
    | some (written, rest) =>
      if rest.length < (c :: s).length then written ++ substitute rule rest
      else c :: substitute rule s
    | none => c :: substitute rule s
termination_by s => s.length
decreasing_by
  · assumption
  · simp
  · simp

/-- The rules one after the other, each over the whole text. -/
def substituteAll (rules : List Rule) (s : List Char) : List Char :=
  rules.foldl (fun t rule => substitute rule t) s

theorem substitute_nil (rule : Rule) : substitute rule [] = [] := by rw [substitute]

/-- **A rule that applies nowhere changes nothing.** -/
theorem substitute_eq_self {rule : Rule} : ∀ {s : List Char},
    (∀ t, t <:+ s → rule t = none) → substitute rule s = s
  | [], _ => substitute_nil rule
  | c :: s, h => by
    rw [substitute, h (c :: s) List.suffix_rfl]
    simp only
    rw [substitute_eq_self (fun t ht => h t (ht.trans (List.suffix_cons c s)))]

end Heightfield.Latex
