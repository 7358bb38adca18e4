import Heightfield.Vocabulary
/-!
# Math-mode delimiters

A formula copied out of a document carries its delimiters: `$…$`, `$$…$$`, `\[…\]` or
`\(…\)`.  One pair of them is taken off, together with the blanks inside.
-/

namespace Heightfield.Latex

/-- The text between an opening and a closing delimiter that do not overlap. -/
def between? (opening closing s : List Char) : Option (List Char) :=
  if opening.length + closing.length ≤ s.length then
    match after? opening s, after? closing.reverse s.reverse with
    | some r, some _ => some (r.take (r.length - closing.length))
    | _, _ => none
  else none

/-- The delimiters, the longer ones first. -/
def delimiters : List (List Char × List Char) :=
  [(['$', '$'], ['$', '$']), (['\\', '['], ['\\', ']']),
   (['$'], ['$']), (['\\', '('], ['\\', ')'])]

/-- The text without blanks around it and without one pair of math-mode delimiters. -/
def undelimited (s : List Char) : List Char :=
  let t := trim s
  match delimiters.findSome? (fun d => between? d.1 d.2 t) with
  | some r => trim r
  | none => t

end Heightfield.Latex
