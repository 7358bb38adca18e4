/-!
# The screen

Text for the screen may name the style of what follows it: a bracket that begins with a small
letter or with one of `#`, `/` and `@` holds a style and is not shown.  Bounds in brackets
begin with a digit or a sign as a rule and are shown; a bound that is a word, such as an
infinity, makes its bracket a style.

Controls that would move the cursor are not shown either.
-/

namespace Heightfield

namespace Screen

/-! ## Styles -/

def beginsStyle (c : Char) : Bool := ('a' ≤ c && c ≤ 'z') || "#/@".toList.contains c

/-- What follows the style that the text begins with, behind its opening bracket. -/
def afterStyle? : List Char → Option (List Char)
  | [] => none
  | c :: s =>
    if beginsStyle c then
      match s.dropWhile fun d => d ≠ '[' && d ≠ ']' with
      | ']' :: r => some r
      | _ => none
    else none

theorem length_afterStyle? {s r : List Char} (h : afterStyle? s = some r) : r.length < s.length := by
  cases s with
  | nil => simp [afterStyle?] at h
  | cons c s =>
    have := (List.dropWhile_suffix (l := s) fun d => d ≠ '[' && d ≠ ']').length_le
    simp only [afterStyle?] at h
    split at h
    · split at h
      · next he =>
        rw [he] at this
        cases h
        simp only [List.length_cons] at this ⊢
        omega
      · cases h
    · cases h

/-- The text without the styles in it. -/
def withoutStyles : List Char → List Char
  | [] => []
  | c :: s =>
    if c = '[' then
      match _h : afterStyle? s with
      | some r => withoutStyles r
      | none => c :: withoutStyles s
    else c :: withoutStyles s
termination_by s => s.length
decreasing_by
  · have := length_afterStyle? (by assumption)
    simp only [List.length_cons]
    omega
  all_goals simp

/-! ## Controls -/

/-- The bell, and the controls that move the cursor other than to the next line or column. -/
def isControl (c : Char) : Bool := [7, 8, 11, 12, 13].contains c.toNat

/-! ## Showing -/

/-- What is seen of a text. -/
def shown (s : String) : List Char := (withoutStyles s.toList).filter (!isControl ·)

/-- The lines that are seen of a text. -/
def lines (s : String) : List String := ((shown s).splitOn '\n').map String.ofList

end Screen

end Heightfield
