/-!
# Blank characters and letters

Two alphabets are in play.  The *dialect* of formulas is ASCII: its letters and
digits are `A–Z`, `a–z` and `0–9` and nothing else, so an accented letter is never a
variable.  *Blanks*, on the other hand, are all characters that Unicode counts as
white space, because formulas arrive from editors that write no-break and ideographic
spaces; the four information separators U+001C–U+001F are among them.
-/

namespace Heightfield

/-! ## Lists of characters

What is asked of the characters of a list is decided by going through the list, not through all characters. -/

instance decidableForallMem {p : Char → Prop} [DecidablePred p] (l : List Char) : Decidable (∀ c ∈ l, p c) :=
  List.decidableBAll p l

instance decidableExistsMem {p : Char → Prop} [DecidablePred p] (l : List Char) : Decidable (∃ c ∈ l, p c) :=
  List.decidableBEx p l

instance decidableForallMemOption {p : Char → Prop} [DecidablePred p] (o : Option Char) : Decidable (∀ c ∈ o, p c) :=
  Option.decidableForallMem o

/-! ## The dialect's letters and digits -/

def isLetter (c : Char) : Bool :=
  ('a' ≤ c && c ≤ 'z') || ('A' ≤ c && c ≤ 'Z')

def isDigit (c : Char) : Bool := '0' ≤ c && c ≤ '9'

def isAlphanumeric (c : Char) : Bool := isLetter c || isDigit c

theorem isLetter_iff (c : Char) :
    isLetter c = true ↔ (97 ≤ c.toNat ∧ c.toNat ≤ 122) ∨ (65 ≤ c.toNat ∧ c.toNat ≤ 90) := by
  simp only [isLetter, Bool.or_eq_true, Bool.and_eq_true, decide_eq_true_eq, Char.le_def,
    UInt32.le_iff_toNat_le]
  exact Iff.rfl

theorem isDigit_iff (c : Char) : isDigit c = true ↔ 48 ≤ c.toNat ∧ c.toNat ≤ 57 := by
  simp only [isDigit, Bool.and_eq_true, decide_eq_true_eq, Char.le_def, UInt32.le_iff_toNat_le]
  exact Iff.rfl

theorem isLetter_eq_false_of_isDigit {c : Char} (h : isDigit c = true) : isLetter c = false := by
  rw [isDigit_iff] at h
  rw [Bool.eq_false_iff, ne_eq, isLetter_iff]
  omega

theorem isAlphanumeric_of_isLetter {c : Char} (h : isLetter c = true) : isAlphanumeric c = true := by
  rw [isAlphanumeric, h, Bool.true_or]

theorem isAlphanumeric_of_isDigit {c : Char} (h : isDigit c = true) : isAlphanumeric c = true := by
  rw [isAlphanumeric, h, Bool.or_true]

/-! ## Blanks -/

/-- Code points of white space, as closed ranges in increasing order. -/
def blankRanges : List (Nat × Nat) :=
  [(0x09, 0x0D), (0x1C, 0x20), (0x85, 0x85), (0xA0, 0xA0), (0x1680, 0x1680),
   (0x2000, 0x200A), (0x2028, 0x2029), (0x202F, 0x202F), (0x205F, 0x205F), (0x3000, 0x3000)]

def isBlank (c : Char) : Bool :=
  blankRanges.any (fun r => r.1 ≤ c.toNat && c.toNat ≤ r.2)

theorem isBlank_iff (c : Char) :
    isBlank c = true ↔ ∃ r ∈ blankRanges, r.1 ≤ c.toNat ∧ c.toNat ≤ r.2 := by
  simp [isBlank]

theorem isBlank_eq_false_of_isAlphanumeric {c : Char} (h : isAlphanumeric c = true) : isBlank c = false := by
  rw [isAlphanumeric, Bool.or_eq_true, isLetter_iff, isDigit_iff] at h
  rw [Bool.eq_false_iff, ne_eq, isBlank_iff]
  simp only [blankRanges, List.mem_cons, List.not_mem_nil, or_false, exists_eq_or_imp, exists_eq_left]
  omega

/-- The text without the blanks at its beginning. -/
def trimLeft (s : List Char) : List Char := s.dropWhile isBlank

def trimRight (s : List Char) : List Char := (s.reverse.dropWhile isBlank).reverse

/-- The text without the blanks at either end. -/
def trim (s : List Char) : List Char := trimRight (trimLeft s)

theorem trimLeft_append {l : List Char} (hl : ∀ c ∈ l, isBlank c = true) (s : List Char) :
    trimLeft (l ++ s) = trimLeft s := List.dropWhile_append_of_pos hl

theorem trimLeft_cons {c : Char} (hc : isBlank c = false) (s : List Char) : trimLeft (c :: s) = c :: s :=
  List.dropWhile_cons_of_neg (by rw [hc]; exact Bool.false_ne_true)

theorem trimLeft_eq_self {s : List Char} (hs : ∀ c ∈ s.head?, isBlank c = false) : trimLeft s = s := by
  cases s with
  | nil => rfl
  | cons c s => exact trimLeft_cons (hs c rfl) s

/-- A text that neither begins nor ends with a blank is what is left when it stands among blanks. -/
theorem trim_append {l s r : List Char} (hl : ∀ c ∈ l, isBlank c = true) (hr : ∀ c ∈ r, isBlank c = true)
    (hs : ∀ c ∈ s.head?, isBlank c = false) (hs' : ∀ c ∈ s.getLast?, isBlank c = false) :
    trim (l ++ (s ++ r)) = s := by
  have hright : trimRight (s ++ r) = s := by
    have hrev : trimLeft (r.reverse ++ s.reverse) = s.reverse := by
      rw [trimLeft_append (by simpa using hr), trimLeft_eq_self (by simpa using hs')]
    rw [trimRight, List.reverse_append]
    exact (congrArg List.reverse hrev).trans s.reverse_reverse
  rw [trim, trimLeft_append hl]
  cases s with
  | nil =>
    have hblank : trimLeft r = [] := by
      have h := trimLeft_append hr []
      rwa [List.append_nil] at h
    rw [List.nil_append, hblank]
    rfl
  | cons c s => rw [List.cons_append, trimLeft_cons (hs c rfl), ← List.cons_append, hright]

theorem trim_eq_self {s : List Char} (hs : ∀ c ∈ s.head?, isBlank c = false)
    (hs' : ∀ c ∈ s.getLast?, isBlank c = false) : trim s = s := by
  have h := trim_append (l := []) (r := []) nofun nofun hs hs'
  rwa [List.nil_append, List.append_nil] at h

end Heightfield
