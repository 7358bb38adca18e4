import Heightfield.Latex.Commands
import Heightfield.Proofs.Latex.Groups
/-!
# Terms in LaTeX

`Term` is what a math editor writes for ordinary formulas: fractions, roots, resizable parentheses, exponents,
calls, sums and products.  `Term.latex` is its text, `Term.plain` the text in the dialect of formulas.

A term is also a list of lexemes (`Term.lexemes`), and each stage of the conversion changes how some of the
lexemes are spelled and nothing else.  In that list a lexeme that ends an operand is followed by one that does
not begin an operand, and the other way round (`placed_lexemes`).
-/
namespace Heightfield.Latex

/-! ## Terms -/

abbrev Letter := { c : Char // isLetter c = true }

/-- Some digits. -/
structure Numeral where
  digits : List Char
  ne_nil : digits ≠ []
  isDigit_of_mem : ∀ c ∈ digits, isDigit c = true

/-- A function command and the name it stands for. -/
abbrev Command := { f : String × String // f ∈ functionCommands }

inductive Sign where
  | plus | minus | dot
  deriving DecidableEq, Repr

def Sign.latex : Sign → List Char
  | plus => " + ".toList
  | minus => " - ".toList
  | dot => " \\cdot ".toList

def Sign.plain : Sign → List Char
  | plus => " + ".toList
  | minus => " - ".toList
  | dot => " * ".toList

inductive Term where
  | letter (c : Letter)
  | number (n : Numeral)
  | fraction (a b : Term)
  | squareRoot (a : Term)
  | nthRoot (n : Numeral) (a : Term)
  | parenthesis (a : Term)
  /-- Whatever the base is, the exponent stands behind it in braces. -/
  | power (base exponent : Term)
  | call (f : Command) (a : Term)
  | binary (s : Sign) (a b : Term)

namespace Term

def latex : Term → List Char
  | letter c => [c.1]
  | number n => n.digits
  | fraction a b => "\\frac\x7b".toList ++ (a.latex ++ ("\x7d\x7b".toList ++ (b.latex ++ "\x7d".toList)))
  | squareRoot a => "\\sqrt\x7b".toList ++ (a.latex ++ "\x7d".toList)
  | nthRoot n a => "\\sqrt[".toList ++ (n.digits ++ "]\x7b".toList) ++ (a.latex ++ "\x7d".toList)
  | parenthesis a => "\\left(".toList ++ (a.latex ++ "\\right)".toList)
  | power a b => a.latex ++ ("^\x7b".toList ++ (b.latex ++ "\x7d".toList))
  | call f a => '\\' :: f.1.1.toList ++ "\\left(".toList ++ (a.latex ++ "\\right)".toList)
  | binary s a b => a.latex ++ (s.latex ++ b.latex)

def plain : Term → List Char
  | letter c => [c.1]
  | number n => n.digits
  | fraction a b => "((".toList ++ (a.plain ++ (")/(".toList ++ (b.plain ++ "))".toList)))
  | squareRoot a => "sqrt(".toList ++ (a.plain ++ ")".toList)
  | nthRoot n a => "((".toList ++ (a.plain ++ (")^(1/(".toList ++ (n.digits ++ ")))".toList)))
  | parenthesis a => "(".toList ++ (a.plain ++ ")".toList)
  | power a b => a.plain ++ ("^(".toList ++ (b.plain ++ ")".toList))
  | call f a => f.1.2.toList ++ "(".toList ++ (a.plain ++ ")".toList)
  | binary s a b => a.plain ++ (s.plain ++ b.plain)

end Term

/-! ## Lexemes -/

/-- A mark of a construct. -/
inductive GroupMark where
  | fractionOpening | fractionBar | fractionClosing
  | rootOpening | rootClosing
  | nthOpening (n : Numeral) | nthClosing (n : Numeral)
  | exponentOpening | exponentClosing

namespace GroupMark

def latex : GroupMark → List Char
  | fractionOpening => "\\frac\x7b".toList
  | fractionBar => "\x7d\x7b".toList
  | rootOpening => "\\sqrt\x7b".toList
  | nthOpening n => "\\sqrt[".toList ++ (n.digits ++ "]\x7b".toList)
  | exponentOpening => "^\x7b".toList
  | fractionClosing | rootClosing | nthClosing _ | exponentClosing => "\x7d".toList

def plain : GroupMark → List Char
  | fractionOpening => "((".toList
  | fractionBar => ")/(".toList
  | fractionClosing => "))".toList
  | rootOpening => "sqrt(".toList
  | rootClosing => ")".toList
  | nthOpening _ => "((".toList
  | nthClosing n => ")^(1/(".toList ++ (n.digits ++ ")))".toList)
  | exponentOpening => "^(".toList
  | exponentClosing => ")".toList

end GroupMark

inductive Lexeme where
  | letter (c : Letter)
  | number (n : Numeral)
  | mark (g : GroupMark)
  | opening
  | closing
  /-- A function with its parenthesis. -/
  | call (f : Command)
  | sign (s : Sign)

namespace Lexeme

/-- How lexemes are written at a stage of the conversion. -/
structure Spelling where
  name : Command → List Char
  mark : GroupMark → List Char
  opening : List Char
  closing : List Char
  sign : Sign → List Char

namespace Spelling

def latex : Spelling where
  name f := '\\' :: f.1.1.toList
  mark := GroupMark.latex
  opening := "\\left(".toList
  closing := "\\right)".toList
  sign := Sign.latex

def plain : Spelling where
  name f := f.1.2.toList
  mark := GroupMark.plain
  opening := "(".toList
  closing := ")".toList
  sign := Sign.plain

end Spelling

def text (sp : Spelling) : Lexeme → List Char
  | letter c => [c.1]
  | number n => n.digits
  | mark g => sp.mark g
  | opening => sp.opening
  | closing => sp.closing
  | call f => sp.name f ++ sp.opening
  | sign s => sp.sign s

/-- The lexeme can begin an operand. -/
def begins : Lexeme → Bool
  | letter _ | number _ | opening | call _ => true
  | mark (.fractionOpening) | mark (.rootOpening) | mark (.nthOpening _) => true
  | _ => false

/-- The lexeme can end an operand. -/
def ends : Lexeme → Bool
  | letter _ | number _ | closing => true
  | mark (.fractionClosing) | mark (.rootClosing) | mark (.nthClosing _) | mark (.exponentClosing) => true
  | _ => false

/-- The lexemes can stand where an operand is expected, or where one has just ended. -/
def Placed : (expected : Bool) → List Lexeme → Prop
  | expected, [] => expected = false
  | expected, x :: xs => x.begins = expected ∧ Placed (!x.ends) xs

end Lexeme

open Lexeme (Placed Spelling)

namespace Term

def lexemes : Term → List Lexeme
  | letter c => [.letter c]
  | number n => [.number n]
  | fraction a b =>
    .mark .fractionOpening :: (a.lexemes ++ .mark .fractionBar :: (b.lexemes ++ [.mark .fractionClosing]))
  | squareRoot a => .mark .rootOpening :: (a.lexemes ++ [.mark .rootClosing])
  | nthRoot n a => .mark (.nthOpening n) :: (a.lexemes ++ [.mark (.nthClosing n)])
  | parenthesis a => .opening :: (a.lexemes ++ [.closing])
  | power a b => a.lexemes ++ .mark .exponentOpening :: (b.lexemes ++ [.mark .exponentClosing])
  | call f a => .call f :: (a.lexemes ++ [.closing])
  | binary s a b => a.lexemes ++ .sign s :: b.lexemes

/-- The term as its lexemes are spelled. -/
def text (sp : Spelling) (t : Term) : List Char := t.lexemes.flatMap (Lexeme.text sp)

theorem text_latex (t : Term) : t.text .latex = t.latex := by
  unfold text
  induction t <;>
    simp_all only [lexemes, List.flatMap_append, List.flatMap_cons, List.flatMap_nil, List.append_nil] <;> rfl

theorem text_plain (t : Term) : t.text .plain = t.plain := by
  unfold text
  induction t <;>
    simp_all only [lexemes, List.flatMap_append, List.flatMap_cons, List.flatMap_nil, List.append_nil] <;> rfl

/-- **A term stands where an operand is expected and ends one.** -/
theorem placed_lexemes_append (t : Term) : ∀ xs, Placed true (t.lexemes ++ xs) ↔ Placed false xs := by
  induction t <;> intro xs <;> simp_all [lexemes, Placed, Lexeme.begins, Lexeme.ends]

theorem placed_lexemes (t : Term) : Placed true t.lexemes := by
  have h := (t.placed_lexemes_append []).2 rfl
  rwa [List.append_nil] at h

theorem exists_lexemes_cons (t : Term) : ∃ x xs, t.lexemes = x :: xs ∧ x.begins = true := by
  have h := t.placed_lexemes
  cases hxs : t.lexemes with
  | nil =>
    rw [hxs] at h
    cases h
  | cons x xs =>
    rw [hxs] at h
    exact ⟨x, xs, rfl, h.1⟩

theorem exists_lexemes_concat (t : Term) : ∃ xs x, t.lexemes = xs ++ [x] ∧ x.ends = true := by
  induction t with
  | letter c => exact ⟨[], .letter c, rfl, rfl⟩
  | number n => exact ⟨[], .number n, rfl, rfl⟩
  | fraction a b _ _ =>
    exact ⟨.mark .fractionOpening :: (a.lexemes ++ .mark .fractionBar :: b.lexemes), .mark .fractionClosing,
      by simp [lexemes], rfl⟩
  | squareRoot a _ => exact ⟨.mark .rootOpening :: a.lexemes, .mark .rootClosing, rfl, rfl⟩
  | nthRoot n a _ => exact ⟨.mark (.nthOpening n) :: a.lexemes, .mark (.nthClosing n), rfl, rfl⟩
  | parenthesis a _ => exact ⟨.opening :: a.lexemes, .closing, rfl, rfl⟩
  | power a b _ _ =>
    exact ⟨a.lexemes ++ .mark .exponentOpening :: b.lexemes, .mark .exponentClosing, by simp [lexemes], rfl⟩
  | call f a _ => exact ⟨.call f :: a.lexemes, .closing, rfl, rfl⟩
  | binary s a b _ ihb =>
    obtain ⟨xs, x, hb, hx⟩ := ihb
    exact ⟨a.lexemes ++ .sign s :: xs, x, by simp [lexemes, hb], hx⟩

end Term

end Heightfield.Latex
