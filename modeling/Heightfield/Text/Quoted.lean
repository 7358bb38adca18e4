import Heightfield.Text.Printable
/-!
# Quoted text

In a message a text stands between quotes: single ones, unless it holds a single quote
and no double one.  The quote in use and the backslash are escaped, and so is every
character that is not printable.
-/

namespace Heightfield

namespace Quoted

/-- `n` in hexadecimal, padded with zeros to `width` digits. -/
def hexadecimal (width n : Nat) : List Char :=
  let ds := Nat.toDigits 16 n
  List.replicate (width - ds.length) '0' ++ ds

/-- The escape of a character that is not printable, as short as its code point allows. -/
def codeEscape (c : Char) : List Char :=
  if c.toNat < 0x100 then '\\' :: 'x' :: hexadecimal 2 c.toNat
  else if c.toNat < 0x10000 then '\\' :: 'u' :: hexadecimal 4 c.toNat
  else '\\' :: 'U' :: hexadecimal 8 c.toNat

def character (quote c : Char) : List Char :=
  if c = quote ∨ c = '\\' then ['\\', c]
  else if c = '\n' then ['\\', 'n']
  else if c = '\r' then ['\\', 'r']
  else if c = '\t' then ['\\', 't']
  else if isPrintable c then [c]
  else codeEscape c

def quoteFor (s : List Char) : Char :=
  if s.contains '\'' && !s.contains '"' then '"' else '\''

end Quoted

/-- The text between quotes, as messages show it. -/
def quoted (s : List Char) : List Char :=
  let quote := Quoted.quoteFor s
  quote :: s.flatMap (Quoted.character quote) ++ [quote]

end Heightfield
