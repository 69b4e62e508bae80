import Refinement.Text.Unprintable

/-!
# Quoted text

The form in which characters and texts appear in diagnostic output: between quotation marks, with
a backslash before the mark and the backslash itself, a letter for the commonest controls, and the
code point for every other character that does not print.
-/

namespace Refinement.Text

/-- The digits of a number in base sixteen. -/
def hexDigits (n : Nat) : List Char := Nat.toDigits 16 n

/-- A character as it stands between two quotation marks `mark`. -/
def escape (mark c : Char) : List Char :=
  if c = Char.ofNat 0 then ['\\', '0']
  else if c = '\t' then ['\\', 't']
  else if c = '\n' then ['\\', 'n']
  else if c = '\r' then ['\\', 'r']
  else if c = '\\' || c = mark then ['\\', c]
  else if isUnprintable c then ['\\', 'u', '\x7b'] ++ hexDigits c.toNat ++ ['\x7d']
  else [c]

/-- A character between single quotation marks. -/
def quoteChar (c : Char) : List Char := '\'' :: escape '\'' c ++ ['\'']

/-- A text between double quotation marks. -/
def quote (s : List Char) : List Char := '"' :: s.flatMap (escape '"') ++ ['"']

/-- A text between double quotation marks. -/
def quoteString (s : String) : String := String.ofList (quote s.toList)

end Refinement.Text
