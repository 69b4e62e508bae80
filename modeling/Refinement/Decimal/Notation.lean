import Refinement.Decimal.Rounding
import Refinement.Decimal.Shortest

/-!
# Decimal notation

How the digits of a number are laid out as text: where the decimal point stands, when an exponent
is written, and how many places follow the point when their number is given. A `Notation` holds
the decisions of one output format.
-/

namespace Refinement

/-- The layout decisions of a number format. -/
structure Notation where
  /-- The exponents of the leading digit, from the first up to but without the second, that are
  written without an exponent; all of them if there is no bound. -/
  plain : Option (Int × Int)
  /-- Whether an integral number is written with a zero behind the point. -/
  pointZero : Bool
  /-- Whether a positive exponent has a plus sign. -/
  exponentPlus : Bool
  /-- Which of two equally near decimals is written. -/
  tie : Tie

namespace Notation

/-- `n` zeros. -/
def zeros (n : Nat) : List Char := List.replicate n '0'

/-- Digits with the decimal point after the first `point` of them, or with zeros between where the
point lies outside. -/
def positional (pointZero : Bool) (digits : List Char) (point : Int) : List Char :=
  if point ≤ 0 then ['0', '.'] ++ zeros (-point).toNat ++ digits
  else if digits.length ≤ point.toNat then
    digits ++ zeros (point.toNat - digits.length) ++ if pointZero then ['.', '0'] else []
  else digits.take point.toNat ++ '.' :: digits.drop point.toNat

/-- Digits with the point after the first, and the exponent of that digit. -/
def scientific (plus : Bool) (digits : List Char) (exponent : Int) : List Char :=
  let mantissa := match digits with
    | d :: r => if r.isEmpty then [d] else d :: '.' :: r
    | [] => ['0']
  let sign := if exponent < 0 then ['-'] else if plus then ['+'] else []
  mantissa ++ 'e' :: sign ++ Nat.toDigits 10 exponent.natAbs

/-- The text of a positive decimal. -/
def layout (n : Notation) (d : Decimal) : List Char :=
  let exponent := d.point - 1
  let isPlain := match n.plain with
    | none => true
    | some (first, last) => decide (first ≤ exponent ∧ exponent < last)
  if isPlain then positional n.pointZero d.digitChars d.point
  else scientific n.exponentPlus d.digitChars exponent

/-- The text of zero. -/
def zero (n : Notation) : List Char := if n.pointZero then ['0', '.', '0'] else ['0']

end Notation

/-- The text of `num / den` with a fixed number of places, a half rounded to the even neighbour. -/
def fixedPlaces (num den places : Nat) : List Char :=
  let digits := Nat.toDigits 10 (roundHalfEven (num * tenTo places) den)
  let padded := Notation.zeros (places + 1 - digits.length) ++ digits
  let whole := padded.length - places
  if places = 0 then padded else padded.take whole ++ '.' :: padded.drop whole

end Refinement
