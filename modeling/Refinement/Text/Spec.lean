import Refinement.Text.Digits

/-!
# Format specifications

A `Spec` says how a value is to be written: for display or for diagnosis, in what width, with which
padding, sign and precision. Its text is a pair of braces around a colon and, in this order, fill
and alignment, sign, the mark of the alternate form, the zero flag, width, precision and style;
every part may be missing.

* `Spec.ofText?` reads such a text.
* `Spec.pad`, `Spec.padNumber`: padding of texts and of numbers.
-/

namespace Refinement

/-- Where a text stands in its field. -/
inductive Alignment where
  | left
  | center
  | right
deriving DecidableEq, Repr

/-- The form in which a value is written. -/
inductive Style where
  /-- For display. -/
  | display
  /-- For diagnosis. -/
  | diagnostic
  /-- For diagnosis, integers in base sixteen, with small or capital letters. -/
  | hexadecimal (capital : Bool)
deriving DecidableEq, Repr

/-- How a value is to be written. -/
structure Spec where
  /-- The character that fills a field. -/
  fill : Char := ' '
  /-- Where the text stands in its field; each kind of value has its own default. -/
  alignment : Option Alignment := none
  /-- Whether numbers that are not negative have a plus sign. -/
  plus : Bool := false
  /-- Whether the alternate form is asked for: many lines, and base marks before digits. -/
  alternate : Bool := false
  /-- Whether numbers are filled with zeros behind their sign. -/
  zero : Bool := false
  /-- The least number of characters. -/
  width : Option Nat := none
  /-- The number of places of a number, or the greatest number of characters of a text. -/
  precision : Option Nat := none
  /-- The form. -/
  style : Style := .display
deriving DecidableEq, Repr

namespace Spec

/-- The plain diagnostic form. -/
def diagnostic : Spec := { style := .diagnostic }

/-- Whether the style is one for diagnosis. -/
def isDiagnostic (s : Spec) : Bool := s.style != .display

/-! ## Reading -/

/-- The alignment that a character stands for. -/
def alignmentOf? : Char → Option Alignment
  | '<' => some .left
  | '^' => some .center
  | '>' => some .right
  | _ => none

/-- Reads the fill character and the alignment. -/
def readAlignment (s : Spec) : List Char → Spec × List Char
  | c :: d :: r =>
    match alignmentOf? d with
    | some a => ({ s with fill := c, alignment := some a }, r)
    | none => match alignmentOf? c with
      | some a => ({ s with alignment := some a }, d :: r)
      | none => (s, c :: d :: r)
  | [c] => match alignmentOf? c with
    | some a => ({ s with alignment := some a }, [])
    | none => (s, [c])
  | [] => (s, [])

/-- Reads a number, if the text starts with one. -/
def readNumber (r : List Char) : Option Nat × List Char :=
  let digits := r.takeWhile Char.isDigit
  (if digits.isEmpty then none else some (Text.decimalValue digits), r.dropWhile Char.isDigit)

/-- Reads the flags from the sign on. -/
def readFlags (s : Spec) (r : List Char) : Spec × List Char :=
  let (s, r) := match r with
    | '+' :: r => ({ s with plus := true }, r)
    | r => (s, r)
  let (s, r) := match r with
    | '#' :: r => ({ s with alternate := true }, r)
    | r => (s, r)
  match r with
  | '0' :: r => ({ s with zero := true }, r)
  | r => (s, r)

/-- Reads width and precision. -/
def readSizes (s : Spec) (r : List Char) : Option (Spec × List Char) :=
  let (width, r) := readNumber r
  let s := { s with width }
  match r with
  | '.' :: r => match readNumber r with
    | (some n, r) => some ({ s with precision := some n }, r)
    | (none, _) => none
  | r => some (s, r)

/-- The style that the end of a specification names. -/
def styleOf? : List Char → Option Style
  | [] => some .display
  | ['?'] => some .diagnostic
  | ['x', '?'] => some (.hexadecimal false)
  | ['X', '?'] => some (.hexadecimal true)
  | _ => none

/-- Reads what stands between colon and closing brace. -/
def ofChars? (r : List Char) : Option Spec := do
  let (s, r) := readAlignment {} r
  let (s, r) := readFlags s r
  let (s, r) ← readSizes s r
  return { s with style := ← styleOf? r }

/-- Reads a specification with its braces. -/
def ofText? (text : String) : Option Spec :=
  match text.toList with
  | '\x7b' :: r => match r.reverse with
    | '\x7d' :: m => match m.reverse with
      | [] => some {}
      | ':' :: inner => ofChars? inner
      | _ => none
    | _ => none
  | _ => none

/-! ## Padding -/

/-- Fills a text up to a width. The odd character of a centered text goes to its right. -/
def fillTo (fill : Char) (a : Alignment) (width : Nat) (text : List Char) : List Char :=
  let missing := width - text.length
  match a with
  | .left => text ++ List.replicate missing fill
  | .right => List.replicate missing fill ++ text
  | .center =>
    List.replicate (missing / 2) fill ++ text ++ List.replicate (missing - missing / 2) fill

/-- A text in its field: cut to the precision and then filled, at the left unless something else is
asked for. The flags for numbers have no effect. -/
def pad (s : Spec) (text : List Char) : List Char :=
  let cut := match s.precision with
    | some n => text.take n
    | none => text
  fillTo s.fill (s.alignment.getD .left) (s.width.getD 0) cut

/-- A number in its field, given what goes before the digits, and the digits. Zeros are filled in
between the two; other fillings surround them, at the right unless something else is asked for. -/
def padNumber (s : Spec) (head body : List Char) : List Char :=
  let width := s.width.getD 0
  if s.zero then head ++ fillTo '0' .right (width - head.length) body
  else fillTo s.fill (s.alignment.getD .right) width (head ++ body)

end Spec

end Refinement
