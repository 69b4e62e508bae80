import Refinement.BinaryFloat.Text
import Refinement.Scalar.Basic
import Refinement.Text.Outline
import Refinement.Text.Quoted
import Refinement.Text.Spec

/-!
# The text of scalars

Scalars as they are written for display and for diagnosis. For display, characters and texts stand
as they are; for diagnosis they are quoted, and flags and widths do not touch them.

* `Scalar.display?`: the display form of the types that have one.
* `Scalar.outline`: the diagnostic form.
* `BinaryFloat.displayNotation`, `BinaryFloat.diagnosticNotation`: how numbers are laid out.
-/

namespace Refinement

namespace BinaryFloat

variable {f : FloatFormat}

/-- For display there is never an exponent, and an integral number has no point. -/
def displayNotation : Notation := ⟨none, false, false, .away⟩

/-- For diagnosis there is an exponent below a ten-thousandth and from ten to the sixteenth on, and
an integral number written without exponent has a point and a zero. -/
def diagnosticNotation : Notation := ⟨some (-4, 16), true, false, .away⟩

/-- A number in its field. -/
def text (spec : Spec) (x : BinaryFloat f) : List Char :=
  let form := if spec.isDiagnostic then diagnosticNotation else displayNotation
  let body := match spec.precision with
    | some places => x.fixedBody places
    | none => x.shortestBody form
  spec.padNumber (x.signText spec.plus) body

end BinaryFloat

namespace IntKind

variable {k : IntKind}

/-- The digits of a number in base sixteen. -/
def hexText (capital : Bool) (n : Nat) : List Char :=
  let digits := Text.hexDigits n
  if capital then digits.map Char.toUpper else digits

/-- An integer in its field. In base sixteen the sign of a negative one is part of its digits. -/
def Val.text (spec : Spec) (v : k.Val) : List Char :=
  let plus := if spec.plus then ['+'] else []
  match spec.style with
  | .hexadecimal capital =>
    spec.padNumber (plus ++ if spec.alternate then ['0', 'x'] else [])
      (hexText capital v.toUnsigned)
  | _ => spec.padNumber (if v.toInt < 0 then ['-'] else plus) (Nat.toDigits 10 v.toInt.natAbs)

end IntKind

namespace Scalar

/-- A truth value in words. -/
def boolText (b : Bool) : List Char := (if b then "true" else "false").toList

/-- The display form. Counts have none. -/
def display? : (s : Scalar) → Option (Spec → s.Val → List Char)
  | .key (.int _) => some fun spec v => IntKind.Val.text spec v
  | .key .bool => some fun spec v => spec.pad (boolText v)
  | .key .char => some fun spec v => spec.pad [v]
  | .key .text => some fun spec v => spec.pad (String.toList v)
  | .float _ => some fun spec v => BinaryFloat.text spec v
  | .count => none

/-- The diagnostic form of a key. -/
def keyText (spec : Spec) : (k : Key) → k.Val → List Char
  | .int _, v => IntKind.Val.text spec v
  | .bool, v => spec.pad (boolText v)
  | .char, v => Text.quoteChar v
  | .text, v => Text.quote (String.toList v)

/-- The diagnostic form. -/
def outline (spec : Spec) : (s : Scalar) → s.Val → Outline
  | .key k, v => .leaf (String.ofList (keyText spec k v))
  | .float _, v => .leaf (String.ofList (BinaryFloat.text spec v))
  | .count, v =>
    .group (.record "SeqInfo")
      [.field "count" (.leaf (String.ofList (IntKind.Val.text (k := .usize) spec v)))]

end Scalar

end Refinement
