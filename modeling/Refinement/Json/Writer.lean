import Refinement.BinaryFloat.Text
import Refinement.Text.Quoted
import Refinement.Ty.Basic

/-!
# Writing JSON

Values as JSON text without blanks. Sequences, sets and tuples are arrays, maps and records are
objects, and the keys of objects are texts. A refined value is written as what it holds, a value
that is present as an array of one item, and an uninitialized wrapper as an empty array.

* `Ty.write`: the text of a value.
* `Ty.hasForm`, `Ty.isWritable`: whether the values of a type have a JSON form, and whether a value does.
-/

namespace Refinement

namespace Json

/-- The exponents of the leading digit that are written without an exponent; the longer the
numbers of a format, the more of them. -/
def plainExponents : FloatFormat → Int × Int
  | .binary32 => (-6, 13)
  | .binary64 => (-5, 16)

/-- Below and above the plain range numbers have an exponent, with its sign; an integral number
without exponent has a point and a zero. -/
def floatNotation (f : FloatFormat) : Notation := ⟨some (plainExponents f), true, true, .toEven⟩

/-- A floating-point number; infinities and what is no number are null. -/
def writeFloat {f : FloatFormat} (x : BinaryFloat f) : List Char :=
  if x.isFinite then x.signText false ++ x.shortestBody (floatNotation f) else "null".toList

/-- An integer. -/
def writeInt (n : Int) : List Char :=
  (if n < 0 then ['-'] else []) ++ Nat.toDigits 10 n.natAbs

/-- A truth value. -/
def writeBool (b : Bool) : List Char := (if b then "true" else "false").toList

/-- A character as it stands between quotation marks. -/
def escape (c : Char) : List Char :=
  if c = '"' then ['\\', '"']
  else if c = '\\' then ['\\', '\\']
  else if c = '\n' then ['\\', 'n']
  else if c = '\r' then ['\\', 'r']
  else if c = '\t' then ['\\', 't']
  else if c = Char.ofNat 8 then ['\\', 'b']
  else if c = Char.ofNat 12 then ['\\', 'f']
  else if c.toNat < 32 then
    ['\\', 'u', '0', '0', Nat.digitChar (c.toNat / 16), Nat.digitChar (c.toNat % 16)]
  else [c]

/-- A text between quotation marks. -/
def writeText (s : List Char) : List Char := '"' :: s.flatMap escape ++ ['"']

/-- Texts with commas between them. -/
def separated : List (List Char) → List Char
  | [] => []
  | [t] => t
  | t :: u :: ts => t ++ ',' :: separated (u :: ts)

/-- An array. -/
def writeArray (items : List (List Char)) : List Char := '[' :: separated items ++ [']']

/-- A tuple, given its parts as they are written. The one without parts is null. -/
def writeTuple : List (List Char) → List Char
  | [] => "null".toList
  | t :: ts => writeArray (t :: ts)

/-- An object, given its keys and values as they are written. -/
def writeObject (members : List (List Char × List Char)) : List Char :=
  '\x7b' :: separated (members.map fun m => m.1 ++ ':' :: m.2) ++ ['\x7d']

end Json

/-- A key as a value. -/
def Key.write : (k : Key) → k.Val → List Char
  | .int _, v => Json.writeInt (IntKind.Val.toInt v)
  | .bool, v => Json.writeBool v
  | .char, v => Json.writeText [v]
  | .text, v => Json.writeText (String.toList v)

/-- A key as the name of a member: what is not a text by itself stands between quotation marks. -/
def Key.writeName : (k : Key) → k.Val → List Char
  | .int _, v => '"' :: Json.writeInt (IntKind.Val.toInt v) ++ ['"']
  | .bool, v => '"' :: Json.writeBool v ++ ['"']
  | .char, v => Json.writeText [v]
  | .text, v => Json.writeText (String.toList v)

/-- A scalar. -/
def Scalar.write : (s : Scalar) → s.Val → List Char
  | .key k, v => k.write v
  | .float _, v => Json.writeFloat v
  | .count, v => Json.writeInt (IntKind.Val.toInt (k := .usize) v)

/-- A value as the name of a member. Only keys are names, refined or not, and optional ones that are
there. -/
def Ty.writeName : (t : Ty) → t.Val → List Char
  | .scalar (.key k), v => k.writeName v
  | .option t, v => match (v : Option _) with
    | none => []
    | some v => t.writeName v
  | .refined t _, v => t.writeName v.value
  | _, _ => []

mutual

/-- A value as JSON text. -/
def Ty.write : (t : Ty) → t.Val → List Char
  | .scalar s, v => s.write v
  | .list _ t, vs => Json.writeArray (List.map t.write vs)
  | .array t _, vs => Json.writeArray (vs.val.map t.write)
  | .set t, m => Json.writeArray ((SortedMap.keys m).map t.write)
  | .map k t, m => Json.writeObject
    ((SortedMap.entries m).map fun e => (k.writeName e.1, t.write e.2))
  | .option t, v => match (v : Option _) with
    | none => "null".toList
    | some v => t.write v
  | .refined t _, v => t.write v.value
  | .present t, v => Json.writeArray ((Present.toList v).map t.write)
  | .tuple r, v => Json.writeTuple ((r.writeParts v).map (·.2))
  | .record _ _ r, v => Json.writeObject (r.writeParts v)

/-- The parts of a tuple or record, behind their names. -/
def Row.writeParts : (r : Row) → r.Val → List (List Char × List Char)
  | .nil, _ => []
  | .cons label t r, v =>
    (Json.writeText label.toList, t.write v.1) :: r.writeParts v.2

end

mutual

/-- Whether the values of a type have a JSON form. Counts have none. -/
def Ty.hasForm : Ty → Bool
  | .scalar .count => false
  | .scalar _ => true
  | .list _ t => t.hasForm
  | .array t _ => t.hasForm
  | .set t => t.hasForm
  | .map k t => k.hasForm && t.hasForm
  | .option t => t.hasForm
  | .refined t _ => t.hasForm
  | .present t => t.hasForm
  | .tuple r => r.hasForm
  | .record _ _ r => r.hasForm

/-- Whether this is so of all parts. -/
def Row.hasForm : Row → Bool
  | .nil => true
  | .cons _ t r => t.hasForm && r.hasForm

end

/-- Whether a value can be the name of a member. -/
def Ty.hasName : (t : Ty) → t.Val → Bool
  | .scalar (.key _), _ => true
  | .option t, v => match (v : Option _) with
    | none => false
    | some v => t.hasName v
  | .refined t _, v => t.hasName v.value
  | _, _ => false

mutual

/-- Whether all keys of the maps in a value can be names of members. -/
def Ty.isWritable : (t : Ty) → t.Val → Bool
  | .scalar _, _ => true
  | .list _ t, vs => List.all vs t.isWritable
  | .array t _, vs => vs.val.all t.isWritable
  | .set t, m => (SortedMap.keys m).all t.isWritable
  | .map k t, m => (SortedMap.entries m).all fun e => k.hasName e.1 && t.isWritable e.2
  | .option t, v => (Option.toList v).all t.isWritable
  | .refined t _, v => t.isWritable v.value
  | .present t, v => (Present.toList v).all t.isWritable
  | .tuple r, v => r.isWritable v
  | .record _ _ r, v => r.isWritable v

/-- Whether this is so in all parts. -/
def Row.isWritable : (r : Row) → r.Val → Bool
  | .nil, _ => true
  | .cons _ t r, v => t.isWritable v.1 && r.isWritable v.2

end

/-- The JSON form of a value, if it has one. -/
def Ty.json? (t : Ty) (v : t.Val) : Option String :=
  if t.hasForm && t.isWritable v then some (String.ofList (t.write v)) else none

end Refinement
