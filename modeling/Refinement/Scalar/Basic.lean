import Refinement.BinaryFloat.Basic
import Refinement.Scalar.Key
import Refinement.TypeName

/-!
# Scalar types

The types whose values are not made of other values: keys, floating-point numbers, and counts. A
count stands for a collection of which nothing but the number of items is kept.

* `Scalar.natural`: the natural order, partial for floating-point numbers only.
* `Scalar.order`: the total order in which sets of scalars stand.
* `Scalar.equal`: equality of values; the two zeros of a floating-point type are equal, and what is
  not a number equals nothing.
* `Scalar.zero?`, `Scalar.items?`: the zero of the numeric types, the number of items of the types
  that have one.
-/

namespace Refinement

/-- A type of values without parts. -/
inductive Scalar where
  | key (k : Key)
  | float (f : FloatFormat)
  | count
deriving DecidableEq, Repr

namespace BinaryFloat

variable {f : FloatFormat}

/-- Equality of numbers. -/
def equal (a b : BinaryFloat f) : Bool :=
  !a.isNaN && !b.isNaN && (a.bits == b.bits || a.isZero && b.isZero)

/-- The words of a format in the order of their bits. -/
def order (f : FloatFormat) : TotalOrder (BinaryFloat f) :=
  (TotalOrder.ofOrd Nat).on (fun x => x.bits.toNat) fun {a b} h => by
    cases a; cases b; simpa [BitVec.toNat_inj] using h

end BinaryFloat

namespace Scalar

/-- The integers of a kind. -/
@[match_pattern] abbrev int (k : IntKind) : Scalar := .key (.int k)

/-- The values of a scalar type. -/
@[reducible] def Val : Scalar → Type
  | .key k => k.Val
  | .float f => BinaryFloat f
  | .count => IntKind.Val .usize

/-- The natural order. -/
def natural : (s : Scalar) → Comparator s.Val
  | .key k => Comparator.ofTotal k.compare
  | .float _ => BinaryFloat.natural
  | .count => Comparator.ofTotal (IntKind.Val.compare (k := .usize))

/-- The total order. It is the natural one where that is total; the words of floating-point formats,
of which there are no sets, stand in the order of their bits. -/
def order : (s : Scalar) → TotalOrder s.Val
  | .key k => k.order
  | .float f => BinaryFloat.order f
  | .count => (Key.int .usize).order

/-- Equality of values. -/
def equal : (s : Scalar) → s.Val → s.Val → Bool
  | .key _, a, b => decide (a = b)
  | .float _, a, b => BinaryFloat.equal a b
  | .count, a, b => decide (a = b)

/-- Whether any two values can be compared. -/
def isTotal : Scalar → Bool
  | .float _ => false
  | _ => true

/-- The zero of a numeric type. -/
def zero? : (s : Scalar) → Option s.Val
  | .key (.int k) => some k.zero
  | .float _ => some BinaryFloat.zero
  | _ => none

/-- The number of items of a text, which are its characters, and the number that a count stands
for; other scalars have no items. -/
def items? : (s : Scalar) → Option (s.Val → Nat)
  | .key .text => some String.length
  | .count => some fun n => n.toInt.toNat
  | _ => none

/-- The name of the type. -/
def typeName : Scalar → TypeName
  | .key (.int k) => .basic k.name
  | .key .bool => .basic "bool"
  | .key .char => .basic "char"
  | .key .text => .named ["alloc", "string"] "String" []
  | .float f => .basic f.name
  | .count => .named ["proven", "refined", "predicates", "collection"] "SeqInfo" []

end Scalar

end Refinement
