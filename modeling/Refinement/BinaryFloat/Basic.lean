import Refinement.Comparator
import Refinement.Power

/-!
# Binary floating point

A `BinaryFloat f` is a word of the format `f`: a sign, an exponent field and a fraction. Its
magnitude is the word without the sign; magnitudes grow with the absolute value, so the order of
the numbers can be read off them. Above the magnitude of infinity lie the words that are no
numbers.

* `BinaryFloat.rank`: the magnitude with the sign; both zeros have rank zero.
* `BinaryFloat.natural`: numbers compare by their ranks; what is not a number cannot be compared.
* `BinaryFloat.significand`, `BinaryFloat.exponent`: a finite number is
  `significand * 2 ^ exponent`.
-/

namespace Refinement

/-- The two interchange formats. -/
inductive FloatFormat where
  | binary32
  | binary64
deriving DecidableEq, Repr

namespace FloatFormat

/-- The number of bits of a word. -/
def width : FloatFormat → Nat
  | .binary32 => 32
  | .binary64 => 64

/-- The number of bits of the fraction. -/
def fractionBits : FloatFormat → Nat
  | .binary32 => 23
  | .binary64 => 52

/-- The exponent of the least number above zero, which is `2 ^ minExponent`. -/
def minExponent : FloatFormat → Int
  | .binary32 => -149
  | .binary64 => -1074

/-- The name of the type of numbers of this format. -/
def name : FloatFormat → String
  | .binary32 => "f32"
  | .binary64 => "f64"

/-- The number of words with either sign. -/
def signBit (f : FloatFormat) : Nat := twoTo (f.width - 1)

/-- The magnitude of infinity: all bits of the exponent field set, none of the fraction. -/
def infinity (f : FloatFormat) : Nat := f.signBit - twoTo f.fractionBits

end FloatFormat

/-- A word of a floating-point format. -/
structure BinaryFloat (f : FloatFormat) where
  /-- The bits of the word. -/
  bits : BitVec f.width
deriving DecidableEq

namespace BinaryFloat

variable {f : FloatFormat}

/-- The word with this sign and magnitude. -/
def ofMagnitude (negative : Bool) (m : Nat) : BinaryFloat f :=
  ⟨BitVec.ofNat f.width ((if negative then f.signBit else 0) + m)⟩

/-- Zero with the positive sign. -/
def zero : BinaryFloat f := ofMagnitude false 0

/-- The word that stands for every result that is not a number. -/
def nan : BinaryFloat f := ofMagnitude false (f.infinity + twoTo (f.fractionBits - 1))

instance : Inhabited (BinaryFloat f) := ⟨zero⟩

/-- Whether the sign is negative. -/
def negative (x : BinaryFloat f) : Bool := decide (f.signBit ≤ x.bits.toNat)

/-- The word without its sign. -/
def magnitude (x : BinaryFloat f) : Nat := x.bits.toNat % f.signBit

/-- Whether the word is not a number. -/
def isNaN (x : BinaryFloat f) : Bool := decide (f.infinity < x.magnitude)

/-- Whether the word is one of the two infinities. -/
def isInfinite (x : BinaryFloat f) : Bool := decide (x.magnitude = f.infinity)

/-- Whether the word is a number other than the infinities. -/
def isFinite (x : BinaryFloat f) : Bool := decide (x.magnitude < f.infinity)

/-- Whether the word is one of the two zeros. -/
def isZero (x : BinaryFloat f) : Bool := decide (x.magnitude = 0)

/-- The position of a number in the order of its format. -/
def rank (x : BinaryFloat f) : Int := if x.negative then -(x.magnitude : Int) else x.magnitude

/-- Numbers compare by value, so the two zeros are equal; what is not a number compares with
nothing, itself included. -/
def natural : Comparator (BinaryFloat f) := fun a b =>
  if a.isNaN || b.isNaN then none else some (compare a.rank b.rank)

/-- The exponent field, which is zero for the numbers below the normal range. -/
def exponentField (x : BinaryFloat f) : Nat := x.magnitude / twoTo f.fractionBits

/-- The integer by which a power of two is multiplied to give the absolute value of a finite
number. Below the normal range it is the fraction itself, above it has a leading one. -/
def significand (x : BinaryFloat f) : Nat :=
  if x.exponentField = 0 then x.magnitude
  else twoTo f.fractionBits + x.magnitude % twoTo f.fractionBits

/-- The exponent of that power of two. -/
def exponent (x : BinaryFloat f) : Int := f.minExponent + (x.exponentField - 1 : Nat)

/-- Whether the number is the first of its binade, so that its lower neighbour is only half as far
away as its upper one. -/
def narrowBelow (x : BinaryFloat f) : Bool :=
  decide (1 < x.exponentField ∧ x.magnitude % twoTo f.fractionBits = 0)

@[simp] theorem natural_nan_left (b : BinaryFloat f) {a : BinaryFloat f} (h : a.isNaN = true) :
    natural a b = none := by
  simp [natural, h]

@[simp] theorem natural_nan_right (a : BinaryFloat f) {b : BinaryFloat f} (h : b.isNaN = true) :
    natural a b = none := by
  simp [natural, h]

end BinaryFloat

end Refinement
