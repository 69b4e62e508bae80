import Refinement.BinaryFloat.Basic
import Refinement.Decimal.Rounding

/-!
# Floating-point arithmetic

Every operation is carried out exactly on integers and the result is rounded once, to the nearest
number of the format and to the even one of two that are equally near. A result beyond the
greatest finite number becomes infinity.

* `BinaryFloat.ofRatio`: the one place where rounding happens.
* `neg`, `add`, `mul`, `div`, `convert`, `ofNat`: the operations.
-/

namespace Refinement

namespace FloatFormat

/-- The greatest `e` with `2 ^ e * den ≤ num`, for positive `num` and `den`. -/
def binaryLog (num den : Nat) : Int :=
  let e : Int := (num.log2 : Int) - den.log2
  if den * twoTo e.toNat ≤ num * twoTo (-e).toNat then e else e - 1

/-- The magnitude of the number nearest to `num / den`. The significand is rounded at the exponent
that leaves it its full length, or at the least exponent below the normal range; a carry out of the
significand runs into the exponent field, which is where it belongs. -/
def magnitudeOfRatio (f : FloatFormat) (num den : Nat) : Nat :=
  if num = 0 then 0
  else
    let q : Int := max f.minExponent (binaryLog num den - f.fractionBits)
    let significand := roundHalfEven (num * twoTo (-q).toNat) (den * twoTo q.toNat)
    min ((q - f.minExponent).toNat * twoTo f.fractionBits + significand) f.infinity

end FloatFormat

namespace BinaryFloat

variable {f : FloatFormat}

/-- The number nearest to `num / den`, with the given sign. -/
def ofRatio (negative : Bool) (num den : Nat) : BinaryFloat f :=
  ofMagnitude negative (f.magnitudeOfRatio num den)

/-- The number nearest to `m * 2 ^ e`, with the given sign. -/
def ofDyadic (negative : Bool) (m : Nat) (e : Int) : BinaryFloat f :=
  ofRatio negative (m * twoTo e.toNat) (twoTo (-e).toNat)

/-- The number nearest to a natural number. -/
def ofNat (n : Nat) : BinaryFloat f := ofRatio false n 1

/-- The word with the other sign. -/
def neg (x : BinaryFloat f) : BinaryFloat f := ofMagnitude (!x.negative) x.magnitude

/-- An infinity. -/
def infinite (negative : Bool) : BinaryFloat f := ofMagnitude negative f.infinity

/-- The sum. The sum of numbers that cancel is zero with the positive sign. -/
def add (x y : BinaryFloat f) : BinaryFloat f :=
  if x.isNaN || y.isNaN then nan
  else if x.isInfinite then if y.isInfinite && x.negative != y.negative then nan else x
  else if y.isInfinite then y
  else
    let e := min x.exponent y.exponent
    let term (z : BinaryFloat f) : Int :=
      let m : Int := (z.significand * twoTo (z.exponent - e).toNat : Nat)
      if z.negative then -m else m
    let sum := term x + term y
    if sum = 0 then ofMagnitude (x.negative && y.negative) 0
    else ofDyadic (decide (sum < 0)) sum.natAbs e

/-- The product. -/
def mul (x y : BinaryFloat f) : BinaryFloat f :=
  let negative := x.negative != y.negative
  if x.isNaN || y.isNaN then nan
  else if x.isInfinite || y.isInfinite then
    if x.isZero || y.isZero then nan else infinite negative
  else ofDyadic negative (x.significand * y.significand) (x.exponent + y.exponent)

/-- The quotient. -/
def div (x y : BinaryFloat f) : BinaryFloat f :=
  let negative := x.negative != y.negative
  if x.isNaN || y.isNaN then nan
  else if x.isInfinite then if y.isInfinite then nan else infinite negative
  else if y.isInfinite then ofMagnitude negative 0
  else if y.isZero then if x.isZero then nan else infinite negative
  else
    let e := x.exponent - y.exponent
    ofRatio negative (x.significand * twoTo e.toNat) (y.significand * twoTo (-e).toNat)

/-- The nearest number of another format. -/
def convert (g : FloatFormat) (x : BinaryFloat f) : BinaryFloat g :=
  if x.isNaN then nan
  else if x.isInfinite then infinite x.negative
  else ofDyadic x.negative x.significand x.exponent

end BinaryFloat

end Refinement
