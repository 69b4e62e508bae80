import Refinement.BinaryFloat.Arithmetic
import Refinement.Decimal.Notation

/-!
# The text of a floating-point number

The sign is kept apart from the body of the text, because padding may come between them.

* `BinaryFloat.interval`: the reals that round to a finite number.
* `BinaryFloat.shortestBody`: the fewest digits that read back, laid out in a given notation.
* `BinaryFloat.fixedBody`: a given number of places.
-/

namespace Refinement.BinaryFloat

variable {f : FloatFormat}

/-- The reals that round to a finite number, in units of a quarter of its last place. The ends,
halfway to the neighbours, belong to the number whose significand is even. -/
def interval (x : BinaryFloat f) : Interval where
  lower := 4 * x.significand - if x.narrowBelow then 1 else 2
  value := 4 * x.significand
  upper := 4 * x.significand + 2
  scale := x.exponent - 2
  closed := x.significand % 2 == 0

/-- The text of an infinity without its sign. -/
def infinityText : List Char := "inf".toList

/-- The text of what is not a number. -/
def nanText : List Char := "NaN".toList

/-- The absolute value with the fewest digits that read back. -/
def shortestBody (n : Notation) (x : BinaryFloat f) : List Char :=
  if x.isNaN then nanText
  else if x.isInfinite then infinityText
  else if x.isZero then n.zero
  else n.layout (x.interval.shortest n.tie)

/-- The absolute value with a fixed number of places. -/
def fixedBody (places : Nat) (x : BinaryFloat f) : List Char :=
  if x.isNaN then nanText
  else if x.isInfinite then infinityText
  else
    fixedPlaces (x.significand * twoTo x.exponent.toNat) (twoTo (-x.exponent).toNat) places

/-- The sign as it is written. What is not a number has none; `plus` asks for the sign of numbers
that are not negative. -/
def signText (plus : Bool) (x : BinaryFloat f) : List Char :=
  if x.isNaN then [] else if x.negative then ['-'] else if plus then ['+'] else []

end Refinement.BinaryFloat
