import Refinement.Power

/-!
# Shortest decimals

Every number of a binary format stands for the reals that round to it, an interval between the two
points halfway to its neighbours. `Interval.shortest` finds the decimal with the fewest digits in
that interval: it tries the grids of 1, 2, … digits, of which only the two neighbours of the number
itself can be nearest, and takes the first grid with a hit. All comparisons are exact.

* `Interval.Contains`: a decimal lies in the interval.
* `Interval.contains_of_nearest?`: what is found on a grid lies in the interval.
-/

namespace Refinement

/-- The number `digits * 10 ^ exponent`. -/
structure Decimal where
  digits : Nat
  exponent : Int
deriving DecidableEq, Repr

namespace Decimal

/-- The decimal digits without trailing zeros. -/
def digitChars (d : Decimal) : List Char :=
  ((Nat.toDigits 10 d.digits).reverse.dropWhile (· == '0')).reverse

/-- The number of digits before the decimal point; zero or less if the number is below one. -/
def point (d : Decimal) : Int := (Nat.toDigits 10 d.digits).length + d.exponent

end Decimal

/-- Which of two equally near decimals is taken. -/
inductive Tie where
  /-- The one whose last digit is even. -/
  | toEven
  /-- The one farther from zero. -/
  | away
deriving DecidableEq, Repr

/-- An interval of positive reals around a value, in units of `2 ^ scale`. -/
structure Interval where
  /-- The lower end. -/
  lower : Nat
  /-- The value that the members round to. -/
  value : Nat
  /-- The upper end. -/
  upper : Nat
  /-- The exponent of the unit. -/
  scale : Int
  /-- Whether the ends belong to the interval. -/
  closed : Bool

namespace Interval

/-- Compares `d * 10 ^ e` with `n` units of `2 ^ scale`. -/
def compareScaled (d : Nat) (e : Int) (n : Nat) (scale : Int) : Ordering :=
  compare (d * tenTo e.toNat * twoTo (-scale).toNat) (n * twoTo scale.toNat * tenTo (-e).toNat)

/-- A decimal lies in the interval: strictly between the ends, or on an end that belongs to it. -/
def Contains (i : Interval) (d : Decimal) : Prop :=
  let low := compareScaled d.digits d.exponent i.lower i.scale
  let high := compareScaled d.digits d.exponent i.upper i.scale
  (low = .gt ∨ i.closed = true ∧ low = .eq) ∧ (high = .lt ∨ i.closed = true ∧ high = .eq)

instance (i : Interval) (d : Decimal) : Decidable (i.Contains d) :=
  inferInstanceAs (Decidable (_ ∧ _))

/-- The numerator of the value. -/
def num (i : Interval) : Nat := i.value * twoTo i.scale.toNat

/-- The denominator of the value. -/
def den (i : Interval) : Nat := twoTo (-i.scale).toNat

/-- The number of digits of the value before the decimal point, zero or less below one. -/
def point (i : Interval) : Int :=
  if i.den ≤ i.num then (Nat.toDigits 10 (i.num / i.den)).length
  else 1 - (Nat.toDigits 10 ((i.den - 1) / i.num)).length

/-- The greatest multiple of `10 ^ e` that does not exceed the value. -/
def below (i : Interval) (e : Int) : Decimal where
  digits := i.num * tenTo (-e).toNat / (i.den * tenTo e.toNat)
  exponent := e

/-- Whether, of the decimal `d` and the next one on its grid, the upper one is to be taken. -/
def prefersAbove (i : Interval) (tie : Tie) (d : Decimal) : Bool :=
  match compareScaled (2 * d.digits + 1) d.exponent (2 * i.value) i.scale with
  | .lt => true
  | .gt => false
  | .eq => match tie with
    | .away => true
    | .toEven => d.digits % 2 == 1

/-- The multiple of `10 ^ e` in the interval that is nearest to the value, if there is one. -/
def nearest? (i : Interval) (tie : Tie) (e : Int) : Option Decimal :=
  let d := i.below e
  let u : Decimal := { d with digits := d.digits + 1 }
  if i.Contains d then
    if i.Contains u ∧ i.prefersAbove tie d = true then some u else some d
  else if i.Contains u then some u
  else none

/-- The value itself as a decimal. -/
def exact (i : Interval) : Decimal :=
  if 0 ≤ i.scale then ⟨i.value * twoTo i.scale.toNat, 0⟩
  else ⟨i.value * Nat.pow 5 (-i.scale).toNat, i.scale⟩

/-- The decimal with the fewest digits in the interval, the nearest to the value among those.
Seventeen digits are enough for every number of 64 bits; the exact value stands in where they
are not. -/
def shortest (i : Interval) (tie : Tie) : Decimal :=
  ((List.range 17).findSome? fun (n : Nat) => i.nearest? tie (i.point - 1 - n)).getD i.exact

/-- What is found on a grid lies in the interval. -/
theorem contains_of_nearest? {i : Interval} {tie : Tie} {e : Int} {d : Decimal}
    (h : i.nearest? tie e = some d) : i.Contains d := by
  simp only [nearest?] at h
  split at h
  · split at h
    · next hu => cases h; exact hu.1
    · next hd _ => cases h; exact hd
  · split at h
    · next hu => cases h; exact hu
    · cases h

end Interval

end Refinement
