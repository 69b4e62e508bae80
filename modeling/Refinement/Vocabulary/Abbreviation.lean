import Refinement.Vocabulary.Marker

/-!
# Predicates with shorter names

The predicates that are used most: the signs of numbers, bounds on numbers of items, and ranges of
integers.
-/

namespace Refinement.Predicate

/-- A comparison with zero in the natural order. -/
def sign (r : Relation) : Predicate := .atom (.compare r .natural .zero)

/-- Above zero. -/
def positive : Predicate := sign .greater

/-- Zero or above. -/
def nonNegative : Predicate := sign .greaterOrEqual

/-- Below zero. -/
def negative : Predicate := sign .less

/-- Zero or below. -/
def nonPositive : Predicate := sign .lessOrEqual

/-- Equal to zero. -/
def isZero : Predicate := sign .equal

/-- Anything but zero. -/
def nonZero : Predicate := .not isZero

/-- At most so many items. -/
def atMost (n : IntKind.Val .usize) : Predicate := .atom (.maxCount (.int .usize n))

/-- At least so many items. -/
def atLeast (n : IntKind.Val .usize) : Predicate := .atom (.minCount (.int .usize n))

/-- Integers of a kind between two others. -/
def integerRange (k : IntKind) (lo hi : k.Val) : Predicate :=
  .atom (.inRange .natural (.int k lo) (.int k hi))

/-- Whole percents. -/
def percentage : Predicate :=
  integerRange .i32 (IntKind.wrap .i32 0) (IntKind.wrap .i32 100)

/-- The numbers of network endpoints. -/
def endpoint : Predicate := integerRange .u16 (IntKind.wrap .u16 1) (IntKind.wrap .u16 65535)

/-- A class of characters. -/
def ofClass (c : CharClass) : Predicate := .atom (.charClass c)

end Refinement.Predicate
