import Refinement.Ty.Order

/-!
# Comparisons in full

Everything that can be asked about two values of a type: whether they are equal, how they compare,
whether one is below the other, and whether they would be stored in one place of a hash table.

* `Comparison.ofValues`: the answers for two values.
-/

namespace Refinement

/-- The answers to all questions about two values. -/
structure Comparison where
  /-- Whether they are equal. -/
  equal : Bool
  /-- How they compare, if they can be compared. -/
  ordering : Option Ordering
  /-- How they compare at a type where all values can be compared. -/
  total : Option Ordering
  /-- Whether their hashes are equal, at a type where all values can be compared. Equal values have
  equal hashes, and different ones have different hashes for all that is known. -/
  sameHash : Option Bool

namespace Comparison

/-- The comparison of two values, given the order and the equality of a type and whether all values
can be compared. -/
def ofValues {α : Type} (natural : Comparator α) (equal : α → α → Bool) (isTotal : Bool)
    (a b : α) : Comparison where
  equal := equal a b
  ordering := natural a b
  total := if isTotal then natural a b else none
  sameHash := if isTotal then some (equal a b) else none

/-- Whether the first is below the second. -/
def less (c : Comparison) : Bool := Relation.less.admits c.ordering

/-- Whether the first is not above the second. -/
def lessOrEqual (c : Comparison) : Bool := Relation.lessOrEqual.admits c.ordering

/-- Whether the first is above the second. -/
def greater (c : Comparison) : Bool := Relation.greater.admits c.ordering

/-- Whether the first is not below the second. -/
def greaterOrEqual (c : Comparison) : Bool := Relation.greaterOrEqual.admits c.ordering

end Comparison

/-- The comparison of two values of a type. -/
def Ty.compare (t : Ty) (a b : t.Val) : Comparison :=
  Comparison.ofValues t.natural t.equal t.isTotal a b

end Refinement
