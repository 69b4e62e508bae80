import Refinement.Ty.Order
import Refinement.Refined

/-!
# Sorting out values

Many values are refined one after another; the ones that pass are put in order.

* `Sorted.ofValues`: the values that were turned away, and those that passed, in order.
-/

namespace Refinement

/-- What comes of refining many values. -/
structure Sorted (t : Ty) where
  /-- The values that were turned away, in the order in which they came. -/
  rejected : List t.Val
  /-- The values that passed, in ascending order. -/
  accepted : List t.Val

namespace Sorted

variable {t : Ty}

/-- Whether one value may stand before another. -/
def inOrder (t : Ty) (a b : t.Val) : Bool := t.natural a b != some .gt

/-- Refines values one after another and sorts those that pass; equal ones keep their order. -/
def ofValues (t : Ty) (p : Predicate) (vs : List t.Val) : Sorted t where
  rejected := vs.filter fun v => !(t.requirement p).accepts v
  accepted := (vs.filter fun v => (t.requirement p).accepts v).mergeSort (inOrder t)

/-- Drops every value that is equal to the one before it. -/
def dropRepeated (t : Ty) : List t.Val → List t.Val
  | a :: b :: vs => if t.equal a b then dropRepeated t (b :: vs) else a :: dropRepeated t (b :: vs)
  | vs => vs

/-- The values that passed, each once, in ascending order. -/
def distinct (s : Sorted t) : List t.Val := dropRepeated t s.accepted

/-- The least value that passed. -/
def min? (s : Sorted t) : Option t.Val := s.accepted.head?

/-- The greatest value that passed. -/
def max? (s : Sorted t) : Option t.Val := s.accepted.getLast?

end Sorted

end Refinement
