import Refinement.Comparator
import Refinement.Formula

/-!
# Conditions

A `Condition α` is what a predicate on values of type `α` means: a Boolean formula whose atoms
compare the value with a bound, bound its number of items, or test it in some other way. The
comparators, counts and tests are arbitrary functions, so what is said of conditions holds for
every order and every predicate of a client.

* `Atom.holds`, `Condition.holds`: whether a value meets the condition.
-/

namespace Refinement

/-- A basic condition on values of type `α`. -/
inductive Atom (α : Type) where
  /-- The value stands in relation `r` to the bound. -/
  | compare (r : Relation) (o : Comparator α) (bound : α)
  /-- The value is at least `lo` and at most `hi`. -/
  | inRange (o : Comparator α) (lo hi : α)
  /-- The value has at most `n` items. -/
  | maxCount (count : α → Nat) (n : Nat)
  /-- The value has at least `n` items. -/
  | minCount (count : α → Nat) (n : Nat)
  /-- The value passes the test. -/
  | test (f : α → Bool)

namespace Atom

variable {α β : Type}

/-- Whether a value meets a basic condition. -/
def holds (v : α) : Atom α → Bool
  | .compare r o bound => r.admits (o v bound)
  | .inRange o lo hi =>
    Relation.greaterOrEqual.admits (o v lo) && Relation.lessOrEqual.admits (o v hi)
  | .maxCount count n => decide (count v ≤ n)
  | .minCount count n => decide (n ≤ count v)
  | .test f => f v

end Atom

/-- A condition on values of type `α`. -/
abbrev Condition (α : Type) := Formula (Atom α)

namespace Condition

variable {α : Type}

/-- Whether a value meets a condition. -/
def holds (p : Condition α) (v : α) : Bool := Formula.holds (Atom.holds v) p

/-- The condition that no value meets. -/
def never : Condition α := .atom (.test fun _ => false)

end Condition

end Refinement
