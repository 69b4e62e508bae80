import Refinement.Ty.Text
import Refinement.Vocabulary.Abbreviation

/-!
# Tallies

The number of items of a collection, and what the bounds on it say of the collection itself and of
the count that stands for it.

* `CollectionKind.size`: the number of items of a collection of a given kind.
* `Tally.ofValue`: all of this for a value of a type that has items.
-/

namespace Refinement

/-- The kinds of collections that a list of items can be put into. -/
inductive CollectionKind where
  | slice
  | vector
  | boxed
  | deque
  | heap
  | array
  | hashSet
  | sortedSet
  | hashMap
  | sortedMap
deriving DecidableEq, Repr

namespace CollectionKind

/-- Whether equal items become one. -/
def mergesEqual : CollectionKind → Bool
  | .hashSet | .sortedSet | .hashMap | .sortedMap => true
  | _ => false

/-- The number of items of a collection into which the keys of a list were put. -/
def size {t : Ty} (c : CollectionKind) (items : List t.Val) : Nat :=
  if c.mergesEqual then (SortedMap.ofList (o := t.order) (items.map fun i => (i, ()))).size
  else items.length

/-- What a collection of a kind shows to predicates, given the items that were put into it. -/
def facet (c : CollectionKind) (t : Ty) : Facet (List t.Val) :=
  .counted c.size fun items => .group (items.map t.model.datum)

end CollectionKind

/-- What is known about the number of items of a collection. -/
structure Tally where
  /-- The number of items. -/
  count : IntKind.Val .usize
  /-- Whether the collection meets the upper bound. -/
  atMost : Bool
  /-- Whether the collection meets the lower bound. -/
  atLeast : Bool
  /-- Whether the count meets the upper bound. -/
  countAtMost : Bool
  /-- Whether the count meets the lower bound. -/
  countAtLeast : Bool
  /-- How the count compares with the upper bound. -/
  versusMax : Option Ordering

namespace Tally

/-- The tally of a collection, given how its items are counted. -/
def ofValue {α : Type} (F : Facet α) (v : α) (max min : IntKind.Val .usize) : Option Tally :=
  F.items?.map fun items =>
    let count := IntKind.wrap .usize (items v)
    { count
      atMost := (Predicate.atMost max).accepts F v
      atLeast := (Predicate.atLeast min).accepts F v
      countAtMost := (Predicate.atMost max).accepts (.scalar .count) count
      countAtLeast := (Predicate.atLeast min).accepts (.scalar .count) count
      versusMax := Scalar.natural .count count max }

/-- The diagnostic form of the count. -/
def countText (t : Tally) : String := (Ty.scalar .count).debug t.count

end Tally

end Refinement
