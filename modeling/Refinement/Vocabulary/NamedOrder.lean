import Refinement.Scalar.Basic

/-!
# Named orders

Comparators as predicates name them: the natural order, the orders of a client, and the reverse of
either, any number of times.

* `NamedOrder.comparator`: the comparator of a named order at a scalar type.
* `NamedOrder.comparator_reversed`: a reversed order exchanges less and greater.
-/

namespace Refinement

/-- An order that a client declares. -/
structure UserOrder where
  /-- Where it is declared. -/
  place : List String
  /-- Its own name. -/
  name : String
  /-- How it compares; at types it is not meant for it compares nothing. -/
  comparator : (s : Scalar) → Comparator s.Val

/-- A basic order. -/
inductive OrderName where
  | natural
  | user (o : UserOrder)

/-- An order as a predicate names it. -/
abbrev NamedOrder := Order OrderName

/-- The comparator of a basic order. -/
def OrderName.comparator (s : Scalar) : OrderName → Comparator s.Val
  | .natural => s.natural
  | .user o => o.comparator s

namespace NamedOrder

/-- The natural order. -/
def natural : NamedOrder := .base .natural

/-- The comparator of an order. -/
def comparator (s : Scalar) (o : NamedOrder) : Comparator s.Val :=
  Order.comparator (OrderName.comparator s) o

/-- Where the orders of the library are declared. -/
def place : List String := ["proven", "order"]

/-- The name under which the order is reported. -/
def typeName : NamedOrder → TypeName
  | .base .natural => .named place "Natural" []
  | .base (.user o) => .named o.place o.name []
  | .reversed o => .named place "Reversed" [typeName o]

@[simp] theorem comparator_natural (s : Scalar) : natural.comparator s = s.natural := rfl

@[simp] theorem comparator_reversed (s : Scalar) (o : NamedOrder) :
    comparator s (Order.reversed o) = (comparator s o).reversed := rfl

end NamedOrder

end Refinement
