import Refinement.Scalar.Integer
import Refinement.TotalOrder

/-!
# Keys

The scalar types whose members are totally ordered, and so may be collected in sets and be the keys
of maps: integers, truth values, characters and texts.

* `Key.compare`: integers by value, false before true, characters by code point and texts character
  by character.
* `Key.order`: the order is total, and only equal members compare equal.
-/

namespace Refinement

/-- A scalar type with a total order. -/
inductive Key where
  | int (k : IntKind)
  | bool
  | char
  | text
deriving DecidableEq, Repr

namespace Key

/-- The members of a key type. -/
@[reducible] def Val : Key → Type
  | .int k => k.Val
  | .bool => Bool
  | .char => Char
  | .text => String

instance decEq : (k : Key) → DecidableEq k.Val
  | .int _ => inferInstanceAs (DecidableEq (IntKind.Val _))
  | .bool => inferInstanceAs (DecidableEq Bool)
  | .char => inferInstanceAs (DecidableEq Char)
  | .text => inferInstanceAs (DecidableEq String)

/-- The total order of a key type. -/
def compare : (k : Key) → k.Val → k.Val → Ordering
  | .int _, a, b => IntKind.Val.compare a b
  | .bool, a, b => Ord.compare (a : Bool) b
  | .char, a, b => Ord.compare (a : Char) b
  | .text, a, b => Ord.compare (a : String) b

instance transCmp : (k : Key) → Std.TransCmp k.compare
  | .int _ =>
    { eq_swap := fun {a b} => @Std.OrientedCmp.eq_swap Int Ord.compare _ a.toInt b.toInt
      isLE_trans := fun {a b c} =>
        @Std.TransCmp.isLE_trans Int Ord.compare _ a.toInt b.toInt c.toInt }
  | .bool => inferInstanceAs (Std.TransOrd Bool)
  | .char => inferInstanceAs (Std.TransOrd Char)
  | .text => inferInstanceAs (Std.TransOrd String)

instance lawfulEqCmp : (k : Key) → Std.LawfulEqCmp k.compare
  | .int _ =>
    { compare_self := fun {a} => @Std.ReflCmp.compare_self Int Ord.compare _ a.toInt
      eq_of_compare := fun h => IntKind.Val.ext (Std.LawfulEqOrd.eq_of_compare h) }
  | .bool => inferInstanceAs (Std.LawfulEqOrd Bool)
  | .char => inferInstanceAs (Std.LawfulEqOrd Char)
  | .text => inferInstanceAs (Std.LawfulEqOrd String)

/-- The total order of a key type. -/
def order (k : Key) : TotalOrder k.Val := ⟨k.compare, inferInstance, inferInstance⟩

end Key

end Refinement
