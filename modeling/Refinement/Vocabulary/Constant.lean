import Refinement.Scalar.Basic
import Refinement.Text.Quoted

/-!
# Constants

The constants that serve as bounds in predicates. A constant belongs to one scalar type, except for
zero, which belongs to every numeric type, and the constants of a client, which belong where the
client says.

* `Constant.value?`: the value at a scalar type, if the constant belongs to it.
* `Constant.typeName`: the name under which it is reported.
-/

namespace Refinement

/-- A constant that a client declares. -/
structure UserConstant where
  /-- Where it is declared. -/
  place : List String
  /-- Its own name. -/
  name : String
  /-- Its value at the types it belongs to. -/
  value? : (s : Scalar) → Option s.Val

/-- A constant. -/
inductive Constant where
  | char (c : Char)
  | bool (b : Bool)
  | int (k : IntKind) (n : k.Val)
  | zero
  | user (c : UserConstant)

namespace IntKind

/-- The name of a type with a capital letter. -/
def capitalName (k : IntKind) : String := k.name.capitalize

/-- A member as it stands in a type name: the least member of a signed type and the greatest of
any go by their names. -/
def memberText (k : IntKind) (n : k.Val) : String :=
  if n.toInt = k.max then k.name ++ "::MAX"
  else if k.signed && n.toInt = k.min then k.name ++ "::MIN"
  else toString n.toInt

end IntKind

namespace Constant

/-- The value at a scalar type, if the constant belongs to it. -/
def value? : Constant → (s : Scalar) → Option s.Val
  | .char c, .key .char => some c
  | .bool b, .key .bool => some b
  | .int k n, .key (.int l) => if h : k = l then some (h ▸ n) else none
  | .zero, s => s.zero?
  | .user c, s => c.value? s
  | _, _ => none

/-- The number that the constant stands for as a bound on a number of items. -/
def count? (c : Constant) : Option Nat :=
  (c.value? (.int .usize)).map fun n => n.toInt.toNat

/-- Where the constants of the library are declared. -/
def place : List String := ["proven", "constant"]

/-- The name under which the constant is reported. -/
def typeName : Constant → TypeName
  | .char c => .named place "ConstChar" [.literal (String.ofList (Text.quoteChar c))]
  | .bool b => .named place "ConstBool" [.literal (if b then "true" else "false")]
  | .int k n => .named place ("Const" ++ k.capitalName) [.literal (k.memberText n)]
  | .zero => .named place "Zero" []
  | .user c => .named c.place c.name []

@[simp] theorem value?_int (k : IntKind) (n : k.Val) :
    (Constant.int k n).value? (.int k) = some n := by
  simp [value?]

end Constant

end Refinement
