/-!
# Type names

The full names under which types and predicates are reported. A name is a path with arguments, a
tuple, a slice, an array, or a value that stands as an argument.

* `TypeName.text`: the name as it is written.
* `TypeName.short`: the name without the path of its head.
-/

namespace Refinement

/-- The full name of a type. -/
inductive TypeName where
  /-- A name at a place, with its arguments. The place is empty for the basic types. -/
  | named (place : List String) (name : String) (arguments : List TypeName)
  /-- A tuple of types. -/
  | tuple (items : List TypeName)
  /-- A sequence of unspecified length. -/
  | slice (item : TypeName)
  /-- A sequence of a fixed length. -/
  | array (item : TypeName) (length : Nat)
  /-- A value that stands as an argument, as it is written. -/
  | literal (text : String)

namespace TypeName

/-- A basic type. -/
def basic (name : String) : TypeName := .named [] name []

mutual

/-- The name as it is written. Arguments stand between angle brackets, and a tuple of one item has
a comma behind it. -/
def text : TypeName → String
  | .named place name [] => String.join (place.map (· ++ "::")) ++ name
  | .named place name (a :: as) =>
    String.join (place.map (· ++ "::")) ++ name ++ "<" ++ a.text ++ textTail as ++ ">"
  | .tuple [] => "()"
  | .tuple [a] => "(" ++ a.text ++ ",)"
  | .tuple (a :: b :: as) => "(" ++ a.text ++ ", " ++ b.text ++ textTail as ++ ")"
  | .slice a => "[" ++ a.text ++ "]"
  | .array a n => "[" ++ a.text ++ "; " ++ toString n ++ "]"
  | .literal t => t

/-- The names that follow the first of a list. -/
def textTail : List TypeName → String
  | [] => ""
  | a :: as => ", " ++ a.text ++ textTail as

end

/-- The name without the place of its head. -/
def short : TypeName → String
  | .named _ name as => (named [] name as).text
  | t => t.text

/-- The name of the head alone. -/
def head : TypeName → String
  | .named _ name _ => name
  | t => t.text

end TypeName

end Refinement
