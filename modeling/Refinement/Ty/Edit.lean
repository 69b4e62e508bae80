import Refinement.BinaryFloat.Arithmetic
import Refinement.Ty.Basic

/-!
# Edits

Named functions from a type to itself: arithmetic on numbers, which wraps around at the ends of an
integer type, changes of case, and changes at the end of texts and sequences.

* `Ty.edit?`: the function that a name stands for at a type.
-/

namespace Refinement

/-- A function from a type to itself, perhaps with an argument. -/
inductive Edit (t : Ty) where
  /-- A function without argument. -/
  | plain (f : t.Val → t.Val)
  /-- A function with an argument of the type `argument`. -/
  | taking (argument : Ty) (f : argument.Val → t.Val → t.Val)

namespace IntKind

variable {k : IntKind}

/-- Arithmetic on integers, which wraps around. -/
def wrapping (op : Int → Int → Int) (a v : k.Val) : k.Val := k.wrap (op v.toInt a.toInt)

end IntKind

namespace Ty

/-- The functions on integers. -/
def integerEdit? (k : IntKind) : String → Option (Edit (.int k))
  | "add" => some (.taking (.int k) fun a v => IntKind.wrapping (k := k) (· + ·) a v)
  | "sub" => some (.taking (.int k) fun a v => IntKind.wrapping (k := k) (· - ·) a v)
  | "mul" => some (.taking (.int k) fun a v => IntKind.wrapping (k := k) (· * ·) a v)
  | "neg" => some (.plain fun v => k.wrap (-(IntKind.Val.toInt (k := k) v)))
  | _ => none

/-- The functions on counts. -/
def countEdit? : String → Option (Edit (.scalar .count))
  | "add" => some (.taking (.scalar .count) fun a v => IntKind.wrapping (k := .usize) (· + ·) a v)
  | "sub" => some (.taking (.scalar .count) fun a v => IntKind.wrapping (k := .usize) (· - ·) a v)
  | _ => none

/-- The functions on floating-point numbers. -/
def floatEdit? (f : FloatFormat) : String → Option (Edit (.scalar (.float f)))
  | "neg" => some (.plain fun v => BinaryFloat.neg (f := f) v)
  | "add" => some (.taking (.scalar (.float f)) fun a v => BinaryFloat.add (f := f) v a)
  | "mul" => some (.taking (.scalar (.float f)) fun a v => BinaryFloat.mul (f := f) v a)
  | _ => none

/-- The functions on texts. -/
def textEdit? : String → Option (Edit .text)
  | "push" => some (.taking .text fun a v => String.append v a)
  | "pop" => some (.plain fun v => String.ofList (String.toList v).dropLast)
  | "rev" => some (.plain fun v => String.ofList (String.toList v).reverse)
  | _ => none

/-- The functions on sequences. -/
def listEdit? (kind : ListKind) (t : Ty) : String → Option (Edit (.list kind t))
  | "push" => some (.taking t fun a (vs : List t.Val) => vs ++ [a])
  | "pop" => some (.plain fun (vs : List t.Val) => vs.dropLast)
  | "rev" => some (.plain fun (vs : List t.Val) => vs.reverse)
  | _ => none

/-- The functions on sequences of a fixed length, which they keep. -/
def arrayEdit? (t : Ty) (n : Nat) : String → Option (Edit (.array t n))
  | "rev" => some (.plain fun (vs : { vs : List t.Val // vs.length = n }) =>
    ⟨vs.val.reverse, by simp [vs.property]⟩)
  | _ => none

/-- The function that a name stands for at a type. -/
def edit? (t : Ty) (name : String) : Option (Edit t) :=
  if name = "id" then some (.plain id)
  else if name = "set" then some (.taking t fun a _ => a)
  else match t with
    | .scalar (.key (.int k)) => integerEdit? k name
    | .scalar .count => countEdit? name
    | .scalar (.float f) => floatEdit? f name
    | .scalar (.key .bool) => if name = "neg" then some (.plain Bool.not) else none
    | .scalar (.key .char) =>
      if name = "upper" then some (.plain Char.toUpper)
      else if name = "lower" then some (.plain Char.toLower)
      else none
    | .scalar (.key .text) => textEdit? name
    | .list kind t => listEdit? kind t name
    | .array t n => arrayEdit? t n name
    | _ => none

end Ty

end Refinement
