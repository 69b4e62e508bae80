import Refinement.Comparator
import Refinement.Event

/-!
# Values that are present

A `Present α` holds a value, except when it was built from a sequence without elements; then it is
uninitialized, and asking for the value is an error. A value may also be looked for in a source that
marks its absence, an optional value or a pointer.

* `Present.takeFirst`: takes one element from a sequence, and leaves the rest.
* `Present.value`: the value, or an error that is also reported.
* `Present.ofNullable`: the value of a source, or an error if it is absent.
-/

namespace Refinement

/-- A value that is present, unless there was none to take. -/
inductive Present (α : Type) where
  | uninitialized
  | holding (value : α)
deriving DecidableEq, Repr

/-- A value was absent where one is required. -/
structure NullValueError where
  /-- The name of the type of the value. -/
  typeName : String
deriving DecidableEq, Repr

/-- A value was asked of an uninitialized wrapper. -/
structure UninitializedAccessError where
  /-- The name of the type of the value. -/
  typeName : String
deriving DecidableEq, Repr

namespace NullValueError

/-- The name of the error. -/
def name : String := "NullValueError"

/-- The error in words. -/
def message (e : NullValueError) : String :=
  "value of type " ++ e.typeName ++ " is absent where a present value is required"

end NullValueError

namespace UninitializedAccessError

/-- The name of the error. -/
def name : String := "UninitializedAccessError"

/-- The error in words. -/
def message (e : UninitializedAccessError) : String :=
  "Present<" ++ e.typeName ++ "> has not been initialized"

end UninitializedAccessError

/-- A source of a value that may be absent. -/
class Nullable (source : Type) (value : outParam Type) where
  /-- The value, if it is there. -/
  value? : source → Option value

instance (α : Type) : Nullable (Option α) α := ⟨id⟩

/-- A place that a value may be found at. Address zero is the place of nothing. -/
structure Pointer (α : Type) where
  /-- The address. -/
  address : Nat

namespace Pointer

/-- The pointer to nothing. -/
def null {α : Type} : Pointer α := ⟨0⟩

/-- A pointer to something. -/
structure NonNull (α : Type) where
  /-- The pointer. -/
  pointer : Pointer α
  /-- It points somewhere. -/
  address_ne_zero : pointer.address ≠ 0

instance (α : Type) : Nullable (Pointer α) (NonNull α) where
  value? p := if h : p.address = 0 then none else some ⟨p, h⟩

end Pointer

/-- A pointer through which nothing is changed. -/
structure ConstPointer (α : Type) where
  /-- The address. -/
  address : Nat

namespace ConstPointer

variable {α : Type}

/-- The pointer to nothing. -/
def null : ConstPointer α := ⟨0⟩

/-- The pointer to the same place. -/
def toPointer (p : ConstPointer α) : Pointer α := ⟨p.address⟩

instance : Nullable (ConstPointer α) (Pointer.NonNull α) where
  value? p := Nullable.value? p.toPointer

end ConstPointer

namespace Present

variable {α : Type}

/-! ## Building -/

/-- The wrapper of an optional value. -/
def ofOption : Option α → Present α
  | some v => .holding v
  | none => .uninitialized

/-- Takes the first element of a sequence and leaves the others; that there is none is
reported. -/
def takeFirst (typeName : String) : List α → Logged (Present α × List α)
  | v :: vs => pure (.holding v, vs)
  | [] => .report (.emptySequence typeName) (.uninitialized, [])

/-- The wrapper of the first element of a sequence. -/
def ofFirst (typeName : String) (vs : List α) : Logged (Present α) :=
  (·.1) <$> takeFirst typeName vs

/-- The wrapper of the value of a source, unless it is absent. -/
def ofNullable {source : Type} [Nullable source α] (typeName : String) (s : source) :
    Except NullValueError (Present α) :=
  match Nullable.value? s with
  | some v => .ok (.holding v)
  | none => .error ⟨typeName⟩

/-! ## Looking inside -/

/-- The value, if there is one. -/
def toOption : Present α → Option α
  | .holding v => some v
  | .uninitialized => none

/-- The values inside, which are one or none. -/
def toList (p : Present α) : List α := p.toOption.toList

/-- Whether there is a value. -/
def isSome : Present α → Bool
  | .holding _ => true
  | .uninitialized => false

/-- Whether there is no value. -/
def isNone (p : Present α) : Bool := !p.isSome

/-- The value. That there is none is an error, and is reported. -/
def value (typeName : String) : Present α → Logged (Except UninitializedAccessError α)
  | .holding v => pure (.ok v)
  | .uninitialized => .report (.uninitializedRead typeName) (.error ⟨typeName⟩)

/-! ## Comparing -/

/-- The uninitialized wrapper comes before every other. -/
def natural (o : Comparator α) : Comparator (Present α)
  | .uninitialized, .uninitialized => some .eq
  | .uninitialized, .holding _ => some .lt
  | .holding _, .uninitialized => some .gt
  | .holding v, .holding w => o v w

/-- Equality, given that of the values. -/
def equal (eq : α → α → Bool) : Present α → Present α → Bool
  | .uninitialized, .uninitialized => true
  | .holding v, .holding w => eq v w
  | _, _ => false

/-! ## Lemmas -/

theorem ext {p q : Present α} (h : p.toOption = q.toOption) : p = q := by
  cases p <;> cases q <;> simp_all [toOption]

@[simp] theorem ofOption_toOption (p : Present α) : ofOption p.toOption = p := by
  cases p <;> rfl

@[simp] theorem toOption_ofOption (o : Option α) : (ofOption o).toOption = o := by
  cases o <;> rfl

end Present

end Refinement
