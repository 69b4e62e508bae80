import Refinement.Scalar.Text
import Refinement.Ty.Basic

/-!
# The text of values

The diagnostic form of every value, and the display form of those that have one. Width, sign and
precision of a specification reach every scalar inside. For display, wrappers show what they hold.

* `Ty.outline`, `Ty.debug`: the diagnostic form.
* `Ty.display?`: the display form.
* `Ty.debugViolation`, `Ty.violationMessage`: the forms of a violation.
-/

namespace Refinement

mutual

/-- The diagnostic form of a value, before it is laid out. -/
def Ty.outline (spec : Spec) : (t : Ty) → t.Val → Outline
  | .scalar s, v => s.outline spec v
  | .list _ t, vs => .group .list (List.map (t.outline spec) vs)
  | .array t _, vs => .group .list (vs.val.map (t.outline spec))
  | .set t, m => .group .braces ((SortedMap.keys m).map (t.outline spec))
  | .map k t, m => .group .braces
    ((SortedMap.entries m).map fun e => .labelled (k.outline spec e.1) (t.outline spec e.2))
  | .option t, v => match (v : Option _) with
    | none => .leaf "None"
    | some v => .group (.call "Some") [t.outline spec v]
  | .refined t p, v => .group (.record "Refined")
    [.field "value" (t.outline spec v.value),
      .field "predicate" (.leaf (Text.quoteString (Predicate.name p)))]
  | .present t, v => match (v : Present _) with
    | .uninitialized => .leaf "Present(<uninitialized>)"
    | .holding v => .group (.call "Present") [t.outline spec v]
  | .tuple r, v => .group (.tuple (r.size == 1)) (r.outlines spec false v)
  | .record _ name r, v => .group (.record name) (r.outlines spec true v)

/-- The diagnostic forms of the parts, behind their names if they have any. -/
def Row.outlines (spec : Spec) (named : Bool) : (r : Row) → r.Val → List Outline
  | .nil, _ => []
  | .cons label t r, v =>
    let item := t.outline spec v.1
    (if named then .field label item else item) :: r.outlines spec named v.2

end

namespace Ty

/-- The diagnostic form of a value. -/
def debugWith (spec : Spec) (t : Ty) (v : t.Val) : String :=
  (t.outline spec v).render spec.alternate

/-- The plain diagnostic form of a value. -/
def debug (t : Ty) (v : t.Val) : String := t.debugWith .diagnostic v

/-- The display form. Wrappers show what they hold; collections have none. -/
def display? : (t : Ty) → Option (Spec → t.Val → String)
  | .scalar s => s.display?.map fun f spec v => String.ofList (f spec v)
  | .refined t _ => (display? t).map fun f spec v => f spec v.value
  | .present t => (display? t).map fun f spec v => match (v : Present _) with
    | .uninitialized => "<uninitialized>"
    | .holding v => f spec v
  | _ => none

/-- The plain display form of a value, if its type has one. -/
def displayText? (t : Ty) (v : t.Val) : Option String := t.display?.map fun f => f {} v

/-- A value as a specification asks for it, if its type has the form asked for. -/
def format? (spec : Spec) (t : Ty) (v : t.Val) : Option String :=
  if spec.isDiagnostic then some (t.debugWith spec v) else t.display?.map fun f => f spec v

/-- A violation as a message. -/
def violationMessage (t : Ty) (x : Violation t.Val) : String := x.message t.debug

/-- The diagnostic form of a violation. -/
def debugViolation (spec : Spec) (t : Ty) (x : Violation t.Val) : String :=
  (Outline.group (.record "PredicateViolation")
    [.field "value" (t.outline spec x.value),
      .field "predicate" (.leaf (Text.quoteString x.predicate))]).render spec.alternate

/-- A violation as a specification asks for it. No flag changes the message. -/
def formatViolation (spec : Spec) (t : Ty) (x : Violation t.Val) : String :=
  if spec.isDiagnostic then t.debugViolation spec x else t.violationMessage x

end Ty

/-! ## Errors -/

/-- The diagnostic form of an error that names a type. -/
def errorOutline (name typeName : String) : Outline :=
  .group (.record name) [.field "type_name" (.leaf (Text.quoteString typeName))]

/-- The diagnostic form. -/
def NullValueError.debug (e : NullValueError) : String := (errorOutline name e.typeName).line

/-- The diagnostic form. -/
def UninitializedAccessError.debug (e : UninitializedAccessError) : String :=
  (errorOutline name e.typeName).line

end Refinement
