import Refinement.Present
import Refinement.Refined
import Refinement.SortedMap
import Refinement.Vocabulary.Meaning

/-!
# Value types

The types that values are read, written, compared and refined at: scalars, sequences, sets, maps,
optional values, refined values, values that are present, tuples and records, nested in any way.
`Ty` is the type as data, `Ty.Val` the type of its values.

* `Ty.requirement`: what a predicate asks of the values of a type.
* `Ty.order`: the order in which sets of the values stand.
* `Ty.typeName`: the name under which a type is reported.
* `Ty.isTotal`: whether any two values can be compared.
-/

namespace Refinement

/-- The kinds of sequences of any length. -/
inductive ListKind where
  | vector
  | deque
  | boxed
deriving DecidableEq, Repr

mutual

/-- A type of values. -/
inductive Ty where
  /-- A scalar type. -/
  | scalar (s : Scalar)
  /-- A sequence of any length. -/
  | list (kind : ListKind) (item : Ty)
  /-- A sequence of a fixed length. -/
  | array (item : Ty) (length : Nat)
  /-- A set. -/
  | set (item : Ty)
  /-- A map from keys to values. -/
  | map (key value : Ty)
  /-- An optional value. -/
  | option (t : Ty)
  /-- A value that meets a predicate. -/
  | refined (t : Ty) (p : Predicate)
  /-- A value that is present. -/
  | present (t : Ty)
  /-- A tuple. -/
  | tuple (items : Row)
  /-- A record with named fields. -/
  | record (place : List String) (name : String) (fields : Row)

/-- The types of the parts of a tuple or record, with the names of the parts of a record. -/
inductive Row where
  | nil
  | cons (label : String) (t : Ty) (rest : Row)

end

/-- Induction over the parts of a tuple or record, whatever their types are. -/
@[elab_as_elim, induction_eliminator]
theorem Row.induction {motive : Row → Prop} (nil : motive .nil)
    (cons : ∀ label t rest, motive rest → motive (.cons label t rest)) : ∀ r, motive r
  | .nil => nil
  | .cons label t rest => cons label t rest (Row.induction nil cons rest)

/-- The requirement that a predicate states at a type with the facet `F`. -/
def Predicate.requirement {α : Type} (F : Facet α) (p : Predicate) : Requirement α where
  accepts := Predicate.accepts F p
  name := Predicate.name p
  description := Predicate.description p

/-- The values of a type together with what it shows to predicates and the order in which sets of
them stand. -/
structure Model : Type 1 where
  /-- The values. -/
  Carrier : Type
  /-- What predicates see of them. -/
  facet : Facet Carrier
  /-- The order of sets of them. -/
  order : TotalOrder Carrier

/-- The data of the values. -/
abbrev Model.datum (m : Model) : m.Carrier → Datum := m.facet.datum

/-- The values of several parts together with their data and their order. -/
structure RowModel : Type 1 where
  /-- The values of the parts. -/
  Carrier : Type
  /-- The data of the parts. -/
  data : Carrier → List Datum
  /-- The order, the first parts that differ deciding. -/
  order : TotalOrder Carrier

/-- Several parts as one value. -/
def RowModel.model (m : RowModel) : Model :=
  ⟨m.Carrier, .plain fun v => .group (m.data v), m.order⟩

mutual

/-- The values of a type, with their facet and their order. Predicates see into scalars and count
the items of collections; the number of items of an array is part of its type. -/
def Ty.model : Ty → Model
  | .scalar s => ⟨s.Val, .scalar s, s.order⟩
  | .list _ t => ⟨List t.model.Carrier,
    .counted List.length fun vs => .group (vs.map t.model.datum), t.model.order.list⟩
  | .array t n => ⟨{ vs : List t.model.Carrier // vs.length = n },
    .counted (fun _ => n) fun vs => .group (vs.val.map t.model.datum),
    t.model.order.list.on Subtype.val Subtype.ext⟩
  | .set t => ⟨SortedMap t.model.order Unit,
    .counted SortedMap.size fun m => .group (m.keys.map t.model.datum),
    (t.model.order.pair .unit).list.on SortedMap.entries SortedMap.ext⟩
  | .map k t => ⟨SortedMap k.model.order t.model.Carrier,
    .counted SortedMap.size fun m =>
      .group (m.entries.map fun e => .group [k.model.datum e.1, t.model.datum e.2]),
    (k.model.order.pair t.model.order).list.on SortedMap.entries SortedMap.ext⟩
  | .option t => ⟨Option t.model.Carrier, .plain fun v => .ofOption (v.map t.model.datum),
    t.model.order.option⟩
  | .refined t p => ⟨Refined (Predicate.requirement t.model.facet p),
    .plain fun x => t.model.datum x.value, t.model.order.on Refined.value Refined.ext⟩
  | .present t => ⟨Present t.model.Carrier,
    .plain fun x => .ofOption (x.toOption.map t.model.datum),
    t.model.order.option.on Present.toOption Present.ext⟩
  | .tuple r => r.model.model
  | .record _ _ r => r.model.model

/-- The values of the parts, one after another. -/
def Row.model : Row → RowModel
  | .nil => ⟨Unit, fun _ => [], .unit⟩
  | .cons _ t r => ⟨t.model.Carrier × r.model.Carrier,
    fun v => t.model.datum v.1 :: r.model.data v.2, t.model.order.pair r.model.order⟩

end

/-- The values of a type. -/
abbrev Ty.Val (t : Ty) : Type := t.model.Carrier

/-- The values of the parts of a tuple or record. -/
abbrev Row.Val (r : Row) : Type := r.model.Carrier

namespace Ty

/-- What predicates see of the values. -/
abbrev facet (t : Ty) : Facet t.Val := t.model.facet

/-- The order in which sets of the values stand. -/
abbrev order (t : Ty) : TotalOrder t.Val := t.model.order

/-- What a predicate asks of the values. -/
abbrev requirement (t : Ty) (p : Predicate) : Requirement t.Val := p.requirement t.facet

/-- The integers of a kind. -/
@[match_pattern] abbrev int (k : IntKind) : Ty := .scalar (.key (.int k))

/-- The truth values. -/
@[match_pattern] abbrev bool : Ty := .scalar (.key .bool)

/-- The characters. -/
@[match_pattern] abbrev char : Ty := .scalar (.key .char)

/-- The texts. -/
@[match_pattern] abbrev text : Ty := .scalar (.key .text)

end Ty

mutual

/-- Whether any two values can be compared, because no floating-point numbers are inside. -/
def Ty.isTotal : Ty → Bool
  | .scalar s => s.isTotal
  | .list _ t => t.isTotal
  | .array t _ => t.isTotal
  | .set t => t.isTotal
  | .map k t => k.isTotal && t.isTotal
  | .option t => t.isTotal
  | .refined t _ => t.isTotal
  | .present t => t.isTotal
  | .tuple r => r.isTotal
  | .record _ _ r => r.isTotal

/-- Whether this is so of all parts. -/
def Row.isTotal : Row → Bool
  | .nil => true
  | .cons _ t r => t.isTotal && r.isTotal

end

mutual

/-- The name under which a type is reported. -/
def Ty.typeName : Ty → TypeName
  | .scalar s => s.typeName
  | .list .vector t => .named ["alloc", "vec"] "Vec" [t.typeName]
  | .list .deque t => .named ["alloc", "collections", "vec_deque"] "VecDeque" [t.typeName]
  | .list .boxed t => .named ["alloc", "boxed"] "Box" [.slice t.typeName]
  | .array t n => .array t.typeName n
  | .set t => .named ["alloc", "collections", "btree", "set"] "BTreeSet" [t.typeName]
  | .map k t => .named ["alloc", "collections", "btree", "map"] "BTreeMap" [k.typeName, t.typeName]
  | .option t => .named ["core", "option"] "Option" [t.typeName]
  | .refined t p => .named ["proven", "refined"] "Refined" [t.typeName, p.typeName]
  | .present t => .named ["proven", "present"] "Present" [t.typeName]
  | .tuple r => .tuple r.typeNames
  | .record place name _ => .named place name []

/-- The names of the types of the parts. -/
def Row.typeNames : Row → List TypeName
  | .nil => []
  | .cons _ t r => t.typeName :: r.typeNames

end

namespace Ty

/-- The name as it is written. -/
def name (t : Ty) : String := t.typeName.text

end Ty

namespace Row

/-- The number of parts. -/
def size : Row → Nat
  | .nil => 0
  | .cons _ _ r => r.size + 1

/-- The parts of a tuple, without names. -/
def ofList : List Ty → Row
  | [] => .nil
  | t :: ts => .cons "" t (ofList ts)

end Row

end Refinement
