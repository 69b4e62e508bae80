import Refinement.Condition
import Refinement.Vocabulary.Marker

/-!
# The meaning of predicates

What a predicate asks of values of a given type. A `Facet` is what a type shows to predicates: its
scalar kind, or how its items are counted, and in any case the data of its values, which a client's
predicates look at. A marker of the library that does not fit the type accepts nothing.

The constants that predicates name are scalars, a client's as well. Comparisons with values of other
types have no names here; as values and comparators they are the probes of an `Audit`.

* `Predicate.condition`: the condition that a predicate stands for.
* `Predicate.accepts`: whether a value meets it.
* `Predicate.accepts_expand`: spelling out the classes of characters changes nothing.
-/

namespace Refinement

/-- What a type shows to predicates. -/
inductive Facet : Type → Type 1 where
  /-- A scalar type. -/
  | scalar (s : Scalar) : Facet s.Val
  /-- A type whose values have items. -/
  | counted {α : Type} (count : α → Nat) (datum : α → Datum) : Facet α
  /-- A type of which only a client's predicates see something. -/
  | plain {α : Type} (datum : α → Datum) : Facet α

namespace Facet

variable {α : Type}

/-- How the items of a value are counted. -/
def items? : Facet α → Option (α → Nat)
  | .scalar s => s.items?
  | .counted count _ => some count
  | .plain _ => none

/-- The data of a value. -/
def datum : Facet α → α → Datum
  | .scalar s => .scalar s
  | .counted _ datum => datum
  | .plain datum => datum

end Facet

namespace Marker

variable {α : Type}

/-- A comparison of scalars with a constant. -/
def comparison (s : Scalar) (r : Relation) (o : NamedOrder) (c : Constant) : Condition s.Val :=
  match c.value? s with
  | some bound => .atom (.compare r (o.comparator s) bound)
  | none => Condition.never

/-- A range of scalars. -/
def range (s : Scalar) (o : NamedOrder) (lo hi : Constant) : Condition s.Val :=
  match lo.value? s, hi.value? s with
  | some lo, some hi => .atom (.inRange (o.comparator s) lo hi)
  | _, _ => Condition.never

/-- A bound on the number of items. -/
def countBound (F : Facet α) (bound : (α → Nat) → Nat → Atom α) (c : Constant) : Condition α :=
  match F.items?, c.count? with
  | some count, some n => .atom (bound count n)
  | _, _ => Condition.never

/-- The condition of a marker that is not a class of characters. Comparisons are those with named
constants, and so of scalars. -/
def ownCondition : Facet α → Marker → Condition α
  | .scalar (.key .char), .charEq c => comparison (.key .char) .equal .natural c
  | .scalar (.key .char), .charRange lo hi => range (.key .char) .natural lo hi
  | .scalar s, .compare r o c => comparison s r o c
  | .scalar s, .inRange o lo hi => range s o lo hi
  | F, .maxCount c => countBound F .maxCount c
  | F, .minCount c => countBound F .minCount c
  | F, .user m => .atom (.test fun v => m.accepts (F.datum v))
  | _, _ => Condition.never

/-- The condition of a marker. -/
def condition (F : Facet α) (m : Marker) : Condition α := m.expansion.bind (ownCondition F)

end Marker

namespace Predicate

variable {α : Type}

/-- The condition that a predicate stands for at a type with the facet `F`. -/
def condition (F : Facet α) (p : Predicate) : Condition α := p.bind (Marker.condition F)

/-- Whether a value meets a predicate. -/
def accepts (F : Facet α) (p : Predicate) (v : α) : Bool := (condition F p).holds v

theorem accepts_eq_holds (F : Facet α) (p : Predicate) (v : α) :
    accepts F p v = p.holds fun m => (m.condition F).holds v := by
  simp only [accepts, condition, Condition.holds, Formula.holds_bind]

@[simp] theorem accepts_allOf_nil (F : Facet α) (v : α) : accepts F (.allOf []) v = true := by
  simp only [accepts_eq_holds, Formula.holds, Formula.holdsAll]

@[simp] theorem accepts_and (F : Facet α) (p q : Predicate) (v : α) :
    accepts F (.and p q) v = (accepts F p v && accepts F q v) := by
  simp only [accepts_eq_holds, Formula.holds]

@[simp] theorem accepts_or (F : Facet α) (p q : Predicate) (v : α) :
    accepts F (.or p q) v = (accepts F p v || accepts F q v) := by
  simp only [accepts_eq_holds, Formula.holds]

@[simp] theorem accepts_not (F : Facet α) (p : Predicate) (v : α) :
    accepts F (.not p) v = !accepts F p v := by
  simp only [accepts_eq_holds, Formula.holds]

end Predicate

namespace Marker

variable {α : Type}

theorem holds_expansion (F : Facet α) (v : α) (m : Marker) :
    (m.expansion.holds fun n => (n.condition F).holds v) = (m.condition F).holds v := by
  cases m with
  | charClass c =>
    cases c <;>
      simp only [expansion, CharClass.expansion, CharClass.span, CharClass.single, condition,
        Condition.holds, Formula.holds_bind, Formula.holds, Formula.holdsAny]
  | _ => rfl

end Marker

/-- Spelling out the classes of characters changes nothing. -/
theorem Predicate.accepts_expand {α : Type} (F : Facet α) (p : Predicate) (v : α) :
    accepts F (expand p) v = accepts F p v := by
  simp only [accepts_eq_holds, expand, Formula.holds_bind, Marker.holds_expansion]

end Refinement
