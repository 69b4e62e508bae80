import Refinement.Vocabulary.Abbreviation
import Refinement.Vocabulary.Meaning

/-!
# How markers answer

Whether a value meets a marker depends on how it compares with the constants of the marker, or on how
many items it has. Only a client's predicates see more of it.

* `Relation.Relates`, `Relation.admits_compare`: what a relation asks of the members of a total order.
* `Facet.answer?`, `Facet.count?`: how a value compares with a constant, and how many items it has.
* `Marker.accepts`: whether a value meets a marker.
* `Marker.accepts_compare`, `Marker.accepts_inRange`, `Marker.accepts_charEq`,
  `Marker.accepts_charRange`, `Marker.accepts_maxCount`, `Marker.accepts_minCount`: the verdict of every
  kind of marker.
* `CharClass.isRun_of_mem_expansion`: a class is spelled out by single characters and ranges.
* `Predicate.accepts_atMost`, `Predicate.accepts_atLeast`: bounds on a number of items that is known.
-/

namespace Refinement

namespace Relation

variable {α : Type}

/-- What a relation asks of two members of a total order. -/
def Relates [LT α] [LE α] : Relation → α → α → Prop
  | .greater, a, b => b < a
  | .less, a, b => a < b
  | .greaterOrEqual, a, b => b ≤ a
  | .lessOrEqual, a, b => a ≤ b
  | .equal, a, b => a = b

/-- In a total order every comparison has an answer. -/
theorem admits_compare [Ord α] [LT α] [LE α] [Std.LawfulOrderOrd α] [Std.LawfulOrderLT α]
    [Std.LawfulEqOrd α] (r : Relation) (a b : α) :
    r.admits (some (compare a b)) = true ↔ r.Relates a b := by
  cases r with
  | greater =>
    rw [Relates, ← Std.compare_eq_gt]
    cases compare a b <;> simp [admits]
  | less =>
    rw [Relates, ← Std.compare_eq_lt]
    cases compare a b <;> simp [admits]
  | greaterOrEqual =>
    rw [Relates, ← Std.isGE_compare]
    cases compare a b <;> simp [admits]
  | lessOrEqual =>
    rw [Relates, ← Std.isLE_compare]
    cases compare a b <;> simp [admits]
  | equal =>
    rw [Relates, ← Std.compare_eq_iff_eq (a := a) (b := b)]
    cases compare a b <;> simp [admits]

end Relation

namespace Facet

variable {α : Type}

/-- Whether the values are characters. -/
def isChar : Facet α → Bool
  | .scalar (.key .char) => true
  | _ => false

/-- How a value compares with a constant, if there is an answer. -/
def answer? : Facet α → NamedOrder → Constant → α → Option Ordering
  | .scalar s, o, c, v => (c.value? s).bind fun bound => o.comparator s v bound
  | _, _, _, _ => none

/-- The number of items of a value, if it has items. -/
def count? (F : Facet α) (v : α) : Option Nat := F.items?.map fun count => count v

/-- A reversed order gives the reversed answer. -/
theorem answer?_reversed (F : Facet α) (o : NamedOrder) (c : Constant) (v : α) :
    F.answer? (.reversed o) c v = (F.answer? o c v).map Ordering.swap := by
  cases F with
  | scalar s =>
    simp only [answer?, NamedOrder.comparator_reversed]
    cases c.value? s with
    | none => rfl
    | some bound => rfl
  | counted count datum => rfl
  | plain datum => rfl

end Facet

namespace Marker

variable {α : Type} (F : Facet α) (v : α)

/-- Whether a value meets a marker. -/
def accepts (m : Marker) : Bool := (m.condition F).holds v

theorem accepts_compare (r : Relation) (o : NamedOrder) (c : Constant) :
    (compare r o c).accepts F v = r.admits (F.answer? o c v) := by
  show ((compare r o c).ownCondition F).holds v = _
  cases F with
  | scalar s =>
    have hown : (compare r o c).ownCondition (.scalar s) = comparison s r o c := by
      rcases s with (_ | _ | _ | _) | _ | _ <;> rfl
    rw [hown, comparison, Facet.answer?]
    cases c.value? s with
    | none => exact r.admits_none.symm
    | some bound => rfl
  | counted count datum => exact r.admits_none.symm
  | plain datum => exact r.admits_none.symm

theorem accepts_inRange (o : NamedOrder) (lo hi : Constant) :
    (inRange o lo hi).accepts F v =
      (Relation.greaterOrEqual.admits (F.answer? o lo v) &&
        Relation.lessOrEqual.admits (F.answer? o hi v)) := by
  show ((inRange o lo hi).ownCondition F).holds v = _
  cases F with
  | scalar s =>
    have hown : (inRange o lo hi).ownCondition (.scalar s) = range s o lo hi := by
      rcases s with (_ | _ | _ | _) | _ | _ <;> rfl
    rw [hown, range, Facet.answer?, Facet.answer?]
    cases lo.value? s with
    | none => rfl
    | some l =>
      cases hi.value? s with
      | none => simp [Condition.never, Condition.holds, Formula.holds, Atom.holds]
      | some h => rfl
  | counted count datum => rfl
  | plain datum => rfl

theorem accepts_charEq (c : Constant) :
    (charEq c).accepts F v = (F.isChar && Relation.equal.admits (F.answer? .natural c v)) := by
  cases F with
  | scalar s =>
    rcases s with (_ | _ | _ | _) | _ | _
    case key.char =>
      exact accepts_compare (.scalar (.key .char)) v .equal .natural c
    all_goals rfl
  | counted count datum => rfl
  | plain datum => rfl

theorem accepts_charRange (lo hi : Constant) :
    (charRange lo hi).accepts F v = (F.isChar && (inRange .natural lo hi).accepts F v) := by
  cases F with
  | scalar s =>
    rcases s with (_ | _ | _ | _) | _ | _
    all_goals rfl
  | counted count datum => rfl
  | plain datum => rfl

/-- Whether the number of items and the bound are there and stand in a relation. -/
def boundHolds (test : Nat → Nat → Bool) : Option Nat → Option Nat → Bool
  | some k, some n => test k n
  | _, _ => false

theorem holds_countBound (bound : (α → Nat) → Nat → Atom α) (test : Nat → Nat → Bool)
    (h : ∀ count n, (bound count n).holds v = test (count v) n) (c : Constant) :
    (countBound F bound c).holds v = boundHolds test (F.count? v) c.count? := by
  unfold countBound Facet.count?
  cases F.items? with
  | none => rfl
  | some count =>
    cases c.count? with
    | none => rfl
    | some n => exact h count n

theorem accepts_maxCount (c : Constant) :
    (maxCount c).accepts F v = boundHolds (fun k n => decide (k ≤ n)) (F.count? v) c.count? := by
  have hown : (maxCount c).ownCondition F = countBound F .maxCount c := by
    rcases F with ((_ | _ | _ | _) | _ | _) | _ | _ <;> rfl
  show ((maxCount c).ownCondition F).holds v = _
  rw [hown]
  exact holds_countBound F v .maxCount _ (fun _ _ => rfl) c

theorem accepts_minCount (c : Constant) :
    (minCount c).accepts F v = boundHolds (fun k n => decide (n ≤ k)) (F.count? v) c.count? := by
  have hown : (minCount c).ownCondition F = countBound F .minCount c := by
    rcases F with ((_ | _ | _ | _) | _ | _) | _ | _ <;> rfl
  show ((minCount c).ownCondition F).holds v = _
  rw [hown]
  exact holds_countBound F v .minCount _ (fun _ _ => rfl) c

/-- The marker is a single character or a range of characters. -/
def IsRun (m : Marker) : Prop := (∃ d, m = .charEq d) ∨ ∃ lo hi, m = .charRange lo hi

end Marker

/-- A class is spelled out by single characters and ranges. -/
theorem CharClass.isRun_of_mem_expansion {k : CharClass} {m : Marker} (hm : m ∈ k.expansion.atoms) :
    m.IsRun := by
  cases k <;>
    simp only [expansion, span, single, Formula.atoms, Formula.atomsOfList, List.append_nil,
      List.cons_append, List.nil_append, List.mem_cons, List.not_mem_nil, or_false] at hm <;>
    grind [Marker.IsRun]

namespace Predicate

/-- The markers of a predicate in which the classes are spelled out. -/
theorem mem_atoms_expand {p : Predicate} {n : Marker} :
    n ∈ (expand p).atoms ↔ ∃ m ∈ p.atoms, n ∈ m.expansion.atoms := by
  rw [expand, Formula.atoms_bind, List.mem_flatMap]

variable {α : Type} {F : Facet α} {v : α} {n : Nat}

/-- An upper bound accepts the values with at most so many items. -/
theorem accepts_atMost (hn : F.count? v = some n) (b : IntKind.usize.Val) :
    (atMost b).accepts F v = true ↔ n ≤ b.toInt := by
  have hb : 0 ≤ b.toInt := b.min_le
  have hverdict : (atMost b).accepts F v = decide (n ≤ b.toInt.toNat) := by
    rw [atMost, accepts_eq_holds]
    refine (Marker.accepts_maxCount F v _).trans ?_
    rw [hn, Constant.count?, Constant.value?_int]
    rfl
  rw [hverdict, decide_eq_true_iff]
  omega

/-- A lower bound accepts the values with at least so many items. -/
theorem accepts_atLeast (hn : F.count? v = some n) (b : IntKind.usize.Val) :
    (atLeast b).accepts F v = true ↔ b.toInt ≤ n := by
  have hb : 0 ≤ b.toInt := b.min_le
  have hverdict : (atLeast b).accepts F v = decide (b.toInt.toNat ≤ n) := by
    rw [atLeast, accepts_eq_holds]
    refine (Marker.accepts_minCount F v _).trans ?_
    rw [hn, Constant.count?, Constant.value?_int]
    rfl
  rw [hverdict, decide_eq_true_iff]
  omega

end Predicate

end Refinement
