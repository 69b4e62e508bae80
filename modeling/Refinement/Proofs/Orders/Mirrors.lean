import Refinement.Audit
import Refinement.Proofs.Markers.Answers

/-!
# Mirrored predicates

The mirror of a predicate reverses the comparator of every comparison and turns the comparison
around: above becomes below, and the bounds of a range change places. No law of the comparators is
needed for the two to be the same predicate; values that cannot be compared meet neither. Pairs of
reversals may be put around any comparator.

* `Relation.admits_mirror`: a relation and its mirror ask the same of an answer and its reverse.
* `Marker.accepts_mirror`, `Marker.accepts_rewrap`, `Probe.holds_mirror`, `Probe.holds_rewrap`: the
  two changes at comparisons.
* `Predicate.mirror_same_verdict`: the two changes at predicates of every nesting.
-/

namespace Refinement

/-! ## Comparisons -/

namespace Relation

/-- The relation of the exchanged values. -/
def mirror : Relation → Relation
  | .greater => .less
  | .less => .greater
  | .greaterOrEqual => .lessOrEqual
  | .lessOrEqual => .greaterOrEqual
  | .equal => .equal

theorem admits_mirror (r : Relation) (answer : Option Ordering) :
    r.mirror.admits (answer.map Ordering.swap) = r.admits answer := by
  cases r <;> rcases answer with _ | _ | _ | _ <;> rfl

/-- A range with its bounds exchanged. -/
theorem admits_range_swap (low high : Option Ordering) :
    (greaterOrEqual.admits (high.map Ordering.swap) && lessOrEqual.admits (low.map Ordering.swap)) =
      (greaterOrEqual.admits low && lessOrEqual.admits high) := by
  rw [Bool.and_comm]
  congr 1
  · exact admits_mirror .greaterOrEqual low
  · exact admits_mirror .lessOrEqual high

end Relation

namespace Order

variable {α B : Type}

/-- The order with so many pairs of reversals around it. -/
def rewrap (o : Order B) : Nat → Order B
  | 0 => o
  | k + 1 => .reversed (.reversed (o.rewrap k))

@[simp] theorem comparator_rewrap (asks : B → Comparator α) (o : Order B) (k : Nat) :
    (o.rewrap k).comparator asks = o.comparator asks := by
  induction k with
  | zero => rfl
  | succ k ih => rw [rewrap, comparator_reversed, comparator_reversed, ih, Comparator.reversed_reversed]

end Order

/-! ## Named comparisons -/

namespace Facet

variable {α : Type}

theorem answer?_rewrap (F : Facet α) (o : NamedOrder) (k : Nat) (c : Constant) (v : α) :
    F.answer? (o.rewrap k) c v = F.answer? o c v := by
  cases F with
  | scalar s => simp only [answer?, NamedOrder.comparator, Order.comparator_rewrap]
  | counted count datum => rfl
  | plain datum => rfl

end Facet

namespace Marker

/-- The marker with its comparison turned around under the reversed order. -/
def mirror : Marker → Marker
  | .compare r o c => .compare r.mirror (.reversed o) c
  | .inRange o lo hi => .inRange (.reversed o) hi lo
  | m => m

/-- The marker with so many pairs of reversals around its order. -/
def rewrap (k : Nat) : Marker → Marker
  | .compare r o c => .compare r (o.rewrap k) c
  | .inRange o lo hi => .inRange (o.rewrap k) lo hi
  | m => m

variable {α : Type} (F : Facet α) (v : α)

theorem accepts_mirror (m : Marker) : m.mirror.accepts F v = m.accepts F v := by
  cases m with
  | compare r o c =>
    rw [mirror, accepts_compare, accepts_compare, Facet.answer?_reversed, Relation.admits_mirror]
  | inRange o lo hi =>
    rw [mirror, accepts_inRange, accepts_inRange, Facet.answer?_reversed, Facet.answer?_reversed,
      Relation.admits_range_swap]
  | _ => rfl

theorem accepts_rewrap (k : Nat) (m : Marker) : (m.rewrap k).accepts F v = m.accepts F v := by
  cases m with
  | compare r o c => rw [rewrap, accepts_compare, accepts_compare, Facet.answer?_rewrap]
  | inRange o lo hi =>
    rw [rewrap, accepts_inRange, accepts_inRange, Facet.answer?_rewrap, Facet.answer?_rewrap]
  | _ => rfl

end Marker

/-! ## Comparisons at any type -/

namespace Probe

variable {α : Type}

/-- The probe with its comparison turned around under the reversed order. -/
def mirror : Probe α → Probe α
  | .compare r o bound => .compare r.mirror (.reversed o) bound
  | .inRange o lo hi => .inRange (.reversed o) hi lo
  | .silent c => .silent c

/-- The probe with so many pairs of reversals around its order. -/
def rewrap (k : Nat) : Probe α → Probe α
  | .compare r o bound => .compare r (o.rewrap k) bound
  | .inRange o lo hi => .inRange (o.rewrap k) lo hi
  | .silent c => .silent c

variable (v : α)

theorem holds_mirror (p : Probe α) : p.mirror.condition.holds v = p.condition.holds v := by
  cases p with
  | silent c => rfl
  | compare r o bound =>
    simp only [mirror, condition, Condition.holds, Formula.holds, Atom.holds]
    exact r.admits_mirror (o.comparator id v bound)
  | inRange o lo hi =>
    simp only [mirror, condition, Condition.holds, Formula.holds, Atom.holds]
    exact Relation.admits_range_swap (o.comparator id v lo) (o.comparator id v hi)

theorem holds_rewrap (k : Nat) (p : Probe α) :
    (p.rewrap k).condition.holds v = p.condition.holds v := by
  cases p with
  | silent c => rfl
  | compare r o bound => simp only [rewrap, condition, Order.comparator_rewrap]
  | inRange o lo hi => simp only [rewrap, condition, Order.comparator_rewrap]

end Probe

/-! ## Predicates -/

/-- The predicate with all comparisons turned around under reversed orders. -/
def Predicate.mirror (p : Predicate) : Predicate := p.map Marker.mirror

/-- The audited predicate with all comparisons turned around under reversed orders. -/
def Audit.mirror {α : Type} (p : Audit α) : Audit α := p.map Probe.mirror

theorem Audit.verdict_run_map {α A : Type} (f : A → Probe α) (p : Formula A) (v : α) :
    (run (p.map f) v).verdict = p.holds fun a => (f a).condition.holds v := by
  rw [verdict_eq_holds, Formula.holds_map]

theorem Predicate.accepts_map {α A : Type} (F : Facet α) (f : A → Marker) (p : Formula A) (v : α) :
    accepts F (p.map f) v = p.holds fun a => (f a).accepts F v := by
  simp only [accepts_eq_holds, Formula.holds_map]
  rfl

/-- A predicate and its mirror give the same verdict on every value, and so do predicates that differ
in pairs of reversals around some of their comparators; the number that comes with a comparison says
how many pairs there are. This is so of the predicates that have names, and of comparisons with any
values in any orders. -/
theorem Predicate.mirror_same_verdict :
    (∀ (α : Type) (F : Facet α) (v : α),
      (∀ p : Predicate, accepts F p.mirror v = accepts F p v) ∧
      ∀ p : Formula (Marker × Nat),
        accepts F (p.map fun m => m.1.rewrap m.2) v = accepts F (p.map Prod.fst) v) ∧
    ∀ (α : Type) (v : α),
      (∀ p : Audit α, (p.mirror.run v).verdict = (p.run v).verdict) ∧
      ∀ p : Formula (Probe α × Nat),
        (Audit.run (p.map fun m => m.1.rewrap m.2) v).verdict =
          (Audit.run (p.map Prod.fst) v).verdict := by
  refine ⟨fun α F v => ⟨fun p => ?_, fun p => ?_⟩, fun α v => ⟨fun p => ?_, fun p => ?_⟩⟩
  · rw [mirror, accepts_map]
    simp only [Marker.accepts_mirror]
    exact (accepts_eq_holds F p v).symm
  · rw [accepts_map, accepts_map]
    simp only [Marker.accepts_rewrap]
  · rw [Audit.mirror, Audit.verdict_run_map]
    simp only [Probe.holds_mirror]
    rw [Audit.verdict_run]
    simp only [Audit.condition, Condition.holds, Formula.holds_bind]
  · rw [Audit.verdict_run_map, Audit.verdict_run_map]
    simp only [Probe.holds_rewrap]

end Refinement
