import Refinement.Audit
import Refinement.Proofs.Negation.Formulas
import Refinement.Scalar.Integer

/-!
# Comparisons without negations

The negation of a comparison is a comparison the other way around, and that of a bound on a number of
items a bound from the other side; only a test has none of its own. Values that cannot be compared with
a bound meet neither a comparison nor its negation. No law of the comparators is needed for this, so it
is so at every type and in every order.

* `Formula.standsFor_outside`, `Relation.standsFor_negation`: comparisons, however they are written.
* `Condition.nnf`, `Condition.dual`: a condition, and its negation, with negations pushed inwards.
* `Audit.nnf`, `Audit.dual`: the same of audited predicates.
* `Audit.nnf_dual_standFor`: what becomes of the verdict.
-/

namespace Refinement

/-! ## Comparisons -/

namespace Formula

variable {A : Type}

/-- A value below the lower or above the upper bound, given how comparisons with the bounds are
written. -/
def outside (low high : Relation → A) : Formula A := .or (.atom (low .less)) (.atom (high .greater))

/-- What no value meets. -/
def nowhere : Formula A := .anyOf []

theorem holds_nowhere (f : A → Bool) : (nowhere : Formula A).holds f = false := by
  simp only [nowhere, holds, holdsAny]

end Formula

open Formula

/-- What stands for the negation of a comparison, given how comparisons with the bound are written. -/
def Relation.negation {A : Type} (write : Relation → A) : Relation → Formula A
  | .greater => .atom (write .lessOrEqual)
  | .less => .atom (write .greaterOrEqual)
  | .greaterOrEqual => .atom (write .less)
  | .lessOrEqual => .atom (write .greater)
  | .equal => outside write write

section Comparisons

variable {A : Type} {f : A → Bool} {a b : Option Ordering}

theorem Formula.standsFor_outside (low high : Relation → A) (hlow : ∀ r, f (low r) = r.admits a)
    (hhigh : ∀ r, f (high r) = r.admits b) :
    StandsFor f (outside low high)
      (!(Relation.greaterOrEqual.admits a && Relation.lessOrEqual.admits b))
      (a.isSome = true ∧ b.isSome = true) := by
  constructor <;> simp only [outside, holds, hlow, hhigh]
  · rcases a with _ | _ | _ | _ <;> rcases b with _ | _ | _ | _ <;> simp [Relation.admits]
  · rintro ⟨ha, hb⟩
    obtain ⟨a, rfl⟩ := Option.isSome_iff_exists.1 ha
    obtain ⟨b, rfl⟩ := Option.isSome_iff_exists.1 hb
    cases a <;> cases b <;> rfl

theorem Relation.admits_equal (a : Option Ordering) :
    Relation.equal.admits a =
      (Relation.greaterOrEqual.admits a && Relation.lessOrEqual.admits a) := by
  rcases a with _ | _ | _ | _ <;> rfl

theorem Relation.standsFor_negation (r : Relation) (write : Relation → A)
    (h : ∀ r, f (write r) = r.admits a) :
    StandsFor f (r.negation write) (!r.admits a) (a.isSome = true) := by
  cases r with
  | equal =>
    rw [admits_equal]
    exact (standsFor_outside write write h h).under fun ha => ⟨ha, ha⟩
  | _ =>
    constructor <;> simp only [negation, holds, h] <;> rcases a with _ | _ | _ | _ <;>
      simp [Relation.admits]

end Comparisons

/-! ## Conditions -/

namespace Atom

variable {α : Type}

/-- What stands for the negation of a basic condition. A number of items is a machine number: there is
no bound from below above the largest of them, and none from above below zero. -/
def negation : Atom α → Condition α
  | .compare r o bound => r.negation (.compare · o bound)
  | .inRange o lo hi => outside (.compare · o lo) (.compare · o hi)
  | .maxCount count n =>
    if n < IntKind.max .usize then .atom (.minCount count (n + 1)) else nowhere
  | .minCount _ 0 => nowhere
  | .minCount count (n + 1) => .atom (.maxCount count n)
  | .test f => .not (.atom (.test f))

/-- Whether the condition is neither a comparison nor a bound. -/
def isTest : Atom α → Bool
  | .test _ => true
  | _ => false

/-- Whether a value can be compared with the bounds of a basic condition: the comparator has an answer,
and the number of items is a machine number. -/
def Comparable (v : α) : Atom α → Prop
  | .compare _ o bound => (o v bound).isSome = true
  | .inRange o lo hi => (o v lo).isSome = true ∧ (o v hi).isSome = true
  | .maxCount count _ => count v ≤ IntKind.max .usize
  | .minCount count _ => count v ≤ IntKind.max .usize
  | .test _ => True

theorem standsFor_negation (v : α) (a : Atom α) :
    StandsFor (holds v) a.negation (!a.holds v) (a.Comparable v) := by
  have hcompare (o : Comparator α) (bound : α) (r : Relation) :
      (compare r o bound).holds v = r.admits (o v bound) := rfl
  cases a with
  | compare r o bound => exact r.standsFor_negation (compare · o bound) (hcompare o bound)
  | inRange o lo hi =>
    exact standsFor_outside (compare · o lo) (compare · o hi) (hcompare o lo) (hcompare o hi)
  | maxCount count n =>
    simp only [negation]
    split
    · refine .of_eq ?_
      simp only [Formula.holds, holds, ← decide_not, decide_eq_decide]
      omega
    · constructor <;> simp only [holds_nowhere, holds]
      · exact fun h => absurd h Bool.false_ne_true
      · intro (h : count v ≤ IntKind.max .usize)
        rw [eq_comm, Bool.not_eq_false', decide_eq_true_eq]
        omega
  | minCount count n =>
    cases n with
    | zero => exact .of_eq ((holds_nowhere _).trans (by simp [holds]))
    | succ n =>
      refine .of_eq ?_
      simp only [negation, Formula.holds, holds, ← decide_not, decide_eq_decide]
      omega
  | test f =>
    refine .of_eq ?_
    simp only [negation, Formula.holds]

theorem negatesOnly_negation (a : Atom α) : a.negation.negatesOnly isTest = true := by
  cases a with
  | compare r o bound => cases r <;> rfl
  | maxCount count n =>
    simp only [negation]
    split <;> rfl
  | minCount count n => cases n <;> rfl
  | _ => rfl

end Atom

namespace Condition

variable {α : Type}

/-- The condition with negations pushed inwards. -/
def nnf (p : Condition α) : Condition α := Formula.nnf .atom Atom.negation p

/-- The negation of the condition with negations pushed inwards. -/
def dual (p : Condition α) : Condition α := Formula.dual .atom Atom.negation p

/-- Whether a value can be compared with all bounds of a condition. -/
def Comparable (p : Condition α) (v : α) : Prop := ∀ a ∈ p.atoms, a.Comparable v

theorem nnf_dual_standFor (p : Condition α) (v : α) :
    StandsFor (Atom.holds v) p.nnf (p.holds v) (p.Comparable v) ∧
      StandsFor (Atom.holds v) p.dual (!p.holds v) (p.Comparable v) :=
  Formula.nnf_dual_standFor (fun _ => .of_eq (by simp only [Formula.holds]))
    (Atom.standsFor_negation v) p

theorem nnf_dual_negatesOnly (p : Condition α) :
    p.nnf.negatesOnly Atom.isTest = true ∧ p.dual.negatesOnly Atom.isTest = true :=
  Formula.nnf_dual_negatesOnly (fun _ => by simp only [negatesOnly]) Atom.negatesOnly_negation p

end Condition

/-! ## Audited predicates -/

namespace Probe

variable {α : Type}

/-- A basic condition that leaves no trace. -/
def quiet (a : Atom α) : Probe α := .silent (.atom a)

/-- What stands for a probe. In a condition that leaves no trace, negations are pushed inwards. -/
def positive : Probe α → Audit α
  | .silent c => c.nnf.map quiet
  | p => .atom p

/-- What stands for the negation of a probe. -/
def negation : Probe α → Audit α
  | .silent c => c.dual.map quiet
  | .compare r o bound => r.negation (.compare · o bound)
  | .inRange o lo hi => outside (.compare · o lo) (.compare · o hi)

/-- Whether the probe is neither a comparison nor a bound. -/
def isTest : Probe α → Bool
  | .silent (.atom a) => a.isTest
  | _ => false

/-- Whether a value can be compared with the bounds of a probe. -/
def Comparable (v : α) : Probe α → Prop
  | .silent c => c.Comparable v
  | .compare _ o bound => (o.comparator id v bound).isSome = true
  | .inRange o lo hi =>
    (o.comparator id v lo).isSome = true ∧ (o.comparator id v hi).isSome = true

variable (v : α)

theorem standsFor_quiet {c : Condition α} {truth : Bool} {condition : Prop}
    (h : StandsFor (Atom.holds v) c truth condition) :
    StandsFor (fun q => (Probe.condition q).holds v) (c.map quiet) truth condition := by
  have hquiet (a : Atom α) : (quiet a).condition.holds v = a.holds v := by
    simp only [quiet, Probe.condition, Condition.holds, Formula.holds]
  constructor <;> simp only [holds_map, hquiet]
  · exact h.sound
  · exact h.complete

theorem standsFor_positive (p : Probe α) :
    StandsFor (fun q => (Probe.condition q).holds v) p.positive (p.condition.holds v)
      (p.Comparable v) := by
  cases p with
  | silent c => exact standsFor_quiet v (c.nnf_dual_standFor v).1
  | _ => exact .of_eq (by simp only [positive, Formula.holds])

theorem standsFor_negation (p : Probe α) :
    StandsFor (fun q => (Probe.condition q).holds v) p.negation (!p.condition.holds v)
      (p.Comparable v) := by
  have hcompare (o : Order (Comparator α)) (bound : α) (r : Relation) :
      (Probe.compare r o bound).condition.holds v = r.admits (o.comparator id v bound) := by
    simp only [condition, Condition.holds, Formula.holds, Atom.holds]
  cases p with
  | silent c => exact standsFor_quiet v (c.nnf_dual_standFor v).2
  | compare r o bound =>
    rw [hcompare]
    exact r.standsFor_negation (compare · o bound) (hcompare o bound)
  | inRange o lo hi =>
    have hrange : (Probe.inRange o lo hi).condition.holds v =
        (Relation.greaterOrEqual.admits (o.comparator id v lo) &&
          Relation.lessOrEqual.admits (o.comparator id v hi)) := by
      simp only [condition, Condition.holds, Formula.holds, Atom.holds]
    rw [hrange]
    exact standsFor_outside (compare · o lo) (compare · o hi) (hcompare o lo) (hcompare o hi)

theorem negatesOnly_positive (p : Probe α) : p.positive.negatesOnly isTest = true := by
  cases p with
  | silent c => exact (negatesOnly_map _ quiet c.nnf).trans c.nnf_dual_negatesOnly.1
  | _ => rfl

theorem negatesOnly_negation (p : Probe α) : p.negation.negatesOnly isTest = true := by
  cases p with
  | silent c => exact (negatesOnly_map _ quiet c.dual).trans c.nnf_dual_negatesOnly.2
  | compare r o bound => cases r <;> rfl
  | inRange o lo hi => rfl

end Probe

namespace Audit

variable {α : Type}

/-- The audited predicate with negations pushed inwards. -/
def nnf (p : Audit α) : Audit α := Formula.nnf Probe.positive Probe.negation p

/-- The negation of the audited predicate with negations pushed inwards. -/
def dual (p : Audit α) : Audit α := Formula.dual Probe.positive Probe.negation p

/-- Whether a value can be compared with all bounds of an audited predicate. -/
def Comparable (p : Audit α) (v : α) : Prop := ∀ q ∈ p.atoms, q.Comparable v

theorem nnf_dual_standFor (p : Audit α) (v : α) :
    StandsFor (fun q => (Probe.condition q).holds v) p.nnf (p.run v).verdict (p.Comparable v) ∧
      StandsFor (fun q => (Probe.condition q).holds v) p.dual (!(p.run v).verdict)
        (p.Comparable v) := by
  rw [verdict_eq_holds]
  exact Formula.nnf_dual_standFor (Probe.standsFor_positive v) (Probe.standsFor_negation v) p

theorem nnf_dual_negatesOnly (p : Audit α) :
    p.nnf.negatesOnly Probe.isTest = true ∧ p.dual.negatesOnly Probe.isTest = true :=
  Formula.nnf_dual_negatesOnly Probe.negatesOnly_positive Probe.negatesOnly_negation p

end Audit

end Refinement
