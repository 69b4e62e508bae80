import Refinement.Vocabulary.Marker
import Refinement.Condition

/-!
# Audited predicates

Predicates whose comparisons leave a trace. A `Probe` is a basic predicate with values for its
constants and comparators for its orders; a tree of probes is evaluated step by step, and every
answer of a comparator and every verdict of a part is recorded.

* `Probe.ask`: the verdict of a probe with the answers that its comparators gave.
* `Audit.run`: the record of an evaluation.
* `Audit.verdict_run`: recording does not change the verdict.
-/

namespace Refinement

/-- A basic predicate whose comparisons leave a trace. -/
inductive Probe (α : Type) where
  /-- A condition that leaves no trace. -/
  | silent (c : Condition α)
  /-- The value stands in a relation to the bound. -/
  | compare (r : Relation) (o : Order (Comparator α)) (bound : α)
  /-- The value is at least `lo` and at most `hi`. -/
  | inRange (o : Order (Comparator α)) (lo hi : α)

/-- A Boolean formula of probes. -/
abbrev Audit (α : Type) := Formula (Probe α)

namespace Probe

variable {α : Type}

/-- The answers given when a value is compared with a bound, and whether the last is what the
relation asks for. -/
def askBound (v : α) (r : Relation) (o : Order (Comparator α)) (bound : α) :
    List (Option Ordering) × Bool :=
  (o.answers id v bound, r.admits (o.comparator id v bound))

/-- The verdict on a value, with the answers that the comparators gave. A range asks for the upper
bound only if the lower one holds. -/
def ask (v : α) : Probe α → List (Option Ordering) × Bool
  | .silent c => ([], c.holds v)
  | .compare r o bound => askBound v r o bound
  | .inRange o lo hi =>
    let low := askBound v .greaterOrEqual o lo
    if low.2 then
      let high := askBound v .lessOrEqual o hi
      (low.1 ++ high.1, high.2)
    else (low.1, false)

/-- The condition that a probe states. -/
def condition : Probe α → Condition α
  | .silent c => c
  | .compare r o bound => .atom (.compare r (o.comparator id) bound)
  | .inRange o lo hi => .atom (.inRange (o.comparator id) lo hi)

theorem ask_verdict (v : α) (p : Probe α) : (p.ask v).2 = p.condition.holds v := by
  cases p with
  | silent c => rfl
  | compare r o bound => simp only [ask, askBound, condition, Condition.holds, Formula.holds,
      Atom.holds]
  | inRange o lo hi =>
    simp only [ask, askBound, condition, Condition.holds, Formula.holds, Atom.holds]
    by_cases h : Relation.greaterOrEqual.admits (o.comparator id v lo) = true <;> simp [h]

/-- The comparison in words. -/
def description? : Probe α → Option String
  | .compare r _ _ => some r.description
  | _ => none

end Probe

namespace Audit

variable {α : Type}

/-- The record of the evaluation at a value. -/
def run (p : Audit α) (v : α) : Formula.Record := p.record (Probe.ask v) []

/-- The condition that an audited predicate states. -/
def condition (p : Audit α) : Condition α := p.bind Probe.condition

/-- What the root asks for, in words; only combinations and comparisons with one constant have
words here. -/
def description? : Audit α → Option String
  | .atom p => p.description?
  | p => some (p.describe fun _ => "")

/-- Recording does not change the verdict. -/
theorem verdict_run (p : Audit α) (v : α) : (run p v).verdict = p.condition.holds v := by
  simp only [run, condition, Formula.verdict_record, Condition.holds, Formula.holds_bind,
    Probe.ask_verdict]

/-- The verdict is the truth of the formula, given that of the probes. -/
theorem verdict_eq_holds (p : Audit α) (v : α) :
    (run p v).verdict = p.holds fun q => q.condition.holds v := by
  rw [verdict_run, condition, Condition.holds, Formula.holds_bind]
  rfl

end Audit

end Refinement
