import Refinement.Ty.Text

/-!
# Assertions

What a test asks of values, and what it complains of where it does not get it: that a value passes
a predicate, that it does not, that a wrapper holds a value.
-/

namespace Refinement.Assertion

/-- The complaint about a value that has to pass, if it does not. -/
def refines (t : Ty) (p : Predicate) (v : t.Val) : Logged (Option String) := do
  match ← (t.requirement p).refine v with
  | .ok _ => return none
  | .error x => return some ("Expected value to refine, got: " ++ t.violationMessage x)

/-- The complaint about a value that must not pass, if it does; `written` is the predicate as it
stands in the test. -/
def rejects (written : String) (t : Ty) (p : Predicate) (v : t.Val) : Logged (Option String) := do
  match ← (t.requirement p).refine v with
  | .ok x =>
    return some ("Expected rejection by " ++ written ++ ", got: " ++ (Ty.refined t p).debug x)
  | .error _ => return none

/-- The complaint about a wrapper that has to hold a value, if it holds none. -/
def holdsValue (t : Ty) (x : Present t.Val) : Logged (Option String) := do
  match ← x.value t.name with
  | .ok _ => return none
  | .error e => return some ("Expected Present value, got: " ++ e.message)

end Refinement.Assertion
