import Refinement.Event

/-!
# Refined values

A `Requirement` is a test together with the words for it. A `Refined r` is a value with the proof
that it passes, so it cannot exist unless the value was tested; a `Violation` gives a value that did
not pass back, with the name and the words of the requirement.

* `Requirement.refine`: tests a value, and reports one that does not pass.
* `Entrance.refine`: the same through every way in.
* `Refined.tryMap`: applies a function to a refined value and tests the outcome.
* `Requirement.refine_of_accepts`, `Requirement.refine_of_rejects`: the two outcomes.
-/

namespace Refinement

/-- A test on values, with its name and its description. -/
structure Requirement (α : Type) where
  /-- Whether a value passes. -/
  accepts : α → Bool
  /-- The name under which the requirement is reported. -/
  name : String
  /-- What a value has to be, in words. -/
  description : String

/-- A value that passes a requirement. -/
structure Refined {α : Type} (r : Requirement α) where
  /-- The value. -/
  value : α
  /-- It passes. -/
  accepted : r.accepts value = true

/-- A value that did not pass, and what it did not pass. -/
structure Violation (α : Type) where
  /-- The value that was turned away. -/
  value : α
  /-- The name of the requirement. -/
  predicate : String
  /-- The requirement in words. -/
  description : String

namespace Violation

variable {α : Type}

/-- The violation as a message, given the text of the value. -/
def message (shown : α → String) (x : Violation α) : String :=
  "value " ++ shown x.value ++ " must satisfy: " ++ x.description

/-- Violations are equal if value, name and description are. -/
def equal (eq : α → α → Bool) (x y : Violation α) : Bool :=
  eq x.value y.value && x.predicate == y.predicate && x.description == y.description

end Violation

namespace Requirement

variable {α : Type}

/-- The event of a value that does not pass. -/
def rejection (r : Requirement α) : Event := .rejected r.name r.description

/-- The violation that gives a value back. -/
def violation (r : Requirement α) (v : α) : Violation α := ⟨v, r.name, r.description⟩

/-- Tests a value. A value that does not pass is reported and given back. -/
def refine (r : Requirement α) (v : α) : Logged (Except (Violation α) (Refined r)) :=
  if h : r.accepts v = true then pure (.ok ⟨v, h⟩)
  else .report r.rejection (.error (r.violation v))

theorem refine_of_accepts {r : Requirement α} {v : α} (h : r.accepts v = true) :
    r.refine v = pure (.ok ⟨v, h⟩) := by
  simp [refine, h]

theorem refine_of_rejects {r : Requirement α} {v : α} (h : r.accepts v = false) :
    r.refine v = .report r.rejection (.error (r.violation v)) := by
  simp [refine, h]

end Requirement

/-- The ways in which a client has a value refined. -/
inductive Entrance where
  /-- The constructor of refined values. -/
  | associated
  /-- A function that names the predicate first. -/
  | function
  /-- A method of every value. -/
  | method
deriving DecidableEq, Repr

namespace Entrance

variable {α : Type}

/-- Refines a value. All ways lead to the constructor. -/
def refine (r : Requirement α) (v : α) : Entrance → Logged (Except (Violation α) (Refined r))
  | .associated => r.refine v
  | .function => r.refine v
  | .method => r.refine v

@[simp] theorem refine_eq (way : Entrance) (r : Requirement α) (v : α) :
    way.refine r v = r.refine v := by
  cases way <;> rfl

end Entrance

namespace Refined

variable {α : Type} {r : Requirement α}

theorem ext {x y : Refined r} (h : x.value = y.value) : x = y := by
  cases x; cases y; simp_all

/-- Applies a function to the value and tests the outcome. -/
def tryMap (x : Refined r) (f : α → α) : Logged (Except (Violation α) (Refined r)) :=
  r.refine (f x.value)

/-- A refined value is equal to what the same value is, whatever both had to pass. -/
def equal {s : Requirement α} (eq : α → α → Bool) (x : Refined r) (y : Refined s) : Bool :=
  eq x.value y.value

/-- A refined value passes its own test again. -/
theorem refine_value (x : Refined r) : r.refine x.value = pure (.ok x) :=
  Requirement.refine_of_accepts x.accepted

end Refined

end Refinement
