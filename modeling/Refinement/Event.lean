import Refinement.Log

/-!
# Events

What the library reports about failures besides the results themselves. An operation that may
report something yields a `Logged` value: the result together with the events, in their order.

* `Event`: a value was rejected, a wrapper was built from an empty sequence, or an uninitialized
  wrapper was read.
* `Logged`: a result with the events that were reported on the way to it.
-/

namespace Refinement

/-- The weight of an event. -/
inductive Level where
  | trace
  | warning
  | error
deriving DecidableEq, Repr

namespace Level

/-- The level as it is written. -/
def text : Level → String
  | .trace => "TRACE"
  | .warning => "WARN"
  | .error => "ERROR"

end Level

/-- Something that is reported. -/
inductive Event where
  /-- A value did not meet its predicate. -/
  | rejected (predicate description : String)
  /-- A wrapper for a type was built from a sequence without elements. -/
  | emptySequence (typeName : String)
  /-- A value of a type was asked of a wrapper that holds none. -/
  | uninitializedRead (typeName : String)
deriving DecidableEq, Repr

namespace Event

/-- The weight of an event. -/
def level : Event → Level
  | .rejected .. => .trace
  | .emptySequence _ => .warning
  | .uninitializedRead _ => .error

/-- The text that goes with an event. -/
def message : Event → String
  | .rejected .. => "refinement rejected value"
  | .emptySequence _ => "built an uninitialized Present from an empty sequence"
  | .uninitializedRead _ => "read from an uninitialized Present"

/-- The names that an event carries, each under its label. -/
def fields : Event → List (String × String)
  | .rejected predicate description => [("predicate", predicate), ("description", description)]
  | .emptySequence typeName => [("type_name", typeName)]
  | .uninitializedRead typeName => [("type_name", typeName)]

end Event

/-- A result together with the events that were reported on the way to it. -/
abbrev Logged (α : Type) := Log Event α

end Refinement
