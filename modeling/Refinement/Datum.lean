import Refinement.Scalar.Basic

/-!
# Data

A `Datum` is a value without its type: scalars, and groups of data for everything that is made of
parts. It is what a client's predicates look at, so that one and the same predicate may be asked of
values of every type.
-/

namespace Refinement

/-- A value without its type. -/
inductive Datum where
  /-- A scalar. -/
  | scalar (s : Scalar) (v : s.Val)
  /-- The parts of a value, none for an absent one. -/
  | group (parts : List Datum)

namespace Datum

/-- The datum of an optional value. -/
def ofOption : Option Datum → Datum
  | none => .group []
  | some d => .group [d]

end Datum

end Refinement
