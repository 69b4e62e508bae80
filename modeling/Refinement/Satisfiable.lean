import Refinement.Ty.Basic

/-!
# Satisfiability

Whether some value meets a predicate. The truth of a comparison changes only at the constant of the
comparison, so it is enough to look at the constants of a predicate, their neighbours, and the ends
of the type; bounds on numbers of items are looked at for the numbers next to them.

* `Predicate.samples`: the values that are looked at.
* `Ty.unsatisfiable?`: a predicate inside a type that none of them meets.
-/

namespace Refinement

namespace Constant

/-- The integers within two of the constant. -/
def nearby (k : IntKind) (c : Constant) : List Int :=
  match c.value? (.int k) with
  | some n => [-2, -1, 0, 1, 2].map fun d => IntKind.Val.toInt (k := k) n + d
  | none => []

/-- The characters within one of the constant. -/
def nearbyChars (c : Constant) : List Char :=
  match c.value? (.key .char) with
  | some c => [Char.toNat c - 1, Char.toNat c, Char.toNat c + 1].map Char.ofNat
  | none => []

end Constant

namespace Marker

/-- The constants that a marker names. -/
def constants : Marker → List Constant
  | .charEq c => [c]
  | .charRange lo hi => [lo, hi]
  | .compare _ _ c => [c]
  | .inRange _ lo hi => [lo, hi]
  | .maxCount c => [c]
  | .minCount c => [c]
  | .charClass _ => []
  | .user _ => []

end Marker

namespace Predicate

/-- The constants that a predicate names, those of classes of characters included. -/
def constants (p : Predicate) : List Constant := (expand p).atoms.flatMap Marker.constants

/-- The values that are looked at. -/
def samples (p : Predicate) : (s : Scalar) → List s.Val
  | .key (.int k) =>
    ([k.min, k.max, -1, 0, 1] ++ p.constants.flatMap (Constant.nearby k)).filterMap k.ofInt?
  | .key .bool => [false, true]
  | .key .char => Char.ofNat 0 :: Char.ofNat 0x10FFFF :: p.constants.flatMap Constant.nearbyChars
  | .key .text => "" :: p.constants.filterMap fun c => c.value? (.key .text)
  | .float _ =>
    [BinaryFloat.zero, BinaryFloat.nan, BinaryFloat.ofMagnitude false 1,
      BinaryFloat.ofMagnitude true 1]
  | .count =>
    ([0, 1] ++ p.constants.flatMap (Constant.nearby .usize)).filterMap (IntKind.ofInt? .usize)

/-- Whether one of the values that are looked at meets the predicate. -/
def hasSample (p : Predicate) (s : Scalar) : Bool :=
  (p.samples s).any (p.accepts (.scalar s))

end Predicate

namespace Ty

/-- Whether a value of the type meets a predicate, as far as can be seen. Collections and texts are
looked at as counts too. -/
def isSatisfiable : Ty → Predicate → Bool
  | .scalar (.key .text), p => p.hasSample (.key .text) || p.hasSample .count
  | .scalar s, p => p.hasSample s
  | .list .., p => p.hasSample .count
  | .set _, p => p.hasSample .count
  | .map .., p => p.hasSample .count
  | .array _ n, p => p.accepts (.scalar .count) (IntKind.wrap .usize n)
  | _, p => p.accepts (.plain fun _ => .group [] : Facet Unit) ()

/-- A predicate inside a type that no value meets, the innermost first. -/
def unsatisfiable? : Ty → Option Predicate
  | .refined t p =>
    match unsatisfiable? t with
    | some q => some q
    | none => if t.isSatisfiable p then none else some p
  | .present t => unsatisfiable? t
  | .option t => unsatisfiable? t
  | _ => none

end Ty

end Refinement
