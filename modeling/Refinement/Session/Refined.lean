import Refinement.Json.Reader
import Refinement.Ty.Comparison
import Refinement.Ty.Edit
import Refinement.Ty.Text

/-!
# Sessions with refined values

A session keeps outcomes of refinement in numbered slots: refined values, violations, and nothing
where a value was moved out. Steps add slots, change them and look at them. A step that does not
find what it needs says so and changes nothing.

* `RefinedStep`: the steps.
* `RefinedSession.step`: what a step does, and what it answers.
* `RefinedSession.run`: the steps of a list, one after another.
-/

namespace Refinement

/-- What a slot holds. -/
inductive RefinedSlot (t : Ty) (p : Predicate) where
  /-- A refined value. -/
  | refined (x : Refined (t.requirement p))
  /-- A violation. -/
  | violation (x : Violation t.Val)
  /-- Nothing; the value was moved out. -/
  | gone

/-- A step of a session with refined values. Slots go by their numbers. -/
inductive RefinedStep (t : Ty) where
  /-- Refines a value into a new slot. -/
  | refine (way : Entrance) (v : t.Val)
  /-- Reads a refined value from a JSON text into a new slot. -/
  | read (json : String)
  /-- Copies a refined value into a new slot. -/
  | copy (a : Nat)
  /-- Applies a function to a refined value and refines the outcome in its place. -/
  | tryMap (a : Nat) (f : t.Val → t.Val)
  /-- Applies a function to the value of a violation and refines the outcome in its place. -/
  | retry (a : Nat) (f : t.Val → t.Val)
  /-- Moves the value out of a refined value. -/
  | release (a : Nat)
  /-- Looks at the value of a refined value. -/
  | look (a : Nat)
  /-- Writes a refined value as JSON. -/
  | write (a : Nat)
  /-- Formats a refined value or a violation. -/
  | format (a : Nat) (spec : Spec)
  /-- Compares two refined values. -/
  | compare (a b : Nat)
  /-- Compares a refined value with a value that had to meet nothing. -/
  | equalsOther (a : Nat) (v : t.Val)
  /-- Compares two violations. -/
  | violationsEqual (a b : Nat)

/-- What a step needs and does not find. -/
inductive Missing where
  /-- There is a violation where a refined value is needed. -/
  | isViolation
  /-- There is a refined value where a violation is needed. -/
  | isRefined
  /-- There is nothing. -/
  | isGone
deriving DecidableEq, Repr

/-- What a step answers. -/
inductive RefinedReply (t : Ty) where
  /-- The value passed. -/
  | accepted (v : t.Val)
  /-- The value did not pass. -/
  | rejected (x : Violation t.Val)
  /-- The text could not be read. -/
  | unreadable (e : Json.Fault)
  /-- A value. -/
  | value (v : t.Val)
  /-- A text, if there is one. -/
  | text (s : Option String)
  /-- A comparison; values are hashed as what they hold. -/
  | comparison (c : Comparison)
  /-- The same question asked from both sides. -/
  | bothWays (a b : Bool)
  /-- A verdict, if there is one. -/
  | verdict (b : Option Bool)
  /-- Something is missing. -/
  | missing (m : Missing)

/-- The slots of a session. -/
abbrev RefinedSession (t : Ty) (p : Predicate) := List (RefinedSlot t p)

namespace RefinedSlot

variable {t : Ty} {p : Predicate}

/-- The slot that keeps an outcome. -/
def ofOutcome : Except (Violation t.Val) (Refined (t.requirement p)) → RefinedSlot t p
  | .ok x => .refined x
  | .error x => .violation x

/-- The refined value in a slot. -/
def refined? : RefinedSlot t p → Except Missing (Refined (t.requirement p))
  | .refined x => .ok x
  | .violation _ => .error .isViolation
  | .gone => .error .isGone

/-- The violation in a slot. -/
def violation? : RefinedSlot t p → Except Missing (Violation t.Val)
  | .violation x => .ok x
  | .refined _ => .error .isRefined
  | .gone => .error .isGone

end RefinedSlot

namespace RefinedReply

variable {t : Ty} {p : Predicate}

/-- The answer that tells an outcome. -/
def ofOutcome : Except (Violation t.Val) (Refined (t.requirement p)) → RefinedReply t
  | .ok x => .accepted x.value
  | .error x => .rejected x

end RefinedReply

namespace RefinedSession

variable {t : Ty} {p : Predicate}

/-- The slot with a number. There is nothing beyond the last. -/
def slot (s : RefinedSession t p) (a : Nat) : RefinedSlot t p := s[a]?.getD .gone

/-- Goes on with what is in a slot, or answers what is missing and changes nothing. -/
def need {α : Type} (s : RefinedSession t p) (found : Except Missing α)
    (next : α → Logged (RefinedReply t × RefinedSession t p)) :
    Logged (RefinedReply t × RefinedSession t p) :=
  match found with
  | .ok x => next x
  | .error m => pure (.missing m, s)

/-- Refines a value; `store` says where the outcome is kept. -/
def keep (way : Entrance) (v : t.Val) (store : RefinedSlot t p → RefinedSession t p) :
    Logged (RefinedReply t × RefinedSession t p) := do
  let outcome ← way.refine (t.requirement p) v
  return (.ofOutcome outcome, store (.ofOutcome outcome))

/-- What a step does, and what it answers. -/
def step (s : RefinedSession t p) : RefinedStep t → Logged (RefinedReply t × RefinedSession t p)
  | .refine way v => keep way v fun x => s ++ [x]
  | .read json => do
    match ← (Ty.refined t p).ofJson json with
    | .ok x => return (.accepted (Refined.value x), s ++ [.refined x])
    | .error e => return (.unreadable e, s)
  | .copy a => s.need (s.slot a).refined? fun x =>
    return (.accepted x.value, s ++ [.refined x])
  | .tryMap a f => s.need (s.slot a).refined? fun x => do
    let outcome ← x.tryMap f
    return (.ofOutcome outcome, s.set a (.ofOutcome outcome))
  | .retry a f => s.need (s.slot a).violation? fun x =>
    keep .associated (f x.value) fun y => s.set a y
  | .release a => s.need (s.slot a).refined? fun x => return (.value x.value, s.set a .gone)
  | .look a => s.need (s.slot a).refined? fun x => return (.value x.value, s)
  | .write a => s.need (s.slot a).refined? fun x => return (.text (t.json? x.value), s)
  | .format a spec => match s.slot a with
    | .refined x => return (.text ((Ty.refined t p).format? spec x), s)
    | .violation x => return (.text (some (t.formatViolation spec x)), s)
    | .gone => return (.missing .isGone, s)
  | .compare a b => s.need (s.slot a).refined? fun x => s.need (s.slot b).refined? fun y =>
    return (.comparison ((Ty.refined t p).compare x y), s)
  | .equalsOther a v => s.need (s.slot a).refined? fun x =>
    return (.bothWays (t.equal x.value v) (t.equal v x.value), s)
  | .violationsEqual a b => match s.slot a, s.slot b with
    | .violation x, .violation y => return (.verdict (some (x.equal t.equal y)), s)
    | _, _ => return (.verdict none, s)

/-- The steps of a list, one after another: the events and the answer of each, and the slots at the
end. -/
def run (s : RefinedSession t p) :
    List (RefinedStep t) → List (Logged (RefinedReply t)) × RefinedSession t p
  | [] => ([], s)
  | x :: xs =>
    let r := s.step x
    let (rest, last) := run r.result.2 xs
    (⟨r.events, r.result.1⟩ :: rest, last)

end RefinedSession

end Refinement
