import Refinement.Json.Reader
import Refinement.Ty.Comparison
import Refinement.Ty.Text

/-!
# Sessions with values that are present

A session keeps wrappers in numbered slots, or nothing where a wrapper was moved out. Steps add
slots, change them and look at them. A step that finds nothing in a slot says so and changes
nothing.

* `PresentStep`: the steps.
* `PresentSession.step`: what a step does, and what it answers.
* `PresentSession.run`: the steps of a list, one after another.
-/

namespace Refinement

/-- A step of a session with wrappers. Slots go by their numbers. -/
inductive PresentStep (t : Ty) where
  /-- Wraps a value into a new slot. -/
  | wrap (v : t.Val)
  /-- Wraps an optional value, if it is there, into a new slot. -/
  | fromNullable (v : Option t.Val)
  /-- Wraps a pointer to an optional value, if it is there. -/
  | fromPointer (v : Option t.Val)
  /-- Wraps the first of several values into a new slot. -/
  | takeFirst (vs : List t.Val)
  /-- Reads a wrapper from a JSON text into a new slot. -/
  | read (json : String)
  /-- Copies a wrapper into a new slot. -/
  | copy (a : Nat)
  /-- Asks for the value, and moves the wrapper out if `consume` says so. -/
  | value (consume : Bool) (a : Nat)
  /-- Asks for the optional value, and moves the wrapper out if `consume` says so. -/
  | option (consume : Bool) (a : Nat)
  /-- Whether there is a value. -/
  | isSome (a : Nat)
  /-- Whether there is no value. -/
  | isNone (a : Nat)
  /-- Turns a wrapper into its optional value and back. -/
  | roundTrip (a : Nat)
  /-- Writes a wrapper as JSON. -/
  | write (a : Nat)
  /-- Formats a wrapper. -/
  | format (a : Nat) (spec : Spec)
  /-- Compares two wrappers. -/
  | compare (a b : Nat)

/-- What a step answers. -/
inductive PresentReply (t : Ty) where
  /-- The step was done. -/
  | done
  /-- The value is absent. -/
  | absent (e : NullValueError)
  /-- The pointer is absent. -/
  | absentPointer (e : NullValueError)
  /-- The wrapper holds none. -/
  | uninitialized (e : UninitializedAccessError)
  /-- Whether the wrapped pointer is the one that was given, and the value it points to. -/
  | pointer (same : Bool) (pointee : t.Val)
  /-- How many values were taken. -/
  | taken (n : Nat)
  /-- The text could not be read. -/
  | unreadable (e : Json.Fault)
  /-- An optional value. -/
  | value (v : Option t.Val)
  /-- A verdict. -/
  | verdict (b : Bool)
  /-- A text, if there is one. -/
  | text (s : Option String)
  /-- A comparison. -/
  | comparison (c : Comparison)
  /-- There is nothing in the slot. -/
  | gone

/-- The slots of a session; `none` is a slot whose wrapper was moved out. -/
abbrev PresentSession (t : Ty) := List (Option (Present t.Val))

namespace PresentSession

variable {t : Ty}

/-- What is in a slot. There is nothing beyond the last. -/
def slot? (s : PresentSession t) (a : Nat) : Option (Present t.Val) := s[a]?.join

/-- Adds a wrapper. -/
def add (s : PresentSession t) (x : Present t.Val) : PresentSession t := s ++ [some x]

/-- Goes on with the wrapper in a slot, or answers that there is none and changes nothing. -/
def need (s : PresentSession t) (a : Nat)
    (next : Present t.Val → Logged (PresentReply t × PresentSession t)) :
    Logged (PresentReply t × PresentSession t) :=
  match s.slot? a with
  | some x => next x
  | none => pure (.gone, s)

/-- Empties a slot if `consume` says so. -/
def release (s : PresentSession t) (consume : Bool) (a : Nat) : PresentSession t :=
  if consume then s.set a none else s

/-- The name of the type of pointers to values. -/
def pointerName (t : Ty) : String :=
  (TypeName.named ["core", "ptr", "non_null"] "NonNull" [t.typeName]).text

/-- Wraps a pointer to a value; the address of a value that is there is not zero. -/
def wrapPointer (v : Option t.Val) : PresentReply t :=
  let given : Pointer t.Val := if v.isSome then ⟨1⟩ else .null
  match Present.ofNullable (pointerName t) given, v with
  | .ok (.holding q), some pointee => .pointer (q.pointer.address == given.address) pointee
  | .error e, _ => .absentPointer e
  | _, _ => .gone

/-- What a step does, and what it answers. -/
def step (s : PresentSession t) : PresentStep t → Logged (PresentReply t × PresentSession t)
  | .wrap v => return (.done, s.add (.holding v))
  | .fromNullable v => match Present.ofNullable t.name v with
    | .ok x => return (.done, s.add x)
    | .error e => return (.absent e, s)
  | .fromPointer v => return (wrapPointer v, s)
  | .takeFirst vs => do
    let (x, rest) ← Present.takeFirst t.name vs
    return (.taken (vs.length - rest.length), s.add x)
  | .read json => do
    match ← (Ty.present t).ofJson json with
    | .ok x => return (.done, s.add x)
    | .error e => return (.unreadable e, s)
  | .copy a => s.need a fun x => return (.done, s.add x)
  | .value consume a => s.need a fun x => do
    match ← x.value t.name with
    | .ok v => return (.value (some v), s.release consume a)
    | .error e => return (.uninitialized e, s.release consume a)
  | .option consume a => s.need a fun x => return (.value x.toOption, s.release consume a)
  | .isSome a => s.need a fun x => return (.verdict x.isSome, s)
  | .isNone a => s.need a fun x => return (.verdict x.isNone, s)
  | .roundTrip a => s.need a fun x => match Present.ofNullable t.name x.toOption with
    | .ok y => return (.done, s.set a (some y))
    | .error e => return (.absent e, s.set a none)
  | .write a => s.need a fun x => return (.text ((Ty.present t).json? x), s)
  | .format a spec => s.need a fun x => return (.text ((Ty.present t).format? spec x), s)
  | .compare a b => s.need a fun x => s.need b fun y =>
    return (.comparison ((Ty.present t).compare x y), s)

/-- The steps of a list, one after another: the events, the answer and the slots after each. -/
def run (s : PresentSession t) :
    List (PresentStep t) → List (Logged (PresentReply t × PresentSession t))
  | [] => []
  | x :: xs =>
    let r := s.step x
    r :: run r.result.2 xs

end PresentSession

end Refinement
