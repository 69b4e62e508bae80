import Refinement.Json.Reader
import Refinement.Ty.Comparison
import Refinement.Ty.Text

/-!
# Stores

A store keeps values of any types in numbered slots, and violations in the place of values that
were turned away. Operations bring values in, refine and wrap them, take them out again, change them
and look at them; a value may pass through any number of types on the way. An operation that does
not find what it needs says so and changes nothing.

* `Use.act`: what an operation makes of the slot that it is about.
* `Store.step`: what an operation does, and what it answers.
* `Store.run`: the operations of a list, one after another.
-/

namespace Refinement

/-- What a slot holds. -/
inductive Cell where
  /-- A value. -/
  | live (t : Ty) (v : t.Val)
  /-- A violation. -/
  | violation (t : Ty) (x : Violation t.Val)
  /-- Nothing; the value was moved out. -/
  | gone

/-- A function on the values of every type. -/
abbrev Mapping : Type := (t : Ty) → t.Val → t.Val

/-- What can be done with a slot. -/
inductive Use where
  /-- Refines the value in its place. -/
  | refine (way : Entrance) (p : Predicate)
  /-- Applies a function to a refined value and refines the outcome in its place. -/
  | tryMap (f : Mapping)
  /-- Takes the value out of a refined value. -/
  | release
  /-- Takes the value back out of a violation. -/
  | reclaim
  /-- Applies a function to a value as it is. -/
  | change (f : Mapping)
  /-- Drops what is in the slot. -/
  | drop
  /-- Wraps the value. -/
  | wrap
  /-- Wraps an optional value, if it is there. -/
  | fromNullable
  /-- Takes the first value of a sequence into a wrapper in a new slot, and leaves the rest. -/
  | takeFirst
  /-- Puts a wrapper of the first value of a sequence in its place. -/
  | collect
  /-- Asks for the value of a wrapper, and takes it out if `consume` says so. -/
  | value (consume : Bool)
  /-- Asks for the optional value of a wrapper, and takes it out if `consume` says so. -/
  | option (consume : Bool)
  /-- Asks for the values inside a wrapper one by one, and takes them out if `consume` says so. -/
  | items (consume : Bool)
  /-- Whether a wrapper holds a value. -/
  | isSome
  /-- Whether a wrapper holds no value. -/
  | isNone
  /-- Copies what is in the slot into a new one. -/
  | copy
  /-- Looks at the value; of a refined one, at the value inside. -/
  | look
  /-- Writes the value as JSON. -/
  | write
  /-- Formats the value or the violation. -/
  | format (spec : Spec)
  /-- Compares the value with another one of its type. -/
  | compare (other : Mapping)
  /-- Compares the violation with another one of its type. -/
  | compareViolation (other : (t : Ty) → Violation t.Val → Violation t.Val)

/-- What can be done with a store. -/
inductive Operation where
  /-- Brings a value into a new slot. -/
  | bring (t : Ty) (v : t.Val)
  /-- Reads a value from a JSON text into a new slot. -/
  | read (t : Ty) (text : String)
  /-- Wraps a pointer, if it points somewhere. The wrapper is dropped. -/
  | fromPointer (typeName : String) (p : Pointer Unit)
  /-- Does something with a slot. -/
  | use (a : Nat) (u : Use)

/-- What an operation answers. -/
inductive Reply where
  /-- It was done. -/
  | done
  /-- The value did not pass. -/
  | rejected (t : Ty) (x : Violation t.Val)
  /-- The text could not be read. -/
  | unreadable (e : Json.Fault)
  /-- What was taken from a sequence, if there was something. -/
  | taken (t : Ty) (first : Option t.Val)
  /-- The wrapper holds none. -/
  | uninitialized (t : Ty) (e : UninitializedAccessError)
  /-- The value is absent. -/
  | absent (e : NullValueError)
  /-- A value. -/
  | value (t : Ty) (v : t.Val)
  /-- An optional value. -/
  | option (t : Ty) (v : Option t.Val)
  /-- Several values. -/
  | items (t : Ty) (vs : List t.Val)
  /-- A text, if there is one. -/
  | text (s : Option String)
  /-- A comparison. -/
  | comparison (c : Comparison)
  /-- A verdict. -/
  | verdict (b : Bool)
  /-- What is needed is not there. -/
  | missing

/-- What comes of a slot. -/
structure Outcome where
  /-- The answer. -/
  reply : Reply
  /-- What the slot holds from now on, if that changes. -/
  left : Option Cell
  /-- What comes into a new slot. -/
  added : Option Cell

namespace Outcome

/-- An answer, and no change. -/
def telling (r : Reply) : Outcome := ⟨r, none, none⟩

/-- An answer, and a change of the slot. -/
def leaving (r : Reply) (c : Cell) : Outcome := ⟨r, some c, none⟩

/-- An answer, and a change of the slot if `consume` says so. -/
def consuming (consume : Bool) (r : Reply) (c : Cell) : Outcome :=
  if consume then leaving r c else telling r

/-- The outcome of a refinement, which stays in the slot. -/
def ofRefinement {t : Ty} {p : Predicate} :
    Except (Violation t.Val) (Refined (t.requirement p)) → Outcome
  | .ok x => leaving .done (.live (.refined t p) x)
  | .error x => leaving (.rejected t x) (.violation t x)

end Outcome

/-- What an operation makes of a slot. -/
def Use.act : Use → Cell → Logged Outcome
  | .refine way p, .live t v => Outcome.ofRefinement <$> way.refine (t.requirement p) v
  | .tryMap f, .live (.refined t p) x =>
    Outcome.ofRefinement <$> Refined.tryMap (r := t.requirement p) x (f t)
  | .release, .live (.refined t _) x => return .leaving .done (.live t x.value)
  | .reclaim, .violation t x => return .leaving .done (.live t x.value)
  | .change f, .live t v => return .leaving .done (.live t (f t v))
  | .drop, _ => return .leaving .done .gone
  | .wrap, .live t v => return .leaving .done (.live (.present t) (Present.holding v))
  | .fromNullable, .live (.option t) v =>
    match Present.ofNullable t.name (show Option t.Val from v) with
    | .ok x => return .leaving .done (.live (.present t) x)
    | .error e => return .leaving (.absent e) .gone
  | .takeFirst, .live (.list kind t) vs => do
    let (x, rest) ← Present.takeFirst t.name vs
    return ⟨.taken t x.toOption, some (.live (.list kind t) rest), some (.live (.present t) x)⟩
  | .collect, .live (.list _ t) vs => do
    let x ← Present.ofFirst t.name vs
    return .leaving (.taken t x.toOption) (.live (.present t) x)
  | .value consume, .live (.present t) x => do
    match ← Present.value t.name x with
    | .ok v => return .consuming consume (.value t v) (.live t v)
    | .error e => return .consuming consume (.uninitialized t e) .gone
  | .option consume, .live (.present t) x =>
    return .consuming consume (.option t (Present.toOption x)) (.live (.option t) (Present.toOption x))
  | .items consume, .live (.present t) x =>
    return .consuming consume (.items t (Present.toList x)) (.live (.list .vector t) (Present.toList x))
  | .isSome, .live (.present _) x => return .telling (.verdict (Present.isSome x))
  | .isNone, .live (.present _) x => return .telling (.verdict (Present.isNone x))
  | .copy, .live t v => return ⟨.done, none, some (.live t v)⟩
  | .copy, .violation t x => return ⟨.done, none, some (.violation t x)⟩
  | .look, .live (.refined t _) x => return .telling (.value t x.value)
  | .look, .live t v => return .telling (.value t v)
  | .write, .live t v => return .telling (.text (t.json? v))
  | .format spec, .live t v => return .telling (.text (t.format? spec v))
  | .format spec, .violation t x => return .telling (.text (some (t.formatViolation spec x)))
  | .compare other, .live t v => return .telling (.comparison (t.compare v (other t v)))
  | .compareViolation other, .violation t x =>
    return .telling (.verdict (x.equal t.equal (other t x)))
  | _, _ => return .telling .missing

/-- The slots of a store. -/
abbrev Store := List Cell

namespace Store

/-- What is in a slot. There is nothing beyond the last. -/
def slot (s : Store) (a : Nat) : Cell := s[a]?.getD .gone

/-- Puts what comes of a slot into the store. -/
def put (s : Store) (a : Nat) (o : Outcome) : Store :=
  (match o.left with
    | some c => s.set a c
    | none => s) ++ o.added.toList

/-- What an operation does, and what it answers. -/
def step (s : Store) : Operation → Logged (Reply × Store)
  | .bring t v => return (.done, s ++ [.live t v])
  | .read t text => do
    match ← t.ofJson text with
    | .ok v => return (.done, s ++ [.live t v])
    | .error e => return (.unreadable e, s)
  | .fromPointer typeName p => match Present.ofNullable typeName p with
    | .ok _ => return (.done, s)
    | .error e => return (.absent e, s)
  | .use a u => do
    let o ← u.act (s.slot a)
    return (o.reply, s.put a o)

/-- The operations of a list, one after another: all events, the answers, and the store at the
end. -/
def run (s : Store) : List Operation → Logged (List Reply × Store)
  | [] => return ([], s)
  | x :: xs => do
    let (r, s) ← s.step x
    let (rs, s) ← run s xs
    return (r :: rs, s)

end Store

end Refinement
