import Refinement.Json.Number

/-!
# The structure of JSON

How items follow one another in arrays and members in objects, what is found where a value of
another kind was expected, and how a value is skipped whatever it is.

* `nextItem`, `endArray`: the items of an array.
* `nextName`, `colon`: the members of an object.
* `skipValue`: a value of any kind.
* `wrongKind`: the fault of a value of the wrong kind.
-/

namespace Refinement.Json

/-- Whether another item follows in an array, and the text from there on. The closing bracket is
left where it is. -/
def nextItem (first : Bool) (cs : List Char) : Except Fault (Bool × List Char) :=
  match skipBlanks cs with
  | [] => .error .truncated
  | ']' :: r => .ok (false, ']' :: r)
  | c :: r =>
    if first then .ok (true, c :: r)
    else if c = ',' then
      match skipBlanks r with
      | [] => .error .truncated
      | ']' :: _ => .error .malformed
      | r => .ok (true, r)
    else .error .malformed

/-- Reads the closing bracket of an array. -/
def endArray (cs : List Char) : Except Fault (Unit × List Char) :=
  match skipBlanks cs with
  | [] => .error .truncated
  | ']' :: r => .ok ((), r)
  | _ => .error .malformed

/-- Whether another member follows in an object, and the text from the quotation mark of its name
on. The closing brace is left where it is. -/
def nextName (first : Bool) (cs : List Char) : Except Fault (Bool × List Char) :=
  match skipBlanks cs with
  | [] => .error .truncated
  | '\x7d' :: r => .ok (false, '\x7d' :: r)
  | c :: r =>
    if first then if c = '"' then .ok (true, c :: r) else .error .malformed
    else if c = ',' then
      match skipBlanks r with
      | [] => .error .truncated
      | '"' :: r => .ok (true, '"' :: r)
      | _ => .error .malformed
    else .error .malformed

/-- Reads the closing brace of an object. -/
def endObject (cs : List Char) : Except Fault (Unit × List Char) :=
  match skipBlanks cs with
  | [] => .error .truncated
  | '\x7d' :: r => .ok ((), r)
  | _ => .error .malformed

/-- Reads the colon between the name and the value of a member. -/
def colon (cs : List Char) : Except Fault (Unit × List Char) :=
  match skipBlanks cs with
  | [] => .error .truncated
  | ':' :: r => .ok ((), r)
  | _ => .error .malformed

/-! ## Skipping values -/

/-- Skips the name of a member with its colon. -/
def skipName (cs : List Char) : Except Fault (Unit × List Char) :=
  match skipBlanks cs with
  | [] => .error .truncated
  | '"' :: r => do
    let (_, r) ← skipText r
    colon r
  | _ => .error .malformed

mutual

/-- Skips a value. -/
def skipValueWith : Nat → Scan Unit
  | 0, _ => .error .truncated
  | fuel + 1, cs =>
    match skipBlanks cs with
    | [] => .error .truncated
    | 'n' :: r => literal ['u', 'l', 'l'] r
    | 't' :: r => literal ['r', 'u', 'e'] r
    | 'f' :: r => literal ['a', 'l', 's', 'e'] r
    | '-' :: r => skipNumber r
    | '"' :: r => skipText r
    | '[' :: r => match skipBlanks r with
      | [] => .error .truncated
      | ']' :: r => .ok ((), r)
      | r => skipPartWith false fuel r
    | '\x7b' :: r => match skipBlanks r with
      | [] => .error .truncated
      | '\x7d' :: r => .ok ((), r)
      | r => skipPartWith true fuel r
    | c :: r => if c.isDigit then skipNumber (c :: r) else .error .malformed

/-- Skips the rest of an array or object from one of its items or members on. -/
def skipPartWith (object : Bool) : Nat → Scan Unit
  | 0, _ => .error .truncated
  | fuel + 1, cs => do
    let (_, r) ← if object then skipName cs else .ok ((), cs)
    let (_, r) ← skipValueWith fuel r
    match skipBlanks r with
    | [] => .error .truncated
    | c :: r =>
      if c = ',' then skipPartWith object fuel r
      else if c = (if object then '\x7d' else ']') then .ok ((), r)
      else .error .malformed

end

/-- Skips a value of any kind. Every level of it takes two steps and at least one character. -/
def skipValue : Scan Unit := fun cs => skipValueWith (2 * cs.length + 2) cs

/-- Skips the items of an array that follow others, up to the closing bracket. -/
def skipItemsWith : Nat → Scan Unit
  | 0, _ => .error .truncated
  | fuel + 1, cs => do
    let (more, r) ← nextItem false cs
    if more then
      let (_, r) ← skipValue r
      skipItemsWith fuel r
    else .ok ((), r)

/-- Skips the items of an array that follow others. Each takes at least one character. -/
def skipItems : Scan Unit := fun cs => skipItemsWith (cs.length + 1) cs

/-! ## Values of the wrong kind -/

/-- What is found at the front of a text. Scalars are read to their ends, so that a fault in them
shows; arrays and objects are not entered. -/
def found : List Char → Except Fault Unexpected
  | [] => .error .truncated
  | 'n' :: r => (fun _ => .null) <$> literal ['u', 'l', 'l'] r
  | 't' :: r => (fun _ => .bool true) <$> literal ['r', 'u', 'e'] r
  | 'f' :: r => (fun _ => .bool false) <$> literal ['a', 'l', 's', 'e'] r
  | '-' :: r => (fun x => x.1.unexpected) <$> readNumber true r
  | '"' :: r => (fun x => .text x.1) <$> readText r
  | '[' :: _ => .ok .sequence
  | '\x7b' :: _ => .ok .map
  | c :: r =>
    if c.isDigit then (fun x => x.1.unexpected) <$> readNumber false (c :: r)
    else .error .malformed

/-- The fault of a value of the wrong kind. -/
def wrongKind (expected : String) (cs : List Char) : Fault :=
  match found cs with
  | .ok u => .data (.invalidType u expected)
  | .error e => e

end Refinement.Json
