import Refinement.Json.Structure
import Refinement.Ty.Text

/-!
# Reading values from JSON

A value of every type is read from the text that `Ty.write` gives it, and from all others that say
the same. Reading goes from left to right, and the first fault ends it. A refined value is checked
as soon as its own text is read; of an array that stands for a value that is present, the first item
is the value, and the others are skipped.

* `Ty.read`: reads a value and leaves the rest of the text.
* `Ty.ofJson`: reads a text that holds a value and nothing else.
-/

namespace Refinement

namespace Json

/-! ## Scalars -/

/-- Reads a number that stands in front of a text, whatever blanks come first. -/
def readAnyNumber (expected : String) (cs : List Char) : Except Fault (Number × List Char) :=
  match skipBlanks cs with
  | [] => .error .truncated
  | '-' :: r => readNumber true r
  | c :: r => if c.isDigit then readNumber false (c :: r) else .error (wrongKind expected (c :: r))

/-- Reads an integer. -/
def readInteger (k : IntKind) : Scan k.Val := fun cs =>
  if k.bits = 128 then
    match skipBlanks cs with
    | [] => .error .truncated
    | r => readWide k r
  else
    match readAnyNumber k.name cs with
    | .error e => .error e
    | .ok (.float x, _) => .error (.data (.invalidType (.float x) k.name))
    | .ok (.integer n, r) => match k.ofInt? n with
      | some v => .ok (v, r)
      | none => .error (.data (.invalidValue (.integer n) k.name))

/-- Reads a floating-point number; integers are rounded to one. -/
def readFloat (f : FloatFormat) : Scan (BinaryFloat f) := fun cs =>
  match readAnyNumber f.name cs with
  | .error e => .error e
  | .ok (.float x, r) => .ok (x.convert f, r)
  | .ok (.integer n, r) => .ok (BinaryFloat.ofRatio (decide (n < 0)) n.natAbs 1, r)

/-- Reads a truth value. -/
def readBool : Scan Bool := fun cs =>
  match skipBlanks cs with
  | [] => .error .truncated
  | 't' :: r => (fun x => (true, x.2)) <$> literal ['r', 'u', 'e'] r
  | 'f' :: r => (fun x => (false, x.2)) <$> literal ['a', 'l', 's', 'e'] r
  | r => .error (wrongKind "a boolean" r)

/-- Reads null. -/
def readNull (expected : String) : Scan Unit := fun cs =>
  match skipBlanks cs with
  | [] => .error .truncated
  | 'n' :: r => literal ['u', 'l', 'l'] r
  | r => .error (wrongKind expected r)

/-- Reads a quoted text. -/
def readString (expected : String) : Scan (List Char) := fun cs =>
  match skipBlanks cs with
  | [] => .error .truncated
  | '"' :: r => readText r
  | r => .error (wrongKind expected r)

/-- Reads a character, which is a text of one. -/
def readChar : Scan Char := fun cs => do
  let (s, r) ← readString "a character" cs
  match s with
  | [c] => .ok (c, r)
  | s => .error (.data (.invalidValue (.text s) "a character"))

/-- Reads a key where a value is expected. -/
def readKey : (k : Key) → Scan k.Val
  | .int k => readInteger k
  | .bool => readBool
  | .char => readChar
  | .text => fun cs => (fun x => (String.ofList x.1, x.2)) <$> readString "a string" cs

/-- Reads a scalar. -/
def readScalar : (s : Scalar) → Scan s.Val
  | .key k => readKey k
  | .float f => readFloat f
  | .count => readInteger .usize

/-- Reads the name of a member as a number between quotation marks. Nothing but the number may
stand between them. -/
def readNumberName {α : Type} (read : Scan α) : Scan α
  | '"' :: c :: r =>
    if c.isDigit || c = '-' then do
      let (v, r) ← read (c :: r)
      match r with
      | '"' :: r => .ok (v, r)
      | _ => .error .malformed
    else .error .malformed
  | _ => .error .malformed

/-- Reads the name of a member as a truth value between quotation marks. -/
def readBoolName : Scan Bool
  | '"' :: 't' :: r => (fun x => (true, x.2)) <$> literal ['r', 'u', 'e', '"'] r
  | '"' :: 'f' :: r => (fun x => (false, x.2)) <$> literal ['a', 'l', 's', 'e', '"'] r
  | '"' :: r => do
    let (s, _) ← readText r
    .error (.data (.invalidType (.text s) "a boolean"))
  | _ => .error .malformed

/-- Reads the name of a member as a scalar. -/
def readScalarName : (s : Scalar) → Scan s.Val
  | .key (.int k) => readNumberName (readInteger k)
  | .key .bool => readBoolName
  | .key .char => readChar
  | .key .text => readKey .text
  | .float f => readNumberName (readFloat f)
  | .count => readNumberName (readInteger .usize)

/-- Reads the name of a member where something is expected that is no name. -/
def readNoName {ε α : Type} (expected : String) : Reader ε α := fun cs =>
  Reader.andThen (Reader.ofScan (readString expected) cs) fun name _ =>
    Reader.fail (.data (.invalidType (.text name) expected))

/-! ## Arrays and objects -/

section Loops

variable {ε α : Type}

/-- Reads the items of an array up to the closing bracket. -/
def readItemsWith (read : Reader ε α) : Nat → Bool → Reader ε (List α)
  | 0, _, _ => Reader.fail .truncated
  | fuel + 1, first, cs =>
    match nextItem first cs with
    | .error e => Reader.fail e
    | .ok (false, r) => pure (.ok ([], r))
    | .ok (true, r) =>
      Reader.andThen (read r) fun v r =>
        Reader.mapTo (v :: ·) (readItemsWith read fuel false r)

/-- Reads the items of an array up to the closing bracket. Each takes at least one character. -/
def readItems (read : Reader ε α) : Reader ε (List α) := fun cs =>
  readItemsWith read (cs.length + 1) true cs

/-- Reads as many items as an array has to have; `i` of them have been read. -/
def readExactly (read : Reader ε α) (expected : String) : (n : Nat) → (i : Nat) →
    Reader ε { vs : List α // vs.length = n }
  | 0, _, cs => pure (.ok (⟨[], rfl⟩, cs))
  | n + 1, i, cs =>
    match nextItem (i == 0) cs with
    | .error e => Reader.fail e
    | .ok (false, _) => Reader.fail (.data (.invalidLength i expected))
    | .ok (true, r) =>
      Reader.andThen (read r) fun v r =>
        Reader.mapTo (fun vs => ⟨v :: vs.val, by simp [vs.property]⟩)
          (readExactly read expected n (i + 1) r)

/-- Reads the members of an object up to the closing brace, each with `member`, which is given what
came of the members before. -/
def readMembersWith (member : α → Reader ε α) : Nat → Bool → α → Reader ε α
  | 0, _, _, _ => Reader.fail .truncated
  | fuel + 1, first, state, cs =>
    match nextName first cs with
    | .error e => Reader.fail e
    | .ok (false, r) => pure (.ok (state, r))
    | .ok (true, r) =>
      Reader.andThen (member state r) fun state r => readMembersWith member fuel false state r

/-- Reads the members of an object up to the closing brace. Each takes at least one character. -/
def readMembers (member : α → Reader ε α) (state : α) : Reader ε α := fun cs =>
  readMembersWith member (cs.length + 1) true state cs

/-- Reads an array: the opening bracket, what `body` reads, and the closing bracket. -/
def readArray (expected : String) (body : Reader ε α) : Reader ε α := fun cs =>
  match skipBlanks cs with
  | [] => Reader.fail .truncated
  | '[' :: r =>
    Reader.andThen (body r) fun v r => Reader.mapTo (fun _ => v) (Reader.ofScan endArray r)
  | r => Reader.fail (wrongKind expected r)

/-- Reads a tuple of so many parts, which is an array of them. The one without parts is null. -/
def readTuple (expected : String) (size : Nat) (parts : Reader ε α) : Reader ε α :=
  if size = 0 then fun cs =>
    Reader.andThen (Reader.ofScan (readNull expected) cs) fun _ r => parts r
  else readArray expected parts

/-- Reads an object: the opening brace, what `body` reads, and the closing brace. -/
def readObject (expected : String) (body : Reader ε α) : Reader ε α := fun cs =>
  match skipBlanks cs with
  | [] => Reader.fail .truncated
  | '\x7b' :: r =>
    Reader.andThen (body r) fun v r => Reader.mapTo (fun _ => v) (Reader.ofScan endObject r)
  | r => Reader.fail (wrongKind expected r)

/-- Reads the value of a member behind its name. -/
def readValue (read : Reader ε α) : Reader ε α := fun cs =>
  Reader.andThen (Reader.ofScan colon cs) fun _ r => read r

/-- Reads an entry of a map and puts it in. -/
def readEntry {κ : Type} {o : TotalOrder κ} (name : Reader ε κ) (read : Reader ε α)
    (m : SortedMap o α) : Reader ε (SortedMap o α) := fun cs =>
  Reader.andThen (name cs) fun key r => Reader.mapTo (m.insert key) (readValue read r)

/-- Reads the items of an array and puts them into a set. -/
def readSet {o : TotalOrder α} (read : Reader ε α) : Reader ε (SortedMap o Unit) := fun cs =>
  Reader.mapTo (fun ks => SortedMap.ofList (ks.map fun key => (key, ()))) (readItems read cs)

/-- Reads an optional value; null stands for none. -/
def readOption (read : Reader ε α) : Reader ε (Option α) := fun cs =>
  match skipBlanks cs with
  | 'n' :: r => Reader.mapTo (fun _ => none) (Reader.ofScan (literal ['u', 'l', 'l']) r)
  | r => Reader.mapTo some (read r)

/-- Reads a value and checks it. -/
def readChecked {β : Type} (check : α → Log ε (Except Fault β)) (read : Reader ε α) :
    Reader ε β := fun cs =>
  Reader.andThen (read cs) fun v r => Reader.leaving r (check v)

/-- Reads the items of an array that stands for a value that is present, and wraps the first of
them, if there is one; the others are skipped. -/
def readPresentItems {β : Type} (wrap : List α → Log ε β) (read : Reader ε α) :
    Reader ε β := fun cs =>
  match nextItem true cs with
  | .error e => Reader.fail e
  | .ok (false, r) => Reader.leaving r (.ok <$> wrap [])
  | .ok (true, r) =>
    Reader.andThen (read r) fun v r =>
      Reader.andThen (Reader.ofScan skipItems r) fun _ r => Reader.leaving r (.ok <$> wrap [v])

/-- Reads the part number `i` of a tuple, and then the others. -/
def readPart {β : Type} (expected : String) (i : Nat) (read : Reader ε α) (others : Reader ε β) :
    Reader ε (α × β) := fun cs =>
  match nextItem (i == 0) cs with
  | .error e => Reader.fail e
  | .ok (false, _) => Reader.fail (.data (.invalidLength i expected))
  | .ok (true, r) =>
    Reader.andThen (read r) fun v r => Reader.mapTo (fun vs => (v, vs)) (others r)

/-- Reads a field of a record, unless it has been read before. -/
def readField {β : Type} (label : String) (read : Reader ε α) (state : Option α × β) :
    Reader ε (Option α × β) := fun cs =>
  match state.1 with
  | some _ => Reader.fail (.data (.duplicateField label))
  | none => Reader.mapTo (fun v => (some v, state.2)) (readValue read cs)

/-- Reads the members of an object as fields of a record; `field` reads the value of the field with
a given name. -/
def readFields (field : List Char → α → Reader ε α) (state : α) : Reader ε α :=
  readMembers
    (fun state cs =>
      Reader.andThen (Reader.ofScan (readString "a field") cs) fun name r => field name state r)
    state

/-- What is expected where the fields of a record stand in an array. -/
def recordWords (name : String) (size : Nat) : String :=
  "struct " ++ name ++ " with " ++ toString size ++ if size = 1 then " element" else " elements"

/-- Reads a record, which is an array of its fields or an object. -/
def readRecord {β : Type} (name : String) (size : Nat) (parts : String → Reader ε α)
    (fields : Reader ε β) (complete : β → Log ε (Except Fault α)) : Reader ε α := fun cs =>
  match skipBlanks cs with
  | '[' :: r =>
    readArray (recordWords name size) (parts (recordWords name size)) ('[' :: r)
  | r =>
    readObject ("struct " ++ name)
      (fun cs => Reader.andThen (fields cs) fun state r => Reader.leaving r (complete state)) r

/-- A field that was read, or what stands for it where it is missing. -/
def fieldOr (absent : Log ε (Except Fault α)) : Option α → Log ε (Except Fault α)
  | some v => pure (.ok v)
  | none => absent

end Loops

end Json

/-! ## Values of every type -/

/-- The fields of a record as far as they have been read. -/
def Row.Partial : Row → Type
  | .nil => Unit
  | .cons _ t r => Option t.Val × r.Partial

/-- No field has been read. -/
def Row.noFields : (r : Row) → r.Partial
  | .nil => ()
  | .cons _ _ r => (none, r.noFields)

/-- What a type asks for, in words. -/
def Ty.words : Ty → String
  | .scalar (.key (.int k)) => k.name
  | .scalar (.key .bool) => "a boolean"
  | .scalar (.key .char) => "a character"
  | .scalar (.key .text) => "a string"
  | .scalar (.float f) => f.name
  | .scalar .count => IntKind.usize.name
  | .list .. => "a sequence"
  | .array _ 0 => "an empty array"
  | .array _ n => "an array of length " ++ toString n
  | .set _ => "a sequence"
  | .map .. => "a map"
  | .option _ => "option"
  | .refined t _ => t.words
  | .present _ => "a sequence holding the present value"
  | .tuple r => if r.size = 0 then "unit" else "a tuple of size " ++ toString r.size
  | .record _ name _ => "struct " ++ name

/-- Refines a value that was read. That it does not pass is a fault, in the words of the
violation. -/
def Ty.check (t : Ty) (p : Predicate) (v : t.Val) :
    Logged (Except Json.Fault (Refined (t.requirement p))) := do
  match ← (t.requirement p).refine v with
  | .ok x => return .ok x
  | .error x => return .error (.data (.violation (t.violationMessage x)))

/-- What stands for a field that is missing: an optional value is none, and a refined one is what
stands for the value that it refines, if that passes. -/
def Ty.absent (label : String) : (t : Ty) → Logged (Except Json.Fault t.Val)
  | .option _ => pure (.ok none)
  | .refined t p => (t.absent label).andThen (t.check p)
  | _ => pure (.error (.data (.missingField label)))

/-- The record of the fields that were read, if none is missing. -/
def Row.complete : (r : Row) → r.Partial → Logged (Except Json.Fault r.Val)
  | .nil, _ => pure (.ok ())
  | .cons label t r, s =>
    (Json.fieldOr (t.absent label) s.1).andThen fun v =>
      (r.complete s.2).andThen fun vs => pure (.ok (v, vs))

open Json in
/-- Reads a value that stands as the name of a member. -/
def Ty.readName : (t : Ty) → Reader Event t.Val
  | .scalar s => Reader.ofScan (readScalarName s)
  | .option t => fun cs => Reader.mapTo some (t.readName cs)
  | .refined t p => readChecked (t.check p) t.readName
  | t => readNoName t.words

open Json in
mutual

/-- Reads a value and leaves the rest of the text. -/
def Ty.read : (t : Ty) → Reader Event t.Val
  | .scalar s => Reader.ofScan (readScalar s)
  | .list k t => readArray (Ty.list k t).words (readItems t.read)
  | .array t n =>
    readArray (Ty.array t n).words (readExactly t.read (Ty.array t n).words n 0)
  | .set t => readArray (Ty.set t).words (readSet t.read)
  | .map k t =>
    readObject (Ty.map k t).words (readMembers (readEntry k.readName t.read) SortedMap.empty)
  | .option t => readOption t.read
  | .refined t p => readChecked (t.check p) t.read
  | .present t =>
    readArray (Ty.present t).words (readPresentItems (Present.ofFirst t.name) t.read)
  | .tuple r => readTuple (Ty.tuple r).words r.size (r.readParts (Ty.tuple r).words 0)
  | .record _ name r =>
    readRecord name r.size (fun expected => r.readParts expected 0)
      (readFields r.readNamed r.noFields) r.complete

/-- Reads the parts of a tuple or record one after another; `i` of them have been read. -/
def Row.readParts : (r : Row) → String → Nat → Reader Event r.Val
  | .nil, _, _ => fun cs => pure (.ok ((), cs))
  | .cons _ t r, expected, i => readPart expected i t.read (r.readParts expected (i + 1))

/-- Reads the field of a record with a given name, behind its name. A member that is no field is
skipped. -/
def Row.readNamed : (r : Row) → List Char → r.Partial → Reader Event r.Partial
  | .nil, _, s => fun cs => Reader.mapTo (fun _ => s) (readValue (Reader.ofScan skipValue) cs)
  | .cons label t r, name, s =>
    if label.toList = name then readField label t.read s
    else fun cs => Reader.mapTo (fun others => (s.1, others)) (r.readNamed name s.2 cs)

end

/-- What a reader makes of a text that has to hold a value and nothing else. -/
def Json.readWhole {ε α : Type} (read : Json.Reader ε α) (text : String) :
    Log ε (Except Json.Fault α) :=
  (read text.toList).andThen fun x => match Json.skipBlanks x.2 with
    | [] => pure (.ok x.1)
    | _ :: _ => pure (.error .malformed)

/-- Reads a text that holds a value of the type and nothing else. -/
def Ty.ofJson (t : Ty) (text : String) : Logged (Except Json.Fault t.Val) :=
  Json.readWhole t.read text

end Refinement
