import Refinement.Event
import Refinement.Json.Writer

/-!
# Faults in JSON texts

Why a text could not be read: it ends too early, it is malformed, or what it says is not a value of
the type that was asked for.

* `Cause.message`: the last kind of fault in words.
* `Scan`: a reader of characters; it leaves the rest of the text.
* `Reader`: a reader of values, which may keep a log.
-/

namespace Refinement.Json

/-- What was found where something else was expected. -/
inductive Unexpected where
  | null
  | bool (b : Bool)
  | integer (n : Int)
  | float (x : BinaryFloat .binary64)
  | text (s : List Char)
  | sequence
  | map

/-- Why a text says no value of the type. -/
inductive Cause where
  /-- Something of another kind was found. -/
  | invalidType (found : Unexpected) (expected : String)
  /-- Something of the right kind was found, but out of bounds. -/
  | invalidValue (found : Unexpected) (expected : String)
  /-- There are too few items. -/
  | invalidLength (length : Nat) (expected : String)
  /-- A field of a record is missing. -/
  | missingField (name : String)
  /-- A field of a record is given twice. -/
  | duplicateField (name : String)
  /-- A value does not meet its predicate. -/
  | violation (message : String)

/-- Why a text could not be read. -/
inductive Fault where
  /-- The text ends too early. -/
  | truncated
  /-- The text is no JSON, or its structure does not fit. -/
  | malformed
  /-- The text says no value of the type. -/
  | data (cause : Cause)

/-- What was found, in words. -/
def Unexpected.words : Unexpected → String
  | .null => "null"
  | .bool b => "boolean `" ++ (if b then "true" else "false") ++ "`"
  | .integer n => "integer `" ++ toString n ++ "`"
  | .float x => "floating point `" ++ String.ofList (writeFloat x) ++ "`"
  | .text s => "string " ++ String.ofList (Text.quote s)
  | .sequence => "sequence"
  | .map => "map"

/-- The cause in words. -/
def Cause.message : Cause → String
  | .invalidType found expected => "invalid type: " ++ found.words ++ ", expected " ++ expected
  | .invalidValue found expected => "invalid value: " ++ found.words ++ ", expected " ++ expected
  | .invalidLength n expected => "invalid length " ++ toString n ++ ", expected " ++ expected
  | .missingField name => "missing field `" ++ name ++ "`"
  | .duplicateField name => "duplicate field `" ++ name ++ "`"
  | .violation message => message

/-- A reader of characters, with what it leaves of the text. -/
abbrev Scan (α : Type) := List Char → Except Fault (α × List Char)

/-- A reader of values, with what it leaves of the text; it may keep a log. -/
abbrev Reader (ε α : Type) := List Char → Log ε (Except Fault (α × List Char))

namespace Reader

variable {ε α β : Type}

/-- A reader that fails in silence. -/
def fail (e : Fault) : Log ε (Except Fault (α × List Char)) := pure (.error e)

/-- A reader of characters as a reader of values. -/
def ofScan (s : Scan α) : Reader ε α := fun cs => pure (s cs)

/-- Goes on with what was read and with the rest of the text, unless reading failed. -/
def andThen (x : Log ε (Except Fault (α × List Char)))
    (f : α → List Char → Log ε (Except Fault (β × List Char))) :
    Log ε (Except Fault (β × List Char)) :=
  Log.andThen x fun y => f y.1 y.2

/-- An outcome that leaves the text as it is. -/
def leaving (r : List Char) (x : Log ε (Except Fault α)) : Log ε (Except Fault (α × List Char)) :=
  Log.andThen x fun v => pure (.ok (v, r))

/-- The value that was read, changed by a function. -/
def mapTo (f : α → β) (x : Log ε (Except Fault (α × List Char))) :
    Log ε (Except Fault (β × List Char)) :=
  andThen x fun v r => pure (.ok (f v, r))

end Reader

end Refinement.Json
