import Refinement.Expression.Scope
import Refinement.Vocabulary.Meaning

/-!
# A client's declarations

Predicates, an order, a constant and records as a client declares them: even numbers, small
numbers, texts that start with a letter, texts by their length in bytes, the text of three letters,
and two records with refined fields.

* `Client.scope`: all of them, as expressions name them.
-/

namespace Refinement.Client

open Expression

/-- Where the client declares its names. -/
def place : List String := ["oracle_driver"]

/-- Whether an integer is even. -/
def isEven {k : IntKind} (n : k.Val) : Bool := n.toInt % 2 == 0

/-- Even numbers. -/
def even : UserMarker where
  place := place
  name := "Even"
  description := some "even number"
  accepts
    | .scalar (.key (.int .i32)) n => isEven (k := .i32) n
    | _ => false

/-- Numbers of at most two digits. -/
def small : UserMarker where
  place := place
  name := "Small"
  description := none
  accepts
    | .scalar (.key (.int .i32)) n => decide ((IntKind.Val.toInt (k := .i32) n).natAbs ≤ 99)
    | _ => false

/-- Texts that start with a letter. -/
def startsWithLetter : UserMarker where
  place := place
  name := "StartsWithLetter"
  description := some "string starting with an ASCII letter"
  accepts
    | .scalar (.key .text) s => match String.toList s with
      | c :: _ => (Predicate.ofClass .letter).accepts (.scalar (.key .char)) c
      | [] => false
    | _ => false

/-- Texts by their length in bytes. -/
def byteLength : Comparator String :=
  Comparator.on String.utf8ByteSize (Comparator.ofTotal Ord.compare)

/-- The order of texts by their length in bytes. -/
def byLength : UserOrder where
  place := place
  name := "ByLength"
  comparator
    | .key .text => byteLength
    | _ => Comparator.never

/-- The text of three letters. -/
def three : UserConstant where
  place := place
  name := "Three"
  value?
    | .key .text => some "abc"
    | _ => none

/-- A grade: a letter and a score. -/
def grade : Ty :=
  .record place "Grade"
    (.cons "letter" (.refined .char (.ofClass .letter))
      (.cons "score" (.refined (.int .i32) .percentage) .nil))

/-- An account: an owner and a limit. -/
def account : Ty :=
  .record place "Account"
    (.cons "owner" (.present .text) (.cons "limit" (.present (.int .u32)) .nil))

/-- What the client declares. -/
def scope : Scope where
  constants := [three]
  orders := [byLength]
  markers := [even, small, startsWithLetter]
  types := [("Grade", grade), ("Account", account)]

end Refinement.Client
