import Refinement.Proofs.Erasure.Basic
import Refinement.Json.Reader

/-!
# Surveys

A survey of a text reads a value of the erased type, checks nothing, and takes notes: where a value
at a refined position is complete, and where an empty sequence is found for a value that is to be
present. The notes stand in the order in which the positions are completed, which is the order of
the text, inner positions before the outer ones that contain them.

* `Checkpoint`: a refined position with the value that was read at it.
* `Ty.survey`, `Ty.surveyJson`: the survey of a text.
* `Ty.checkpoints`: the refined positions of an erased value.
-/

namespace Refinement

open Json

/-- A refined position: the type that is refined there, the predicate, and the erased value. -/
structure Checkpoint where
  /-- The type that is refined. -/
  base : Ty
  /-- The predicate that its values have to meet. -/
  predicate : Predicate
  /-- The value at the position, without its refinements. -/
  value : base.erased.Val

namespace Checkpoint

/-- What the predicate asks of the values of the type. -/
abbrev requirement (c : Checkpoint) : Requirement c.base.Val := c.base.requirement c.predicate

/-- The value at the position, which meets all refinements inside, meets the predicate. -/
def Passes (c : Checkpoint) : Prop :=
  ∃ v, c.base.erase v = c.value ∧ c.requirement.accepts v = true

/-- The value at the position is the erasure of `v`, which does not meet the predicate. -/
def FailsAt (c : Checkpoint) (v : c.base.Val) : Prop :=
  c.base.erase v = c.value ∧ c.requirement.accepts v = false

/-- The message of the violation that `v` is at the position. -/
def message (c : Checkpoint) (v : c.base.Val) : String :=
  c.base.violationMessage (c.requirement.violation v)

end Checkpoint

/-- What a survey takes down. -/
inductive Note where
  /-- A sequence for a value of the type was empty. -/
  | empty (t : Ty)
  /-- The value at a refined position is complete. -/
  | completed (c : Checkpoint)

namespace Note

/-- The refined position that a note is about. -/
def checkpoint? : Note → Option Checkpoint
  | .completed c => some c
  | .empty _ => none

/-- The type for whose value a sequence was empty. -/
def empty? : Note → Option Ty
  | .empty t => some t
  | .completed _ => none

/-- The refined positions that notes are about, in their order. -/
def trail (l : List Note) : List Checkpoint := l.filterMap checkpoint?

/-- The types for whose values sequences were empty, in the order of the sequences. -/
def empties (l : List Note) : List Ty := l.filterMap empty?

@[simp] theorem trail_append (l m : List Note) : trail (l ++ m) = trail l ++ trail m :=
  List.filterMap_append

@[simp] theorem trail_completed (c : Checkpoint) : trail [.completed c] = [c] := rfl

end Note

/-! ## Reading without checks -/

/-- Takes down the completion of a refined position. -/
def Ty.note (t : Ty) (p : Predicate) (u : t.erased.Val) : Log Note (Except Fault t.erased.Val) :=
  .report (.completed ⟨t, p, u⟩) (.ok u)

/-- Wraps the first of several values, and takes down that there is none. -/
def Ty.noteEmpty (t : Ty) : List t.erased.Val → Log Note (Present t.erased.Val)
  | u :: _ => pure (.holding u)
  | [] => .report (.empty t) .uninitialized

/-- Surveys a field that is missing. -/
def Ty.surveyAbsent (label : String) : (t : Ty) → Log Note (Except Fault t.erased.Val)
  | .option _ => pure (.ok none)
  | .refined t p => (t.surveyAbsent label).andThen (t.note p)
  | _ => pure (.error (.data (.missingField label)))

/-- Surveys the fields of a record that are missing. -/
def Row.surveyComplete : (r : Row) → r.erased.Partial → Log Note (Except Fault r.erased.Val)
  | .nil, _ => pure (.ok ())
  | .cons label t r, s =>
    (fieldOr (t.surveyAbsent label) s.1).andThen fun u =>
      (r.surveyComplete s.2).andThen fun us => pure (.ok (u, us))

/-- Surveys a value that stands as the name of a member. -/
def Ty.surveyName : (t : Ty) → Reader Note t.erased.Val
  | .scalar s => Reader.ofScan (readScalarName s)
  | .option t => fun cs => Reader.mapTo some (t.surveyName cs)
  | .refined t p => readChecked (t.note p) t.surveyName
  | t => readNoName t.words

mutual

/-- Surveys a value and leaves the rest of the text. -/
def Ty.survey : (t : Ty) → Reader Note t.erased.Val
  | .scalar s => Reader.ofScan (readScalar s)
  | .list k t => readArray (Ty.list k t).words (readItems t.survey)
  | .array t n =>
    readArray (Ty.array t n).words (readExactly t.survey (Ty.array t n).words n 0)
  | .set t => readArray (Ty.set t).words (readSet t.survey)
  | .map k t =>
    readObject (Ty.map k t).words (readMembers (readEntry k.surveyName t.survey) SortedMap.empty)
  | .option t => readOption t.survey
  | .refined t p => readChecked (t.note p) t.survey
  | .present t => readArray (Ty.present t).words (readPresentItems t.noteEmpty t.survey)
  | .tuple r => readTuple (Ty.tuple r).words r.size (r.surveyParts (Ty.tuple r).words 0)
  | .record _ name r =>
    readRecord name r.size (fun expected => r.surveyParts expected 0)
      (readFields r.surveyNamed r.erased.noFields) r.surveyComplete

/-- Surveys the parts of a tuple or record one after another. -/
def Row.surveyParts : (r : Row) → String → Nat → Reader Note r.erased.Val
  | .nil, _, _ => fun cs => pure (.ok ((), cs))
  | .cons _ t r, expected, i => readPart expected i t.survey (r.surveyParts expected (i + 1))

/-- Surveys the field of a record with a given name. -/
def Row.surveyNamed : (r : Row) → List Char → r.erased.Partial → Reader Note r.erased.Partial
  | .nil, _, s => fun cs => Reader.mapTo (fun _ => s) (readValue (Reader.ofScan skipValue) cs)
  | .cons label t r, name, s =>
    if label.toList = name then readField label t.survey s
    else fun cs => Reader.mapTo (fun others => (s.1, others)) (r.surveyNamed name s.2 cs)

end

/-- Surveys a text that holds a value and nothing else. -/
def Ty.surveyJson (t : Ty) (text : String) : Log Note (Except Fault t.erased.Val) :=
  readWhole t.survey text

/-- The refined positions of a text in the order in which they are completed. -/
def Ty.trail (t : Ty) (text : String) : List Checkpoint := Note.trail (t.surveyJson text).events

/-! ## Positions in a value -/

mutual

/-- The refined positions in an erased value. -/
def Ty.checkpoints : (t : Ty) → t.erased.Val → List Checkpoint
  | .scalar _, _ => []
  | .list _ t, us => List.flatMap t.checkpoints us
  | .array t _, us => us.val.flatMap t.checkpoints
  | .set t, m => (SortedMap.keys m).flatMap t.checkpoints
  | .map k t, m =>
    (SortedMap.entries m).flatMap fun e => k.checkpoints e.1 ++ t.checkpoints e.2
  | .option t, u => (Option.toList u).flatMap t.checkpoints
  | .refined t p, u => t.checkpoints u ++ [⟨t, p, u⟩]
  | .present t, u => (Present.toList u).flatMap t.checkpoints
  | .tuple r, u => r.checkpoints u
  | .record _ _ r, u => r.checkpoints u

/-- The refined positions in the parts. -/
def Row.checkpoints : (r : Row) → r.erased.Val → List Checkpoint
  | .nil, _ => []
  | .cons _ t r, u => t.checkpoints u.1 ++ r.checkpoints u.2

end

mutual

/-- Whether a type has no refined types inside. -/
def Ty.isPlain : Ty → Bool
  | .scalar _ => true
  | .list _ t => t.isPlain
  | .array t _ => t.isPlain
  | .set t => t.isPlain
  | .map k t => k.isPlain && t.isPlain
  | .option t => t.isPlain
  | .refined .. => false
  | .present t => t.isPlain
  | .tuple r => r.isPlain
  | .record _ _ r => r.isPlain

/-- Whether this is so of all parts. -/
def Row.isPlain : Row → Bool
  | .nil => true
  | .cons _ t r => t.isPlain && r.isPlain

end

mutual

/-- Whether the values of the maps inside have no refined types inside. A later entry of a map takes
the place of an earlier one; the refinements of the earlier one, which were checked, would be lost
with it. -/
def Ty.mapsPlain : Ty → Bool
  | .scalar _ => true
  | .list _ t => t.mapsPlain
  | .array t _ => t.mapsPlain
  | .set t => t.mapsPlain
  | .map k t => k.mapsPlain && t.isPlain
  | .option t => t.mapsPlain
  | .refined t _ => t.mapsPlain
  | .present t => t.mapsPlain
  | .tuple r => r.mapsPlain
  | .record _ _ r => r.mapsPlain

/-- Whether this is so of all parts. -/
def Row.mapsPlain : Row → Bool
  | .nil => true
  | .cons _ t r => t.mapsPlain && r.mapsPlain

end

end Refinement
