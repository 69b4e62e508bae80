import Refinement.Expression.Token

/-!
# Terms

The structure of an expression before its names are given a meaning: names with arguments, tuples,
brackets around a type, and values.

* `Term.ofText?`: the term that a text says.
* `Term.allOfText?`: the terms that follow one another in a text.
-/

namespace Refinement.Expression

/-- An expression whose names have no meaning yet. -/
inductive Term where
  /-- A name with its arguments. -/
  | name (word : String) (arguments : List Term)
  /-- A tuple. -/
  | tuple (items : List Term)
  /-- A type between square brackets. -/
  | slice (item : Term)
  /-- A type and a length between square brackets. -/
  | array (item : Term) (length : Int)
  /-- An integer. -/
  | integer (n : Int)
  /-- A character. -/
  | character (c : Char)

namespace Term

mutual

/-- Reads a term. Between two tokens there are at most three calls, so fuel of three times the
number of tokens is enough. -/
def read : Nat → List Token → Option (Term × List Token)
  | 0, _ => none
  | fuel + 1, ts =>
    match ts with
    | .integer n :: r => some (.integer n, r)
    | .character c :: r => some (.character c, r)
    | .word w :: .mark '<' :: r => do
      let (args, r) ← readUntil '>' fuel r
      return (.name w args, r)
    | .word w :: r => some (.name w [], r)
    | .mark '(' :: r => do
      let (items, r) ← readUntil ')' fuel r
      return (.tuple items, r)
    | .mark '[' :: r => do
      let (item, r) ← read fuel r
      match r with
      | .mark ']' :: r => some (.slice item, r)
      | .mark ';' :: .integer n :: .mark ']' :: r => some (.array item n, r)
      | _ => none
    | _ => none

/-- Reads terms with commas between them up to a closing mark; a comma may follow the last. -/
def readUntil (close : Char) : Nat → List Token → Option (List Term × List Token)
  | 0, _ => none
  | fuel + 1, ts =>
    match ts with
    | .mark c :: r => if c = close then some ([], r) else readItems close fuel (.mark c :: r)
    | ts => readItems close fuel ts

/-- Reads the first of several terms, and the others. -/
def readItems (close : Char) : Nat → List Token → Option (List Term × List Token)
  | 0, _ => none
  | fuel + 1, ts => do
    let (t, r) ← read fuel ts
    match r with
    | .mark c :: r =>
      if c = close then some ([t], r)
      else if c = ',' then do
        let (items, r) ← readUntil close fuel r
        return (t :: items, r)
      else none
    | _ => none

end

/-- The terms that follow one another in a list of tokens. -/
def readTerms : Nat → List Token → Option (List Term)
  | _, [] => some []
  | 0, _ :: _ => none
  | fuel + 1, ts => do
    let (t, r) ← read (3 * ts.length + 3) ts
    return t :: (← readTerms fuel r)

/-- The terms that follow one another in a text. -/
def allOfText? (text : String) : Option (List Term) := do
  let tokens ← Token.ofText? text
  readTerms tokens.length tokens

/-- The term that a text says. -/
def ofText? (text : String) : Option Term := do
  match ← allOfText? text with
  | [t] => some t
  | _ => none

end Term

end Refinement.Expression
