import Refinement.Text.Digits

/-!
# The tokens of expressions

Expressions name types, predicates, orders and constants. Their text consists of words, integers,
quoted characters and punctuation; blanks separate tokens and mean nothing else.

* `Token.ofText?`: the tokens of a text, if it consists of tokens.
-/

namespace Refinement.Expression

/-- A token. -/
inductive Token where
  | word (text : String)
  | integer (n : Int)
  | character (c : Char)
  | mark (c : Char)
deriving DecidableEq, Repr

namespace Token

/-- Whether a character may stand in a word. -/
def isWordChar (c : Char) : Bool := c.isAlphanum || c == '_'

/-- The character that a letter stands for behind a backslash. -/
def escaped? : Char → Option Char
  | '0' => some (Char.ofNat 0)
  | 't' => some '\t'
  | 'n' => some '\n'
  | 'r' => some '\r'
  | '\\' => some '\\'
  | '\'' => some '\''
  | '"' => some '"'
  | _ => none

/-- Reads a quoted character behind its opening quotation mark. -/
def readCharacter : List Char → Option (Char × List Char)
  | '\\' :: 'u' :: '\x7b' :: r => do
    let n ← Text.hexValue? (r.takeWhile (· != '\x7d'))
    match r.dropWhile (· != '\x7d') with
    | '\x7d' :: '\'' :: r => some (Char.ofNat n, r)
    | _ => none
  | '\\' :: 'x' :: a :: b :: '\'' :: r => do return (Char.ofNat (← Text.hexValue? [a, b]), r)
  | '\\' :: c :: '\'' :: r => do return (← escaped? c, r)
  | c :: '\'' :: r => some (c, r)
  | _ => none

/-- Reads the token in front of a text that does not start with a blank. -/
def readOne : List Char → Option (Token × List Char)
  | [] => none
  | '\'' :: r => do
    let (c, r) ← readCharacter r
    return (.character c, r)
  | '-' :: r =>
    some (.integer (-(Text.decimalValue (r.takeWhile Char.isDigit))), r.dropWhile Char.isDigit)
  | c :: r =>
    if c.isDigit then
      some (.integer (Text.decimalValue (c :: r.takeWhile Char.isDigit)), r.dropWhile Char.isDigit)
    else if isWordChar c then
      some (.word (String.ofList (c :: r.takeWhile isWordChar)), r.dropWhile isWordChar)
    else some (.mark c, r)

/-- Reads the tokens of a text. Each takes at least one character, so the length of the text is
fuel enough. -/
def readAll : Nat → List Char → Option (List Token)
  | 0, _ => none
  | fuel + 1, cs =>
    match cs.dropWhile Char.isWhitespace with
    | [] => some []
    | cs => do
      let (t, r) ← readOne cs
      return t :: (← readAll fuel r)

/-- The tokens of a text. -/
def ofText? (text : String) : Option (List Token) :=
  readAll (text.length + 1) text.toList

end Token

end Refinement.Expression
