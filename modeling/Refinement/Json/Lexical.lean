import Refinement.Json.Fault
import Refinement.Text.Digits

/-!
# The words of JSON

Blanks, literals and texts. Every reader takes what it reads from the front of the text and leaves
the rest; it fails as `truncated` where the text ends too early, and as `malformed` elsewhere.

* `skipBlanks`: blanks between the words.
* `literal`: a given word.
* `readText`: a text behind its opening quotation mark, with its escapes resolved.
* `skipText`: the same without resolving them, so that halves of surrogate pairs may stand alone.
-/

namespace Refinement.Json

/-- The four characters that may stand between words. -/
def isBlank (c : Char) : Bool := c == ' ' || c == '\n' || c == '\t' || c == '\r'

/-- The text without the blanks in front. -/
def skipBlanks (cs : List Char) : List Char := cs.dropWhile isBlank

/-- Whether a text starts with a decimal digit. -/
def startsWithDigit : List Char → Bool
  | c :: _ => c.isDigit
  | [] => false

/-- Reads the characters of a word. -/
def literal : List Char → Scan Unit
  | [], r => .ok ((), r)
  | _ :: _, [] => .error .truncated
  | w :: ws, c :: r => if c = w then literal ws r else .error .malformed

/-! ## Texts -/

/-- The number of bytes that a text takes up. -/
def byteLength (cs : List Char) : Nat := cs.foldl (fun n c => n + c.utf8Size) 0

/-- Reads four digits in base sixteen. The text is too short if fewer than four bytes are left. -/
def fourHexDigits (cs : List Char) : Except Fault (Nat × List Char) :=
  match cs with
  | a :: b :: c :: d :: r =>
    match Text.hexValue? [a, b, c, d] with
    | some n => .ok (n, r)
    | none => .error .malformed
  | _ => .error (if byteLength cs < 4 then .truncated else .malformed)

/-- Whether a unit of sixteen bits is the first half of a surrogate pair. -/
def isHighSurrogate (n : Nat) : Bool := 0xD800 ≤ n && n ≤ 0xDBFF

/-- Whether a unit of sixteen bits is the second half of a surrogate pair. -/
def isLowSurrogate (n : Nat) : Bool := 0xDC00 ≤ n && n ≤ 0xDFFF

/-- Reads the escape of a code point behind the backslash and its letter. The two halves of a
surrogate pair are two escapes. -/
def readCodePoint (cs : List Char) : Except Fault (Char × List Char) := do
  let (n, r) ← fourHexDigits cs
  if isLowSurrogate n then .error .malformed
  else if isHighSurrogate n then
    match r with
    | '\\' :: 'u' :: r => do
      let (m, r) ← fourHexDigits r
      if isLowSurrogate m then
        .ok (Char.ofNat (0x10000 + (n - 0xD800) * 0x400 + (m - 0xDC00)), r)
      else .error .malformed
    | [] => .error .truncated
    | ['\\'] => .error .truncated
    | _ => .error .malformed
  else .ok (Char.ofNat n, r)

/-- The character that a letter stands for behind a backslash. -/
def escaped? : Char → Option Char
  | '"' => some '"'
  | '\\' => some '\\'
  | '/' => some '/'
  | 'b' => some (Char.ofNat 8)
  | 'f' => some (Char.ofNat 12)
  | 'n' => some '\n'
  | 'r' => some '\r'
  | 't' => some '\t'
  | _ => none

/-- Reads one character of a text, or its closing quotation mark. -/
def readTextItem : List Char → Except Fault (Option Char × List Char)
  | [] => .error .truncated
  | '"' :: r => .ok (none, r)
  | ['\\'] => .error .truncated
  | '\\' :: 'u' :: r => (fun x => (some x.1, x.2)) <$> readCodePoint r
  | '\\' :: c :: r => match escaped? c with
    | some d => .ok (some d, r)
    | none => .error .malformed
  | c :: r => if c.toNat < 32 then .error .malformed else .ok (some c, r)

/-- Reads the characters of a text up to its closing quotation mark. Every one of them takes up
some of the text, whose length is therefore fuel enough. -/
def readTextItems : Nat → List Char → Except Fault (List Char × List Char)
  | 0, _ => .error .truncated
  | fuel + 1, cs => do
    let (c?, r) ← readTextItem cs
    match c? with
    | none => .ok ([], r)
    | some c => (fun x => (c :: x.1, x.2)) <$> readTextItems fuel r

/-- Reads a text behind its opening quotation mark. -/
def readText : Scan (List Char) := fun cs => readTextItems (cs.length + 1) cs

/-- Skips one character of a text; the answer tells whether it was one, and not the closing
quotation mark. -/
def skipTextItem : List Char → Except Fault (Bool × List Char)
  | [] => .error .truncated
  | '"' :: r => .ok (false, r)
  | ['\\'] => .error .truncated
  | '\\' :: 'u' :: r => (fun x => (true, x.2)) <$> fourHexDigits r
  | '\\' :: c :: r => if (escaped? c).isSome then .ok (true, r) else .error .malformed
  | c :: r => if c.toNat < 32 then .error .malformed else .ok (true, r)

/-- Skips the characters of a text. -/
def skipTextItems : Nat → List Char → Except Fault (Unit × List Char)
  | 0, _ => .error .truncated
  | fuel + 1, cs => do
    let (more, r) ← skipTextItem cs
    if more then skipTextItems fuel r else .ok ((), r)

/-- Skips a text behind its opening quotation mark. -/
def skipText : Scan Unit := fun cs => skipTextItems (cs.length + 1) cs

end Refinement.Json
