import Refinement.BinaryFloat.Arithmetic
import Refinement.Json.Lexical

/-!
# The numbers of JSON

A number is an integer if it has neither a point nor an exponent and lies between the least integer
of 64 bits and the greatest of 64 bits without sign; all others, and the integer zero with a minus
sign, are floating-point numbers.

Of a floating-point number, digits are gathered as long as they fit into 64 bits. The ones that do
not fit count for the exponent before the point, and for nothing behind it. The gathered number is
then rounded, and multiplied or divided by a power of ten, which rounds again.

* `readNumber`: reads a number.
* `skipNumber`: checks its form only.
* `readWide`: reads an integer of 128 bits.
-/

namespace Refinement.Json

/-- A number as it was read. -/
inductive Number where
  | integer (n : Int)
  | float (x : BinaryFloat .binary64)

/-- What is reported where a number was found instead of something else. -/
def Number.unexpected : Number → Unexpected
  | .integer n => .integer n
  | .float x => .float x

/-- The greatest number that digits are gathered to. -/
def gatherLimit : Nat := twoTo 64 - 1

/-- Gathers digits behind the number `m` while they fit: the number, how many digits were added, and
the rest. -/
def gather (m : Nat) : List Char → Nat × Nat × List Char
  | [] => (m, 0, [])
  | c :: r =>
    if c.isDigit && decide (m * 10 + Text.digitValue c ≤ gatherLimit) then
      let (n, k, r) := gather (m * 10 + Text.digitValue c) r
      (n, k + 1, r)
    else (m, 0, c :: r)

/-- The number ten to the `n`. -/
def powerOfTen (n : Nat) : BinaryFloat .binary64 := BinaryFloat.ofRatio false (tenTo n) 1

/-- Divides by ten to the `n`; powers beyond the greatest are divided by in steps, until nothing is
left. Three steps take every number of 64 bits to zero. -/
def divideByPower : Nat → Nat → BinaryFloat .binary64 → BinaryFloat .binary64
  | 0, _, x => x
  | steps + 1, n, x =>
    if n ≤ 308 then x.div (powerOfTen n)
    else if x.isZero then x
    else divideByPower steps (n - 308) (x.div (powerOfTen 308))

/-- The number `m * 10 ^ e`, with its sign. A number beyond the greatest is refused. -/
def ofDecimal (negative : Bool) (m : Nat) (e : Int) : Except Fault Number :=
  let x : BinaryFloat .binary64 := BinaryFloat.ofNat m
  let signed (y : BinaryFloat .binary64) : Number := .float (if negative then y.neg else y)
  if e < 0 then .ok (signed (divideByPower 4 e.natAbs x))
  else if x.isZero then .ok (signed x)
  else if 308 < e then .error .malformed
  else
    let y := x.mul (powerOfTen e.toNat)
    if y.isInfinite then .error .malformed else .ok (signed y)

/-- The greatest exponent that is read as a number. -/
def exponentLimit : Nat := twoTo 31 - 1

/-- Reads the sign of an exponent; true for a negative one. -/
def readExponentSign : List Char → Bool × List Char
  | '+' :: r => (false, r)
  | '-' :: r => (true, r)
  | r => (false, r)

/-- Reads an exponent behind its letter, for the number `m * 10 ^ e` so far. -/
def readExponent (negative : Bool) (m : Nat) (e : Int) (cs : List Char) :
    Except Fault (Number × List Char) :=
  let (down, r) := readExponentSign cs
  match r with
  | [] => .error .truncated
  | c :: _ =>
    if c.isDigit then
      let n := Text.decimalValue (r.takeWhile Char.isDigit)
      let rest := r.dropWhile Char.isDigit
      if exponentLimit < n then
        if m ≠ 0 ∧ down = false then .error .malformed
        else .ok (.float (BinaryFloat.ofMagnitude negative 0), rest)
      else (·, rest) <$> ofDecimal negative m (if down then e - n else e + n)
    else .error .malformed

/-- Reads what may follow the digits of a floating-point number. -/
def finishFloat (negative : Bool) (m : Nat) (e : Int) : List Char →
    Except Fault (Number × List Char)
  | 'e' :: r => readExponent negative m e r
  | 'E' :: r => readExponent negative m e r
  | r => (·, r) <$> ofDecimal negative m e

/-- Reads the digits behind a point. There has to be one. -/
def readFraction (negative : Bool) (m : Nat) (e : Int) (cs : List Char) :
    Except Fault (Number × List Char) :=
  let (n, k, r) := gather m cs
  if startsWithDigit r then finishFloat negative n (e - k) (r.dropWhile Char.isDigit)
  else if k = 0 then .error (if r.isEmpty then .truncated else .malformed)
  else finishFloat negative n (e - k) r

/-- The number without point and exponent. -/
def wholeNumber (negative : Bool) (m : Nat) : Number :=
  if negative = false then .integer m
  else if m = 0 ∨ twoTo 63 < m then .float (BinaryFloat.ofNat m).neg
  else .integer (-m)

/-- Reads what may follow the whole digits of a number that fit. -/
def finishWhole (negative : Bool) (m : Nat) : List Char → Except Fault (Number × List Char)
  | '.' :: r => readFraction negative m 0 r
  | 'e' :: r => readExponent negative m 0 r
  | 'E' :: r => readExponent negative m 0 r
  | r => .ok (wholeNumber negative m, r)

/-- Reads a number behind its sign. -/
def readNumber (negative : Bool) : Scan Number
  | [] => .error .truncated
  | c :: cs =>
    if c = '0' then if startsWithDigit cs then .error .malformed else finishWhole negative 0 cs
    else if c.isDigit then
      let (m, _, r) := gather 0 (c :: cs)
      if startsWithDigit r then
        let e : Int := (r.takeWhile Char.isDigit).length
        match r.dropWhile Char.isDigit with
        | '.' :: rest => readFraction negative m e rest
        | rest => finishFloat negative m e rest
      else finishWhole negative m r
    else .error .malformed

/-! ## Skipping -/

/-- Skips an exponent behind its letter. -/
def skipExponent (cs : List Char) : Except Fault (Unit × List Char) :=
  let r := (readExponentSign cs).2
  if startsWithDigit r then .ok ((), r.dropWhile Char.isDigit) else .error .malformed

/-- Skips what may follow the digits. -/
def skipTail : List Char → Except Fault (Unit × List Char)
  | 'e' :: r => skipExponent r
  | 'E' :: r => skipExponent r
  | r => .ok ((), r)

/-- Skips what may follow the whole digits. -/
def skipFraction : List Char → Except Fault (Unit × List Char)
  | '.' :: r => if startsWithDigit r then skipTail (r.dropWhile Char.isDigit) else .error .malformed
  | r => skipTail r

/-- Skips a number behind its sign. -/
def skipNumber : Scan Unit
  | [] => .error .malformed
  | c :: cs =>
    if c = '0' then if startsWithDigit cs then .error .malformed else skipFraction cs
    else if c.isDigit then skipFraction (cs.dropWhile Char.isDigit)
    else .error .malformed

/-! ## Wide integers -/

/-- Reads an integer behind its sign, of any size. -/
def readDigits : Scan Nat
  | [] => .error .malformed
  | c :: cs =>
    if c = '0' then if startsWithDigit cs then .error .malformed else .ok (0, cs)
    else if c.isDigit then
      .ok (Text.decimalValue (c :: cs.takeWhile Char.isDigit), cs.dropWhile Char.isDigit)
    else .error .malformed

/-- Reads an integer of any size; a negative one only where it is allowed. -/
def readSigned (signed : Bool) : Scan Int
  | '-' :: r => if signed then (fun x => (-(x.1 : Int), x.2)) <$> readDigits r else .error .malformed
  | r => (fun x => ((x.1 : Int), x.2)) <$> readDigits r

/-- Reads an integer of 128 bits. Whatever is not one is malformed. -/
def readWide (k : IntKind) : Scan k.Val := fun cs => do
  let (n, r) ← readSigned k.signed cs
  match k.ofInt? n with
  | some v => .ok (v, r)
  | none => .error .malformed

end Refinement.Json
