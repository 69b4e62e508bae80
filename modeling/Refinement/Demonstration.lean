import Refinement.Client
import Refinement.Ty.Text

/-!
# Demonstrations

Two walks through the library with fixed values: what is printed, line by line, and the events on
the way.

* `Demonstration.refined`: refined values.
* `Demonstration.present`: values that are present.
-/

namespace Refinement.Demonstration

/-- Lines, with the events on the way. -/
abbrev Lines := Logged (List String)

/-- Sections one after another. -/
def sections (parts : List Lines) : Lines := do
  let lines ← parts.mapM id
  return lines.flatten

/-- The lines under a heading. -/
def heading (text : String) (lines : List String) : List String :=
  ("--- " ++ text ++ " ---") :: "" :: lines

/-- A truth value in words. -/
def yesNo (b : Bool) : String := if b then "true" else "false"

/-- A result that is not an error, in its diagnostic form. -/
def okText (text : String) : String := "Ok(" ++ text ++ ")"

/-- An outcome of refinement in its diagnostic form. -/
def outcomeText (t : Ty) (p : Predicate) :
    Except (Violation t.Val) (Refined (t.requirement p)) → String
  | .ok x => okText ((Ty.refined t p).debug x)
  | .error x => "Err(" ++ t.debugViolation .diagnostic x ++ ")"

/-- Whether a result is not an error. -/
def isOk {ε α : Type} : Except ε α → Bool
  | .ok _ => true
  | .error _ => false

/-! ## Refined values -/

/-- A 32-bit integer. -/
def int32 (n : Int) : IntKind.Val .i32 := IntKind.wrap .i32 n

/-- Bytes. -/
def bytes (ns : List Int) : List (IntKind.Val .u8) := ns.map (IntKind.wrap .u8)

/-- Whether a character meets a predicate, in words. -/
def charMeets (p : Predicate) (c : Char) : String := yesNo ((Ty.char.requirement p).accepts c)

/-- Whether an integer meets a predicate, in words. -/
def intMeets (p : Predicate) (n : Int) : String :=
  yesNo (((Ty.int .i32).requirement p).accepts (int32 n))

/-- Classes of characters. -/
def characterClasses : Lines := do
  let line (c : Char) : String :=
    Ty.char.debug c ++ ": letter=" ++ charMeets (.ofClass .letter) c ++
      " digit=" ++ charMeets (.ofClass .digit) c ++
      " whitespace=" ++ charMeets (.ofClass .whitespace) c ++
      " alphanumeric=" ++ charMeets (.ofClass .alphaNumeric) c
  let letter : Predicate := .ofClass .letter
  let good ← (Ty.char.requirement letter).refine 'J'
  let bad ← (Ty.char.requirement letter).refine '4'
  let complaint := match bad with
    | .ok _ => []
    | .error x => ["Refined::<char, Letter>::new('4'): " ++ Ty.char.violationMessage x]
  return heading "Character Classes" <|
    ['a', 'Q', '7', ' ', '_'].map line ++
      ["", "Refined::<char, Letter>::new('J'): " ++ outcomeText .char letter good] ++
      complaint ++ [""]

/-- A comparison of 32-bit integers with five. -/
def versusFive (r : Relation) (o : NamedOrder) : Predicate :=
  .atom (.compare r o (.int .i32 (int32 5)))

/-- Comparisons with constants. -/
def comparisons : Lines := do
  let line (n : Int) : String :=
    toString n ++ ": > 5 is " ++ intMeets (versusFive .greater NamedOrder.natural) n ++
      ", < 5 is " ++ intMeets (versusFive .less NamedOrder.natural) n
  let r := (Ty.int .i32).requirement .positive
  let start ← r.refine (int32 42)
  match start with
  | .error _ => return []
  | .ok x =>
    let doubled ← x.tryMap fun n => IntKind.wrap .i32 (IntKind.Val.toInt (k := .i32) n * 2)
    let negated ← x.tryMap fun n => IntKind.wrap .i32 (-IntKind.Val.toInt (k := .i32) n)
    return heading "Comparisons" <|
      [3, 5, 6].map line ++
        ["3 with reversed order: " ++
            intMeets (versusFive .greater (.reversed NamedOrder.natural)) 3,
          "",
          "PositiveI32(42).try_map(|x| x * 2): " ++
            outcomeText (.int .i32) .positive doubled,
          "PositiveI32(42).try_map(|x| -x): " ++ yesNo (!isOk negated),
          ""]

/-- Bounds on numbers of items. -/
def collections : Lines := do
  let vector : Ty := .list .vector (.int .u8)
  let r := vector.requirement (.atMost (IntKind.wrap .usize 3))
  let fits ← r.refine (bytes [1, 2, 3])
  let exceeds ← r.refine (bytes [1, 2, 3, 4])
  let name ← (Ty.text.requirement (.atMost (IntKind.wrap .usize 5))).refine "héllo"
  return heading "Collections"
    ["BoundedVec<u8, 3> of [1, 2, 3]: " ++ yesNo (isOk fits),
      "BoundedVec<u8, 3> of [1, 2, 3, 4]: " ++ yesNo (isOk exceeds),
      "\"héllo\" within 5 chars: " ++ yesNo (isOk name),
      ""]

/-- Even numbers of 64 bits. -/
def evenLong : UserMarker where
  place := ["oracle_driver", "demos", "refined", "custom_predicates"]
  name := "Even"
  description := some "even number"
  accepts
    | .scalar (.key (.int .i64)) n => Client.isEven (k := .i64) n
    | _ => false

/-- A predicate of a client. -/
def customPredicates : Lines := do
  let t : Ty := .int .i64
  let r := t.requirement (.atom (.user evenLong))
  let four ← r.refine (IntKind.wrap .i64 4)
  let five ← r.refine (IntKind.wrap .i64 5)
  let complaint := match five with
    | .ok _ => []
    | .error x => ["5.refine::<Even>(): " ++ t.violationMessage x]
  return heading "Custom Predicates" <|
    ("4.refine::<Even>(): " ++ yesNo (isOk four)) :: complaint ++ [""]

/-- Predicates made of predicates. -/
def combinators : Lines :=
  let single (c : Char) : Predicate := .atom (.charEq (.char c))
  let numberChar : Predicate := .anyOf [Predicate.ofClass .digit, .anyOf [single '+', single '-']]
  let visible : Predicate :=
    .allOf [.not (Predicate.ofClass .whitespace), .not (single (Char.ofNat 0))]
  let line (c : Char) : String :=
    Ty.char.debug c ++ ": number char=" ++ charMeets numberChar c ++
      " visible=" ++ charMeets visible c
  return heading "Combinators" (['7', '-', 'x', ' '].map line ++ [""])

/-- A configuration that is checked when it is read: an endpoint and a percentage. -/
def configuration (endpoint target : Int) : Logged String := do
  let endpointType : Ty := .int .u16
  let targetType : Ty := .int .i32
  match ← (endpointType.requirement .endpoint).refine (IntKind.wrap .u16 endpoint) with
  | .error x => return "invalid: " ++ endpointType.violationMessage x
  | .ok p =>
    match ← (targetType.requirement .percentage).refine (IntKind.wrap .i32 target) with
    | .error x => return "invalid: " ++ targetType.violationMessage x
    | .ok q =>
      let shown (t : Ty) (v : t.Val) : String := (t.displayText? v).getD ""
      return "valid config: port " ++ shown endpointType p.value ++ " with " ++
        shown targetType q.value ++ "% target"

/-- A configuration that is valid and one that is not. -/
def realWorld : Lines := do
  let first ← configuration 8080 95
  let second ← configuration 0 95
  return heading "Real World: Server Config" [first, second]

/-- The walk through refined values. -/
def refined : Lines :=
  sections
    [return ["=== Refined Types Example ===", ""], characterClasses, comparisons, collections,
      customPredicates, combinators, realWorld]

/-! ## Values that are present -/

/-- Ways to build a wrapper. -/
def construction : Lines :=
  let name : Present String := .holding "Ferris"
  let id : Present (IntKind.Val .u64) := .holding (IntKind.wrap .u64 7)
  let absent : Except NullValueError (Present String) :=
    Present.ofNullable Ty.text.name (none : Option String)
  let complaint := match absent with
    | .ok _ => []
    | .error e => ["Present::try_from(None): " ++ e.message]
  let null : Except NullValueError (Present (Pointer.NonNull (IntKind.Val .u8))) :=
    Present.ofNullable "" (Pointer.null : Pointer (IntKind.Val .u8))
  return heading "Construction" <|
    ["Present::new(\"Ferris\"): " ++ (Ty.present .text).debug name,
      "7.into_present(): " ++ ((Ty.present (.int .u64)).displayText? id).getD ""] ++
      complaint ++
      ["Present::from_nullable(null pointer) is_err: " ++ yesNo (!isOk null), ""]

/-- Ways out of a wrapper and back. -/
def conversions : Lines :=
  let t : Ty := .int .i32
  let p : Present t.Val := .holding (int32 42)
  let o : Option t.Val := p.toOption
  let back := match (Present.ofNullable t.name o : Except NullValueError (Present t.Val)) with
    | .ok q => okText ((Ty.present t).debug q)
    | .error e => e.message
  let doubled : List t.Val := p.toList.map fun n =>
    IntKind.wrap .i32 (IntKind.Val.toInt (k := .i32) n * 2)
  return heading "Conversions"
    ["Present(42) -> Option: " ++ (Ty.option t).debug o,
      "Option -> Present: " ++ back,
      "iterating Present(42) doubled: " ++ (Ty.list .vector t).debug doubled,
      ""]

/-- A wrapper that holds no value. -/
def uninitialized : Lines := do
  let t : Ty := .int .i32
  let empty ← Present.ofFirst (α := t.Val) t.name []
  let line := match ← empty.value t.name with
    | .ok v => "value: " ++ t.debug v
    | .error e => "value(): " ++ e.message
  return heading "Uninitialized" ["is_some: " ++ yesNo empty.isSome, line]

/-- The walk through values that are present. -/
def present : Lines :=
  sections
    [return ["=== Present Values Example ===", ""], construction, conversions, uninitialized]

end Refinement.Demonstration
