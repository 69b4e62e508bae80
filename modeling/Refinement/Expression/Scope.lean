import Refinement.Expression.Term
import Refinement.Ty.Basic
import Refinement.Vocabulary.Abbreviation

/-!
# The meaning of expressions

The types, predicates, orders and constants that terms name. Some names stand for whole expressions:
the signs of numbers, bounds on numbers of items, named characters, and common refined types. A
`Scope` holds what a client declares besides.

* `Scope.ty?`, `Scope.predicate?`, `Scope.order?`, `Scope.constant?`: the meaning of a term.
-/

namespace Refinement.Expression

/-- What a client declares. -/
structure Scope where
  constants : List UserConstant
  orders : List UserOrder
  markers : List UserMarker
  /-- Types by their names. -/
  types : List (String × Ty)

/-- The constants that are characters with names of their own. -/
def namedCharacters : List (String × Char) :=
  [("ChA", 'A'), ("ChZ", 'Z'), ("Cha", 'a'), ("Chz", 'z'), ("Ch0", '0'), ("Ch9", '9'),
    ("ChSpace", ' '), ("ChTab", '\t'), ("ChCr", '\r'), ("ChLf", '\n')]

/-- The classes of characters. -/
def charClasses : List CharClass :=
  [.upper, .lower, .letter, .digit, .whitespace, .alphaNumeric]

/-- The comparisons with one constant. -/
def relations : List Relation := [.greater, .less, .greaterOrEqual, .lessOrEqual, .equal]

/-- The predicates on the signs of numbers. -/
def signPredicates : List (String × Predicate) :=
  [("Positive", .positive), ("NonNegative", .nonNegative), ("Negative", .negative),
    ("NonPositive", .nonPositive), ("NonZero", .nonZero)]

/-- The refined characters. -/
def namedCharTypes : List (String × Predicate) :=
  [("LetterChar", .ofClass .letter), ("DigitChar", .ofClass .digit),
    ("WhitespaceChar", .ofClass .whitespace), ("AlphaNumericChar", .ofClass .alphaNumeric)]

/-- The refined numbers. -/
def namedNumberTypes : List (String × Scalar × Predicate) :=
  [("PositiveI32", .int .i32, .positive), ("PositiveI64", .int .i64, .positive),
    ("PositiveF64", .float .binary64, .positive),
    ("NonNegativeI32", .int .i32, .nonNegative), ("NonNegativeI64", .int .i64, .nonNegative),
    ("NonNegativeF64", .float .binary64, .nonNegative),
    ("NegativeI32", .int .i32, .negative), ("NonZeroI32", .int .i32, .nonZero),
    ("NonZeroU32", .int .u32, .nonZero), ("NonZeroUsize", .int .usize, .nonZero),
    ("Percentage", .int .i32, .percentage), ("Port", .int .u16, .endpoint)]

/-- The refined types that have names without arguments. -/
def namedTypes : List (String × Ty) :=
  namedCharTypes.map (fun e => (e.1, .refined .char e.2)) ++
    namedNumberTypes.map fun e => (e.1, .refined (.scalar e.2.1) e.2.2)

/-- The scalar types by their names. -/
def scalarTypes : List (String × Scalar) :=
  IntKind.all.map (fun k => (k.name, .int k)) ++
    [("f32", .float .binary32), ("f64", .float .binary64), ("bool", .key .bool),
      ("char", .key .char), ("String", .key .text), ("SeqInfo", .count)]

namespace Scope

variable (scope : Scope)

/-- The constant that a term names. -/
def constant? : Term → Option Constant
  | .name "ConstChar" [.character c] => some (.char c)
  | .name "ConstBool" [.name "true" []] => some (.bool true)
  | .name "ConstBool" [.name "false" []] => some (.bool false)
  | .name "Zero" [] => some .zero
  | .name w [.integer n] => do
    let k ← IntKind.all.find? fun k => "Const" ++ k.capitalName == w
    return .int k (← k.ofInt? n)
  | .name w [] =>
    match namedCharacters.lookup w with
    | some c => some (.char c)
    | none => (scope.constants.find? (·.name == w)).map .user
  | _ => none

/-- The order that a term names. -/
def order? : Term → Option NamedOrder
  | .name "Natural" [] => some .natural
  | .name "Reversed" [t] => (order? t).map .reversed
  | .name w [] => (scope.orders.find? (·.name == w)).map fun o => .base (.user o)
  | _ => none

/-- The basic predicate that a name without arguments stands for, or the one it abbreviates. -/
def plainPredicate? (w : String) : Option Predicate :=
  match charClasses.find? (·.name == w) with
  | some c => some (.atom (.charClass c))
  | none => match signPredicates.lookup w with
    | some p => some p
    | none => (scope.markers.find? (·.name == w)).map fun m => .atom (.user m)

/-- The comparison that a name with an order and a constant stands for. -/
def comparison? (w : String) (o c : Term) : Option Predicate := do
  let r ← relations.find? (·.name == w)
  return .atom (.compare r (← scope.order? o) (← scope.constant? c))

mutual

/-- The predicate that a term names. -/
def predicate? : Term → Option Predicate
  | .name "AllOf" [.tuple ts] => (predicates? ts).map .allOf
  | .name "AnyOf" [.tuple ts] => (predicates? ts).map .anyOf
  | .name "Exists" [.tuple ts] => (predicates? ts).map .anyOf
  | .name "And" [t, u] => do return .and (← predicate? t) (← predicate? u)
  | .name "Or" [t, u] => do return .or (← predicate? t) (← predicate? u)
  | .name "Not" [t] => (predicate? t).map .not
  | .name "CharEq" [c] => do return .atom (.charEq (← scope.constant? c))
  | .name "CharRange" [lo, hi] => do
    return .atom (.charRange (← scope.constant? lo) (← scope.constant? hi))
  | .name "MaxCount" [c] => do return .atom (.maxCount (← scope.constant? c))
  | .name "MinCount" [c] => do return .atom (.minCount (← scope.constant? c))
  | .name "AtMost" [.integer n] => (IntKind.ofInt? .usize n).map Predicate.atMost
  | .name "AtLeast" [.integer n] => (IntKind.ofInt? .usize n).map Predicate.atLeast
  | .name "Between" [.integer lo, .integer hi] => do
    return .integerRange .i64 (← IntKind.ofInt? .i64 lo) (← IntKind.ofInt? .i64 hi)
  | .name "InRange" [o, lo, hi] => do
    return .atom (.inRange (← scope.order? o) (← scope.constant? lo) (← scope.constant? hi))
  | .name w [o, c] => scope.comparison? w o c
  | .name w [] => scope.plainPredicate? w
  | _ => none

/-- The predicates that the terms of a list name. -/
def predicates? : List Term → Option (List Predicate)
  | [] => some []
  | t :: ts => do return (← predicate? t) :: (← predicates? ts)

end

/-- The type that a name without arguments stands for. -/
def plainType? (w : String) : Option Ty :=
  match scalarTypes.lookup w with
  | some s => some (.scalar s)
  | none => (namedTypes ++ scope.types).lookup w

mutual

/-- The type that a term names. -/
def ty? : Term → Option Ty
  | .name "Vec" [t] => (ty? t).map (.list .vector)
  | .name "VecDeque" [t] => (ty? t).map (.list .deque)
  | .name "Box" [.slice t] => (ty? t).map (.list .boxed)
  | .name "BTreeSet" [t] => (ty? t).map .set
  | .name "BTreeMap" [k, t] => do return .map (← ty? k) (← ty? t)
  | .name "Option" [t] => (ty? t).map .option
  | .name "Present" [t] => (ty? t).map .present
  | .name "Refined" [t, p] => do return .refined (← ty? t) (← scope.predicate? p)
  | .name "BoundedVec" [t, .integer n] => do
    return .refined (.list .vector (← ty? t)) (.atMost (← IntKind.ofInt? .usize n))
  | .name "BoundedString" [.integer n] => do
    return .refined .text (.atMost (← IntKind.ofInt? .usize n))
  | .name "NonEmptyList" [t] => do
    return .refined (.list .vector (← ty? t)) (.atLeast (IntKind.wrap .usize 1))
  | .array t n => do return .array (← ty? t) n.toNat
  | .tuple ts => (types? ts).map fun ts => .tuple (Row.ofList ts)
  | .name w [] => scope.plainType? w
  | _ => none

/-- The types that the terms of a list name. -/
def types? : List Term → Option (List Ty)
  | [] => some []
  | t :: ts => do return (← ty? t) :: (← types? ts)

end

end Scope

end Refinement.Expression
