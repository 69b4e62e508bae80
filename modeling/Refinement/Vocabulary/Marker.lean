import Refinement.Datum
import Refinement.Event
import Refinement.Formula
import Refinement.Vocabulary.Constant
import Refinement.Vocabulary.NamedOrder

/-!
# Predicates as they are written

A `Marker` is a basic predicate by its name: a class of characters, a comparison with constants, a
bound on the number of items, or a predicate that a client declares. A `Predicate` is a Boolean
formula of markers.

* `Marker.expansion`: the classes of characters in terms of single characters and ranges.
* `Predicate.typeName`: the name under which a predicate is reported.
* `Predicate.description`: what a value has to be, in words.
-/

namespace Refinement

/-- A class of characters. -/
inductive CharClass where
  | upper
  | lower
  | letter
  | digit
  | whitespace
  | alphaNumeric
deriving DecidableEq, Repr

/-- A basic predicate that a client declares. -/
structure UserMarker where
  /-- Where it is declared. -/
  place : List String
  /-- Its own name. -/
  name : String
  /-- What it asks for, in words, if the client says so. -/
  description : Option String
  /-- Which values it accepts. -/
  accepts : Datum → Bool

/-- A basic predicate. -/
inductive Marker where
  /-- The character belongs to a class. -/
  | charClass (c : CharClass)
  /-- The character is the constant. -/
  | charEq (c : Constant)
  /-- The character lies between two constants, both included. -/
  | charRange (lo hi : Constant)
  /-- The value stands in a relation to the constant. -/
  | compare (r : Relation) (o : NamedOrder) (c : Constant)
  /-- The value lies between two constants, both included. -/
  | inRange (o : NamedOrder) (lo hi : Constant)
  /-- There are at most so many items. -/
  | maxCount (c : Constant)
  /-- There are at least so many items. -/
  | minCount (c : Constant)
  /-- The client accepts the value. -/
  | user (m : UserMarker)

/-- A predicate: a Boolean formula of markers. -/
abbrev Predicate := Formula Marker

namespace CharClass

/-- The name of the class. -/
def name : CharClass → String
  | .upper => "Upper"
  | .lower => "Lower"
  | .letter => "Letter"
  | .digit => "Digit"
  | .whitespace => "Whitespace"
  | .alphaNumeric => "AlphaNumeric"

/-- The class in words. -/
def description : CharClass → String
  | .upper => "ASCII uppercase letter ('A'..='Z')"
  | .lower => "ASCII lowercase letter ('a'..='z')"
  | .letter => "ASCII letter ('A'..='Z' or 'a'..='z')"
  | .digit => "ASCII digit ('0'..='9')"
  | .whitespace => "whitespace (space, tab, CR or LF)"
  | .alphaNumeric => "ASCII letter or digit"

/-- The characters between two others. -/
def span (lo hi : Char) : Predicate := .atom (.charRange (.char lo) (.char hi))

/-- A single character. -/
def single (c : Char) : Predicate := .atom (.charEq (.char c))

/-- The class in terms of single characters and ranges. The classes of letters and of letters and digits
are joined from smaller ones. -/
def expansion (c : CharClass) : Predicate :=
  let upper := span 'A' 'Z'
  let lower := span 'a' 'z'
  let letter : Predicate := .anyOf [upper, lower]
  let digit := span '0' '9'
  match c with
  | .upper => upper
  | .lower => lower
  | .letter => letter
  | .digit => digit
  | .whitespace => .anyOf [single ' ', single '\t', single '\r', single '\n']
  | .alphaNumeric => .anyOf [letter, digit]

end CharClass

namespace Relation

/-- The name of the comparison. -/
def name : Relation → String
  | .greater => "GreaterThan"
  | .less => "LessThan"
  | .greaterOrEqual => "GreaterOrEq"
  | .lessOrEqual => "LessOrEq"
  | .equal => "EqualTo"

/-- The comparison in words. -/
def description : Relation → String
  | .greater => "greater than constant"
  | .less => "less than constant"
  | .greaterOrEqual => "greater than or equal to constant"
  | .lessOrEqual => "less than or equal to constant"
  | .equal => "equal to constant"

end Relation

namespace Marker

/-- The marker with a class of characters spelled out. -/
def expansion : Marker → Predicate
  | .charClass c => c.expansion
  | m => .atom m

/-- Where the predicates on characters are declared. -/
def characterPlace : List String := ["proven", "refined", "predicates", "character"]

/-- Where the comparisons are declared. -/
def comparisonPlace : List String := ["proven", "refined", "predicates", "comparison"]

/-- Where the predicates on collections are declared. -/
def collectionPlace : List String := ["proven", "refined", "predicates", "collection"]

/-- The name under which the marker is reported. -/
def typeName : Marker → TypeName
  | .charClass c => .named characterPlace c.name []
  | .charEq c => .named characterPlace "CharEq" [c.typeName]
  | .charRange lo hi => .named characterPlace "CharRange" [lo.typeName, hi.typeName]
  | .compare r o c => .named comparisonPlace r.name [o.typeName, c.typeName]
  | .inRange o lo hi => .named comparisonPlace "InRange" [o.typeName, lo.typeName, hi.typeName]
  | .maxCount c => .named collectionPlace "MaxCount" [c.typeName]
  | .minCount c => .named collectionPlace "MinCount" [c.typeName]
  | .user m => .named m.place m.name []

/-- What the marker asks for, in words; its name where there are none. -/
def description : Marker → String
  | .charClass c => c.description
  | .charEq _ => "character equal to constant"
  | .compare r _ _ => r.description
  | .maxCount _ => "collection with maximum count"
  | .minCount _ => "collection with minimum count"
  | .user m => m.description.getD (typeName (.user m)).text
  | m => m.typeName.text

end Marker

namespace Formula

variable {A : Type}

/-- What a combination asks for, in words, given the words for its atoms. -/
def describe (words : A → String) : Formula A → String
  | .atom a => words a
  | .allOf _ => "all predicates must hold"
  | .anyOf _ => "at least one predicate must hold"
  | .and _ _ => "both predicates must hold"
  | .or _ _ => "at least one predicate must hold"
  | .not _ => "predicate must not hold"

/-- Where the combinations are declared. -/
def place : List String := ["proven", "refined", "combinators"]

mutual

/-- The name of a combination, given the names of its atoms. -/
def nameWith (names : A → TypeName) : Formula A → TypeName
  | .atom a => names a
  | .allOf ps => .named place "AllOf" [.tuple (namesWith names ps)]
  | .anyOf ps => .named place "AnyOf" [.tuple (namesWith names ps)]
  | .and p q => .named place "And" [p.nameWith names, q.nameWith names]
  | .or p q => .named place "Or" [p.nameWith names, q.nameWith names]
  | .not p => .named place "Not" [p.nameWith names]

/-- The names of the formulas of a list. -/
def namesWith (names : A → TypeName) : List (Formula A) → List TypeName
  | [] => []
  | p :: ps => p.nameWith names :: namesWith names ps

end

end Formula

namespace Predicate

/-- The name under which the predicate is reported. -/
def typeName (p : Predicate) : TypeName := p.nameWith Marker.typeName

/-- The name as it is written. -/
def name (p : Predicate) : String := (typeName p).text

/-- What a value has to be, in words. -/
def description (p : Predicate) : String := p.describe Marker.description

/-- The predicate with every class of characters spelled out. -/
def expand (p : Predicate) : Predicate := p.bind Marker.expansion

/-- The event of a value that does not meet the predicate. -/
def rejection (p : Predicate) : Event := .rejected (name p) (description p)

end Predicate

end Refinement
