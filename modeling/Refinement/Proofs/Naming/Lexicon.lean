import Mathlib.Data.List.Nodup
import Refinement.Client
import Refinement.Proofs.Naming.Spelling

/-!
# The paths of the library

Every name starts with a path: of a predicate, an order or a constant of the library, or of one that
a client declares. Where the client's paths are words of their own, the path tells what is named.

* `Lexicon`: the paths of the library for one sort of names.
* `Lexicon.Admits`: declarations with paths of their own.
* `Expression.Scope.Distinct`: what a client declares has paths of its own.
* `Client.distinct`: so it is in the client's scope.
-/

namespace Refinement

/-! ## Lexicons -/

/-- The names of the library for one sort of things: their paths are plain words, all different. -/
structure Lexicon (L : Type) where
  /-- Where a thing is declared. -/
  place : L → List String
  /-- Its own name. -/
  name : L → String
  /-- All things of the sort. -/
  all : List L
  /-- There are no others. -/
  mem_all : ∀ l, l ∈ all
  /-- The places are plain words. -/
  plain_place : ∀ l, ((place l).all fun s => Spelling.isPlain s.toList) = true
  /-- The names are plain words. -/
  plain_name : (all.all fun l => Spelling.isPlain (name l).toList) = true
  /-- No path occurs twice. -/
  nodup : (all.map fun l => TypeName.path (place l) (name l)).Nodup

namespace Lexicon

variable {L D : Type}

/-- The path of a thing of the library. -/
def path (x : Lexicon L) (l : L) : String := TypeName.path (x.place l) (x.name l)

theorem isPlain_path (x : Lexicon L) (l : L) : Spelling.isPlain (x.path l).toList = true :=
  TypeName.isPlain_path (List.all_eq_true.1 (x.plain_place l))
    (List.all_eq_true.1 x.plain_name l (x.mem_all l))

theorem path_injective (x : Lexicon L) {l m : L} (h : x.path l = x.path m) : l = m :=
  List.inj_on_of_nodup_map x.nodup (x.mem_all l) (x.mem_all m) h

/-- Declarations at paths of their own. -/
structure Admits (x : Lexicon L) (path : D → String) (ds : List D) : Prop where
  /-- The paths are plain words. -/
  plain : ∀ d ∈ ds, Spelling.isPlain (path d).toList = true
  /-- The library does not use them. -/
  foreign : ∀ d ∈ ds, ∀ l, path d ≠ x.path l
  /-- No two declarations have the same path. -/
  distinct : ∀ d ∈ ds, ∀ e ∈ ds, path d = path e → d = e

/-- The path of a name of the library or of a declaration, as a word. -/
def word (x : Lexicon L) (path : D → String) : L ⊕ D → List Char
  | .inl l => (x.path l).toList
  | .inr d => (path d).toList

variable {x : Lexicon L} {path : D → String} {ds : List D}

theorem Admits.isWord (hx : x.Admits path ds) {a : L ⊕ D} (ha : ∀ d ∈ a.getRight?, d ∈ ds) :
    Spelling.IsWord (x.word path a) := by
  cases a with
  | inl l => exact .plain (x.isPlain_path l)
  | inr d => exact .plain (hx.plain d (ha d rfl))

/-- The path tells what is named. -/
theorem Admits.word_inj (hx : x.Admits path ds) {a b : L ⊕ D} (ha : ∀ d ∈ a.getRight?, d ∈ ds)
    (hb : ∀ d ∈ b.getRight?, d ∈ ds) (h : x.word path a = x.word path b) : a = b := by
  cases a with
  | inl l =>
    cases b with
    | inl m => exact congrArg Sum.inl (x.path_injective (String.toList_inj.1 h))
    | inr e => exact absurd (String.toList_inj.1 h).symm (hx.foreign e (hb e rfl) l)
  | inr d =>
    cases b with
    | inl m => exact absurd (String.toList_inj.1 h) (hx.foreign d (ha d rfl) m)
    | inr e =>
      exact congrArg Sum.inr (hx.distinct d (ha d rfl) e (hb e rfl) (String.toList_inj.1 h))

/-- Whether declarations have paths of their own is decided by comparing the paths. -/
theorem Admits.of_checks (plain : (ds.all fun d => Spelling.isPlain (path d).toList) = true)
    (foreign : (ds.all fun d => x.all.all fun l => path d != x.path l) = true)
    (nodup : (ds.map path).Nodup) : x.Admits path ds where
  plain := List.all_eq_true.1 plain
  foreign _ hd l :=
    bne_iff_ne.1 (List.all_eq_true.1 (List.all_eq_true.1 foreign _ hd) l (x.mem_all l))
  distinct _ hd _ he heq := List.inj_on_of_nodup_map nodup hd he heq

end Lexicon

/-! ## The library -/

/-- The heads of the names of constants. -/
inductive ConstantHead where
  | char
  | bool
  | int (k : IntKind)
  | zero
deriving DecidableEq

namespace ConstantHead

/-- The name alone. -/
def name : ConstantHead → String
  | .char => "ConstChar"
  | .bool => "ConstBool"
  | .int k => "Const" ++ k.capitalName
  | .zero => "Zero"

/-- All heads. -/
def all : List ConstantHead := [.char, .bool, .zero] ++ IntKind.all.map .int

theorem mem_all (l : ConstantHead) : l ∈ all := by
  cases l with
  | int k => cases k <;> decide
  | _ => decide

/-- The paths of the constants of the library. -/
def lexicon : Lexicon ConstantHead where
  place _ := Constant.place
  name := name
  all := all
  mem_all := mem_all
  plain_place _ := by decide
  plain_name := by decide
  nodup := by decide

end ConstantHead

/-- The heads of the names of orders. -/
inductive OrderHead where
  | natural
  | reversed
deriving DecidableEq

/-- The ways in which predicates are combined. -/
inductive Combination where
  | allOf
  | anyOf
  | and
  | or
  | not
deriving DecidableEq

/-- The heads of the names of predicates. -/
inductive PredicateHead where
  | charClass (c : CharClass)
  | charEq
  | charRange
  | compare (r : Relation)
  | inRange
  | maxCount
  | minCount
  | combination (c : Combination)
deriving DecidableEq

namespace OrderHead

/-- The name alone. -/
def name : OrderHead → String
  | .natural => "Natural"
  | .reversed => "Reversed"

/-- All heads. -/
def all : List OrderHead := [.natural, .reversed]

theorem mem_all (l : OrderHead) : l ∈ all := by cases l <;> decide

/-- The paths of the orders of the library. -/
def lexicon : Lexicon OrderHead where
  place _ := NamedOrder.place
  name := name
  all := all
  mem_all := mem_all
  plain_place _ := by decide
  plain_name := by decide
  nodup := by decide

end OrderHead

namespace Combination

/-- The name alone. -/
def name : Combination → String
  | .allOf => "AllOf"
  | .anyOf => "AnyOf"
  | .and => "And"
  | .or => "Or"
  | .not => "Not"

end Combination

namespace PredicateHead

/-- Where a predicate is declared. -/
def place : PredicateHead → List String
  | .charClass _ | .charEq | .charRange => Marker.characterPlace
  | .compare _ | .inRange => Marker.comparisonPlace
  | .maxCount | .minCount => Marker.collectionPlace
  | .combination _ => Formula.place

/-- The name alone. -/
def name : PredicateHead → String
  | .charClass c => c.name
  | .charEq => "CharEq"
  | .charRange => "CharRange"
  | .compare r => r.name
  | .inRange => "InRange"
  | .maxCount => "MaxCount"
  | .minCount => "MinCount"
  | .combination c => c.name

/-- All heads. -/
def all : List PredicateHead :=
  Expression.charClasses.map .charClass ++ [.charEq, .charRange] ++
    Expression.relations.map .compare ++ [.inRange, .maxCount, .minCount] ++
    [Combination.allOf, .anyOf, .and, .or, .not].map .combination

theorem mem_all (l : PredicateHead) : l ∈ all := by
  cases l with
  | charClass c => cases c <;> decide
  | compare r => cases r <;> decide
  | combination c => cases c <;> decide
  | _ => decide

theorem isPlain_place (l : PredicateHead) :
    (l.place.all fun s => Spelling.isPlain s.toList) = true := by
  cases l <;> rfl

/-- The paths of the predicates of the library. -/
def lexicon : Lexicon PredicateHead where
  place := place
  name := name
  all := all
  mem_all := mem_all
  plain_place := isPlain_place
  plain_name := by decide
  nodup := by decide

end PredicateHead

/-! ## Declarations -/

/-- The path of a constant of a client. -/
def UserConstant.path (c : UserConstant) : String := TypeName.path c.place c.name

/-- The path of an order of a client. -/
def UserOrder.path (o : UserOrder) : String := TypeName.path o.place o.name

/-- The path of a predicate of a client. -/
def UserMarker.path (m : UserMarker) : String := TypeName.path m.place m.name

/-- The declarations of each sort have paths of their own. -/
structure Expression.Scope.Distinct (S : Expression.Scope) : Prop where
  constants : ConstantHead.lexicon.Admits UserConstant.path S.constants
  orders : OrderHead.lexicon.Admits UserOrder.path S.orders
  markers : PredicateHead.lexicon.Admits UserMarker.path S.markers

/-- What the client declares has paths of its own. -/
theorem Client.distinct : Client.scope.Distinct where
  constants := .of_checks (by decide) (by decide) (by decide)
  orders := .of_checks (by decide) (by decide) (by decide)
  markers := .of_checks (by decide) (by decide) (by decide)

end Refinement
