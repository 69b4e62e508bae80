/-!
# Comparators

A `Comparator` puts two values in order, or says that they cannot be compared. Comparators are
built from the comparators of parts (`lexicographic`, `pair`, `ofOption`, `on`) and turned around
by `reversed`. A `Relation` is what a comparison asks of the answer; no relation admits the answer
that two values cannot be compared.

An `Order` is a comparator as it is written: some basic comparator, reversed any number of times.

* `Comparator.reversed_reversed`: reversing twice changes nothing.
* `Order.comparator_reversed`: a reversed order answers as the reversed comparator.
-/

namespace Refinement

/-- A three-way comparison; `none` says that the two values cannot be compared. -/
abbrev Comparator (α : Type) := α → α → Option Ordering

namespace Comparator

variable {α β : Type}

/-- The same comparison with less and greater exchanged. -/
def reversed (o : Comparator α) : Comparator α := fun a b => (o a b).map Ordering.swap

/-- The comparator under which no two values can be compared. -/
def never : Comparator α := fun _ _ => none

/-- A comparison that always has an answer. -/
def ofTotal (c : α → α → Ordering) : Comparator α := fun a b => some (c a b)

/-- Compares the images under `f`. -/
def on (f : α → β) (o : Comparator β) : Comparator α := fun a b => o (f a) (f b)

/-- The first answer, unless it is "equal"; then the second. -/
def andThen : Option Ordering → Option Ordering → Option Ordering
  | some .eq, r => r
  | r, _ => r

/-- Compares pairs by the first part, and by the second where the first parts are equal. -/
def pair (o : Comparator α) (p : Comparator β) : Comparator (α × β) := fun a b =>
  andThen (o a.1 b.1) (p a.2 b.2)

/-- Compares lists element by element. The first elements that are not equal decide, also when
they cannot be compared; a list that runs out first is less. -/
def lexicographic (o : Comparator α) : Comparator (List α)
  | [], [] => some .eq
  | [], _ :: _ => some .lt
  | _ :: _, [] => some .gt
  | a :: as, b :: bs => andThen (o a b) (lexicographic o as bs)

/-- Puts `none` below every other value. -/
def ofOption (o : Comparator α) : Comparator (Option α)
  | none, none => some .eq
  | none, some _ => some .lt
  | some _, none => some .gt
  | some a, some b => o a b

@[simp] theorem reversed_reversed (o : Comparator α) : o.reversed.reversed = o := by
  funext a b
  simp only [reversed, Option.map_map]
  cases o a b <;> simp

end Comparator

/-- What a comparison with a bound asks for. -/
inductive Relation where
  | greater
  | less
  | greaterOrEqual
  | lessOrEqual
  | equal
deriving DecidableEq, Repr

namespace Relation

/-- Whether the comparator's answer for the value and the bound is what the relation asks for.
Values that cannot be compared stand in no relation. -/
def admits : Relation → Option Ordering → Bool
  | .greater, some .gt => true
  | .less, some .lt => true
  | .greaterOrEqual, some .gt => true
  | .greaterOrEqual, some .eq => true
  | .lessOrEqual, some .lt => true
  | .lessOrEqual, some .eq => true
  | .equal, some .eq => true
  | _, _ => false

@[simp] theorem admits_none (r : Relation) : r.admits none = false := by
  cases r <;> rfl

end Relation

/-- A comparator as it is written: a basic one, or the reverse of another. -/
inductive Order (B : Type) where
  | base (b : B)
  | reversed (o : Order B)

namespace Order

variable {α B : Type}

/-- The comparator that is written, given what the basic ones stand for. -/
def comparator (asks : B → Comparator α) : Order B → Comparator α
  | .base b => asks b
  | .reversed o => (o.comparator asks).reversed

/-- The answers given inside the outermost comparator, innermost first. -/
def innerAnswers (asks : B → Comparator α) (a b : α) : Order B → List (Option Ordering)
  | .base _ => []
  | .reversed o => o.innerAnswers asks a b ++ [o.comparator asks a b]

/-- All answers given when `a` is compared with `b`, innermost first and the result last. -/
def answers (asks : B → Comparator α) (a b : α) (o : Order B) : List (Option Ordering) :=
  o.innerAnswers asks a b ++ [o.comparator asks a b]

/-- The same order over basic comparators of another kind. -/
def map {C : Type} (f : B → C) : Order B → Order C
  | .base b => .base (f b)
  | .reversed o => .reversed (o.map f)

@[simp] theorem comparator_reversed (asks : B → Comparator α) (o : Order B) :
    (Order.reversed o).comparator asks = (o.comparator asks).reversed := rfl

end Order

end Refinement
