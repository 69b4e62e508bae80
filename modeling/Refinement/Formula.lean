/-!
# Boolean formulas

`Formula A` is the language in which predicates are combined: atoms of type `A`, conjunctions and
disjunctions of lists and of pairs, and negation. The meaning of the atoms is left open, so the
same combinators serve for predicates as they are named, for the conditions they stand for, and
for evaluations that are recorded.

* `Formula.holds`: the truth of a formula, given the truth of its atoms. Every connective stops at
  the first part that settles it.
* `Formula.record`: the same evaluation together with the steps it takes.
* `Formula.verdict_record`: recording does not change the verdict.
* `Formula.holds_congr`: only the truth of the atoms that occur matters.
* `Formula.holds_bind`: putting formulas for the atoms.
-/

namespace Refinement

/-- A Boolean combination of atoms. -/
inductive Formula (A : Type) where
  | atom (a : A)
  | allOf (ps : List (Formula A))
  | anyOf (ps : List (Formula A))
  | and (p q : Formula A)
  | or (p q : Formula A)
  | not (p : Formula A)

namespace Formula

variable {A B : Type}

/-! ## Truth -/

mutual

/-- The truth of a formula, given the truth of its atoms. -/
def holds (f : A → Bool) : Formula A → Bool
  | .atom a => f a
  | .allOf ps => holdsAll f ps
  | .anyOf ps => holdsAny f ps
  | .and p q => p.holds f && q.holds f
  | .or p q => p.holds f || q.holds f
  | .not p => !p.holds f

/-- Whether every formula of a list is true, read from the left up to the first that is not. -/
def holdsAll (f : A → Bool) : List (Formula A) → Bool
  | [] => true
  | p :: ps => p.holds f && holdsAll f ps

/-- Whether some formula of a list is true, read from the left up to the first that is. -/
def holdsAny (f : A → Bool) : List (Formula A) → Bool
  | [] => false
  | p :: ps => p.holds f || holdsAny f ps

end

/-! ## Putting formulas for atoms -/

mutual

/-- Puts a formula for every atom. -/
def bind (p : Formula A) (f : A → Formula B) : Formula B :=
  match p with
  | .atom a => f a
  | .allOf ps => .allOf (bindList ps f)
  | .anyOf ps => .anyOf (bindList ps f)
  | .and p q => .and (p.bind f) (q.bind f)
  | .or p q => .or (p.bind f) (q.bind f)
  | .not p => .not (p.bind f)

/-- Puts a formula for every atom of the formulas of a list. -/
def bindList (ps : List (Formula A)) (f : A → Formula B) : List (Formula B) :=
  match ps with
  | [] => []
  | p :: ps => p.bind f :: bindList ps f

end

/-- Renames the atoms. -/
def map (f : A → B) (p : Formula A) : Formula B := p.bind fun a => .atom (f a)

mutual

/-- The atoms, from left to right. -/
def atoms : Formula A → List A
  | .atom a => [a]
  | .allOf ps => atomsOfList ps
  | .anyOf ps => atomsOfList ps
  | .and p q => p.atoms ++ q.atoms
  | .or p q => p.atoms ++ q.atoms
  | .not p => p.atoms

/-- The atoms of the formulas of a list, from left to right. -/
def atomsOfList : List (Formula A) → List A
  | [] => []
  | p :: ps => p.atoms ++ atomsOfList ps

end

mutual

/-- Only the truth of the atoms of a formula matters. -/
theorem holds_congr {f g : A → Bool} :
    ∀ p : Formula A, (∀ a ∈ p.atoms, f a = g a) → p.holds f = p.holds g
  | .atom a, h => by
    simp only [holds]
    exact h a (by simp only [atoms, List.mem_singleton])
  | .allOf ps, h => by
    simp only [atoms] at h
    simp only [holds]
    exact (holdsAll_holdsAny_congr ps h).1
  | .anyOf ps, h => by
    simp only [atoms] at h
    simp only [holds]
    exact (holdsAll_holdsAny_congr ps h).2
  | .and p q, h => by
    simp only [atoms, List.forall_mem_append] at h
    simp only [holds, holds_congr p h.1, holds_congr q h.2]
  | .or p q, h => by
    simp only [atoms, List.forall_mem_append] at h
    simp only [holds, holds_congr p h.1, holds_congr q h.2]
  | .not p, h => by
    simp only [atoms] at h
    simp only [holds, holds_congr p h]

theorem holdsAll_holdsAny_congr {f g : A → Bool} :
    ∀ ps : List (Formula A), (∀ a ∈ atomsOfList ps, f a = g a) →
      holdsAll f ps = holdsAll g ps ∧ holdsAny f ps = holdsAny g ps
  | [], _ => by simp only [holdsAll, holdsAny, and_self]
  | p :: ps, h => by
    simp only [atomsOfList, List.forall_mem_append] at h
    obtain ⟨hall, hany⟩ := holdsAll_holdsAny_congr ps h.2
    simp only [holdsAll, holdsAny, holds_congr p h.1, hall, hany, and_self]

end

mutual

theorem holds_bind (g : B → Bool) (f : A → Formula B) :
    ∀ p : Formula A, (p.bind f).holds g = p.holds fun a => (f a).holds g
  | .atom _ => by simp only [bind, holds]
  | .allOf ps => by simp only [bind, holds]; exact holdsAll_bindList g f ps
  | .anyOf ps => by simp only [bind, holds]; exact holdsAny_bindList g f ps
  | .and p q => by simp only [bind, holds, holds_bind g f p, holds_bind g f q]
  | .or p q => by simp only [bind, holds, holds_bind g f p, holds_bind g f q]
  | .not p => by simp only [bind, holds, holds_bind g f p]

theorem holdsAll_bindList (g : B → Bool) (f : A → Formula B) :
    ∀ ps : List (Formula A), holdsAll g (bindList ps f) = holdsAll (fun a => (f a).holds g) ps
  | [] => by simp only [bindList, holdsAll]
  | p :: ps => by simp only [bindList, holdsAll, holds_bind g f p, holdsAll_bindList g f ps]

theorem holdsAny_bindList (g : B → Bool) (f : A → Formula B) :
    ∀ ps : List (Formula A), holdsAny g (bindList ps f) = holdsAny (fun a => (f a).holds g) ps
  | [] => by simp only [bindList, holdsAny]
  | p :: ps => by simp only [bindList, holdsAny, holds_bind g f p, holdsAny_bindList g f ps]

end

mutual

theorem atoms_bind (f : A → Formula B) :
    ∀ p : Formula A, (p.bind f).atoms = p.atoms.flatMap fun a => (f a).atoms
  | .atom _ => by simp only [bind, atoms, List.flatMap_singleton]
  | .allOf ps => by simp only [bind, atoms]; exact atomsOfList_bindList f ps
  | .anyOf ps => by simp only [bind, atoms]; exact atomsOfList_bindList f ps
  | .and p q => by simp only [bind, atoms, List.flatMap_append, atoms_bind f p, atoms_bind f q]
  | .or p q => by simp only [bind, atoms, List.flatMap_append, atoms_bind f p, atoms_bind f q]
  | .not p => by simp only [bind, atoms, atoms_bind f p]

theorem atomsOfList_bindList (f : A → Formula B) :
    ∀ ps : List (Formula A),
      atomsOfList (bindList ps f) = (atomsOfList ps).flatMap fun a => (f a).atoms
  | [] => rfl
  | p :: ps => by
    simp only [bindList, atomsOfList, List.flatMap_append, atoms_bind f p, atomsOfList_bindList f ps]

end

/-- Renaming the atoms amounts to asking the renamed ones. -/
@[simp] theorem holds_map (g : B → Bool) (f : A → B) (p : Formula A) :
    (p.map f).holds g = p.holds fun a => g (f a) := by
  simp only [map, holds_bind, holds]

/-! ## Recorded evaluation -/

/-- One step of a recorded evaluation. -/
inductive Step where
  /-- A comparator gave this answer. -/
  | answered (answer : Option Ordering)
  /-- The part at this place, given by the positions that lead to it, has this truth value. -/
  | settled (place : List Nat) (verdict : Bool)
deriving DecidableEq, Repr

/-- What an evaluation did, step by step, and what came out. -/
structure Record where
  /-- The steps in the order in which they were taken. -/
  steps : List Step
  /-- The truth value of the whole. -/
  verdict : Bool

namespace Record

/-- The record of a part of a combination, closed by the entry for its place. -/
def settle (place : List Nat) (r : Record) : Record :=
  { r with steps := r.steps ++ [.settled place r.verdict] }

/-- Goes on with `next` where the first record has the verdict `v`, and stops there otherwise. -/
def followIf (v : Bool) (r : Record) (next : Record) : Record :=
  if r.verdict = v then { steps := r.steps ++ next.steps, verdict := next.verdict } else r

end Record

mutual

/-- Evaluates a formula and records the steps. `ask` gives the truth of an atom with the answers
its comparator gave; `place` is where the formula stands. Parts that are not evaluated, because an
earlier one settles the connective, leave no step. -/
def record (ask : A → List (Option Ordering) × Bool) (place : List Nat) : Formula A → Record
  | .atom a => { steps := (ask a).1.map .answered, verdict := (ask a).2 }
  | .allOf ps => recordAll ask place 0 ps
  | .anyOf ps => recordAny ask place 0 ps
  | .and p q =>
    ((p.record ask (place ++ [0])).settle (place ++ [0])).followIf true
      ((q.record ask (place ++ [1])).settle (place ++ [1]))
  | .or p q =>
    ((p.record ask (place ++ [0])).settle (place ++ [0])).followIf false
      ((q.record ask (place ++ [1])).settle (place ++ [1]))
  | .not p =>
    let r := (p.record ask (place ++ [0])).settle (place ++ [0])
    { r with verdict := !r.verdict }

/-- Records a conjunction from its part number `i` on. -/
def recordAll (ask : A → List (Option Ordering) × Bool) (place : List Nat) (i : Nat) :
    List (Formula A) → Record
  | [] => { steps := [], verdict := true }
  | p :: ps =>
    ((p.record ask (place ++ [i])).settle (place ++ [i])).followIf true
      (recordAll ask place (i + 1) ps)

/-- Records a disjunction from its part number `i` on. -/
def recordAny (ask : A → List (Option Ordering) × Bool) (place : List Nat) (i : Nat) :
    List (Formula A) → Record
  | [] => { steps := [], verdict := false }
  | p :: ps =>
    ((p.record ask (place ++ [i])).settle (place ++ [i])).followIf false
      (recordAny ask place (i + 1) ps)

end

namespace Record

@[simp] theorem verdict_settle (place : List Nat) (r : Record) :
    (r.settle place).verdict = r.verdict := rfl

@[simp] theorem verdict_followIf_true (r next : Record) :
    (r.followIf true next).verdict = (r.verdict && next.verdict) := by
  cases h : r.verdict <;> simp [followIf, h]

@[simp] theorem verdict_followIf_false (r next : Record) :
    (r.followIf false next).verdict = (r.verdict || next.verdict) := by
  cases h : r.verdict <;> simp [followIf, h]

end Record

mutual

/-- Recording an evaluation does not change its verdict. -/
theorem verdict_record (ask : A → List (Option Ordering) × Bool) (place : List Nat) :
    ∀ p : Formula A, (p.record ask place).verdict = p.holds fun a => (ask a).2
  | .atom _ => by simp only [record, holds]
  | .allOf ps => by simp only [record, holds]; exact verdict_recordAll ask place 0 ps
  | .anyOf ps => by simp only [record, holds]; exact verdict_recordAny ask place 0 ps
  | .and p q => by
    simp only [record, holds, Record.verdict_followIf_true, Record.verdict_settle,
      verdict_record ask _ p, verdict_record ask _ q]
  | .or p q => by
    simp only [record, holds, Record.verdict_followIf_false, Record.verdict_settle,
      verdict_record ask _ p, verdict_record ask _ q]
  | .not p => by
    simp only [record, holds, Record.verdict_settle, verdict_record ask _ p]

theorem verdict_recordAll (ask : A → List (Option Ordering) × Bool) (place : List Nat) (i : Nat) :
    ∀ ps : List (Formula A), (recordAll ask place i ps).verdict = holdsAll (fun a => (ask a).2) ps
  | [] => by simp only [recordAll, holdsAll]
  | p :: ps => by
    simp only [recordAll, holdsAll, Record.verdict_followIf_true, Record.verdict_settle,
      verdict_record ask _ p, verdict_recordAll ask place (i + 1) ps]

theorem verdict_recordAny (ask : A → List (Option Ordering) × Bool) (place : List Nat) (i : Nat) :
    ∀ ps : List (Formula A), (recordAny ask place i ps).verdict = holdsAny (fun a => (ask a).2) ps
  | [] => by simp only [recordAny, holdsAny]
  | p :: ps => by
    simp only [recordAny, holdsAny, Record.verdict_followIf_false, Record.verdict_settle,
      verdict_record ask _ p, verdict_recordAny ask place (i + 1) ps]

end

end Formula

end Refinement
