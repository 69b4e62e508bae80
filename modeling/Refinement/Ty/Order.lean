import Refinement.Ty.Basic

/-!
# Comparing values

The natural order and equality at every value type, from those of the parts. A refined value
compares as the value it holds; an uninitialized wrapper comes before every other; sequences, sets
and maps compare from their first items on.

* `Ty.natural`: the natural order.
* `Ty.equal`: equality.
-/

namespace Refinement

mutual

/-- The natural order of a type. -/
def Ty.natural : (t : Ty) → Comparator t.Val
  | .scalar s => s.natural
  | .list _ t => Comparator.lexicographic t.natural
  | .array t _ => fun a b => Comparator.lexicographic t.natural a.val b.val
  | .set t => fun a b =>
    Comparator.lexicographic t.natural (SortedMap.keys a) (SortedMap.keys b)
  | .map k t => fun a b =>
    Comparator.lexicographic (Comparator.pair k.natural t.natural)
      (SortedMap.entries a) (SortedMap.entries b)
  | .option t => Comparator.ofOption t.natural
  | .refined t _ => fun a b => t.natural a.value b.value
  | .present t => Present.natural t.natural
  | .tuple r => r.natural
  | .record _ _ r => r.natural

/-- The natural order of the parts, the first that are not equal deciding. -/
def Row.natural : (r : Row) → Comparator r.Val
  | .nil => fun _ _ => some .eq
  | .cons _ t r => Comparator.pair t.natural r.natural

end

mutual

/-- Equality at a type. -/
def Ty.equal : (t : Ty) → t.Val → t.Val → Bool
  | .scalar s => s.equal
  | .list _ t => fun a b => List.isEqv a b t.equal
  | .array t _ => fun a b => List.isEqv a.val b.val t.equal
  | .set t => fun a b => List.isEqv (SortedMap.keys a) (SortedMap.keys b) t.equal
  | .map k t => fun a b =>
    List.isEqv (SortedMap.entries a) (SortedMap.entries b) fun x y =>
      k.equal x.1 y.1 && t.equal x.2 y.2
  | .option t => fun a b => match a, b with
    | none, none => true
    | some a, some b => t.equal a b
    | _, _ => false
  | .refined t _ => fun a b => t.equal a.value b.value
  | .present t => Present.equal t.equal
  | .tuple r => r.equal
  | .record _ _ r => r.equal

/-- Equality of all parts. -/
def Row.equal : (r : Row) → r.Val → r.Val → Bool
  | .nil => fun _ _ => true
  | .cons _ t r => fun a b => t.equal a.1 b.1 && r.equal a.2 b.2

end

namespace Ty

@[simp] theorem natural_refined (t : Ty) (p : Predicate) (a b : (Ty.refined t p).Val) :
    (Ty.refined t p).natural a b = t.natural a.value b.value := by
  simp only [natural]

@[simp] theorem equal_refined (t : Ty) (p : Predicate) (a b : (Ty.refined t p).Val) :
    (Ty.refined t p).equal a b = t.equal a.value b.value := by
  simp only [equal]

end Ty

end Refinement
