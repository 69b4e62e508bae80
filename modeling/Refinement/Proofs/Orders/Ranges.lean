import Refinement.Proofs.Orders.Boundaries
import Refinement.Proofs.Orders.Mirrors

/-!
# Ranges

A range accepts what is at least its lower and at most its upper bound. It is made of two comparisons
that know nothing of each other, so what makes ranges intervals is the comparator: it has to answer the
other way around when it is asked the other way around, and it has to be transitive. Nothing is asked of
values that cannot be compared.

* `Comparator.Consistent`: the comparators that are meant.
* `Comparator.larger`, `Comparator.smaller`: the bounds of two ranges at once.
* `RangeLaws`: the laws of ranges, however their bounds are written.
* `Comparator.Consistent.rangeLaws`: they hold wherever ranges are made of two comparisons.
* `Comparator.ranges_are_intervals`: they hold of comparisons with any values and of those with
  constants.
-/

namespace Refinement

open Comparator (IsLE)

/-! ## Consistent comparators -/

namespace Comparator

variable {α : Type} {o : Comparator α} {equal : α → α → Bool}

/-- A comparator answers the other way around for exchanged values, and is transitive. -/
structure Consistent (o : Comparator α) : Prop where
  swap : ∀ a b, o b a = (o a b).map Ordering.swap
  trans : ∀ {a b c}, IsLE (o a b) → IsLE (o b c) → IsLE (o a c)

theorem Lawful.consistent (h : o.Lawful equal) : o.Consistent := ⟨h.swap, h.isLE_trans⟩

/-- The larger of two values, the second if they are equal. -/
def larger (o : Comparator α) (a b : α) : α := if IsLE (o a b) then b else a

/-- The smaller of two values, the first if they are equal. -/
def smaller (o : Comparator α) (a b : α) : α := if IsLE (o a b) then a else b

namespace Consistent

protected theorem reversed (h : o.Consistent) : o.reversed.Consistent where
  swap a b := by
    unfold Comparator.reversed
    rw [h.swap a b]
  trans {a b c} hab hbc := by
    unfold Comparator.reversed at hab hbc ⊢
    rw [← h.swap] at hab hbc ⊢
    exact h.trans hbc hab

/-- A value is at least another if that is at most the value. -/
theorem admits_greaterOrEqual (h : o.Consistent) (a b : α) :
    Relation.greaterOrEqual.admits (o b a) = Relation.lessOrEqual.admits (o a b) := by
  rw [h.swap a b]
  exact Relation.admits_mirror .lessOrEqual (o a b)

section Total

variable (h : o.Consistent) (ht : o.IsTotal)

include h ht

theorem isLE_of_not {a b : α} (hab : ¬ IsLE (o a b)) : IsLE (o b a) := by
  have hne := ht a b
  rw [h.swap a b]
  rcases hr : o a b with _ | _ | _ | _
  · exact absurd hr hne
  · exact absurd (by rw [hr]; rfl) hab
  · exact absurd (by rw [hr]; rfl) hab
  · rfl

/-- What is above the larger of two values is above both. -/
theorem isLE_larger_iff {a b v : α} : IsLE (o (o.larger a b) v) ↔ IsLE (o a v) ∧ IsLE (o b v) := by
  unfold larger
  split
  · next hab => exact ⟨fun hv => ⟨h.trans hab hv, hv⟩, And.right⟩
  · next hab => exact ⟨fun hv => ⟨hv, h.trans (h.isLE_of_not ht hab) hv⟩, And.left⟩

/-- What is below the smaller of two values is below both. -/
theorem isLE_smaller_iff {a b v : α} :
    IsLE (o v (o.smaller a b)) ↔ IsLE (o v a) ∧ IsLE (o v b) := by
  unfold smaller
  split
  · next hab => exact ⟨fun hv => ⟨hv, h.trans hv hab⟩, And.left⟩
  · next hab => exact ⟨fun hv => ⟨h.trans hv (h.isLE_of_not ht hab), hv⟩, And.right⟩

end Total

end Consistent

end Comparator

/-! ## The laws of ranges -/

/-- The laws of the ranges of a comparator. Whatever bounds are written as, they have values; a range is
a formula, and so is the conjunction of two. -/
structure RangeLaws {α β A : Type} (o : Comparator α) (value : β → α) (range : β → β → Formula A)
    (accepts : Formula A → α → Bool) : Prop where
  /-- A range accepts what lies between its bounds. -/
  accepts_iff : ∀ lo hi v,
    accepts (range lo hi) v = true ↔ IsLE (o (value lo) v) ∧ IsLE (o v (value hi))
  /-- It accepts nothing unless its bounds ascend. -/
  inverted : ∀ lo hi v, ¬ IsLE (o (value lo) (value hi)) → accepts (range lo hi) v = false
  /-- If they do, it accepts every bound that is equal to itself. -/
  closed : ∀ lo hi, IsLE (o (value lo) (value hi)) → ∀ b ∈ [lo, hi],
    o (value b) (value b) = some .eq → accepts (range lo hi) (value b) = true
  /-- It accepts what lies between two values that it accepts. -/
  convex : ∀ lo hi u v w, accepts (range lo hi) u = true → accepts (range lo hi) w = true →
    IsLE (o u v) → IsLE (o v w) → accepts (range lo hi) v = true
  /-- A range whose bounds lie within those of another is part of it. -/
  contained : ∀ a b c d, IsLE (o (value c) (value a)) → IsLE (o (value b) (value d)) →
    ∀ v, accepts (range a b) v = true → accepts (range c d) v = true
  /-- The bounds of a range that is part of another lie within those of the other, if they ascend and
  are equal to themselves. -/
  within : ∀ a b c d, IsLE (o (value a) (value b)) → o (value a) (value a) = some .eq →
    o (value b) (value b) = some .eq →
    (∀ v, accepts (range a b) v = true → accepts (range c d) v = true) →
    IsLE (o (value c) (value a)) ∧ IsLE (o (value b) (value d))
  /-- What two ranges accept is a range if any two values can be compared. -/
  both : o.IsTotal → ∀ a b c d v, accepts (.and (range a b) (range c d)) v =
    accepts (range ((o.on value).larger a c) ((o.on value).smaller b d)) v

/-- The value of the larger of two bounds is the larger of their values. -/
theorem Comparator.apply_larger {α β : Type} (o : Comparator α) (value : β → α) (a b : β) :
    value ((o.on value).larger a b) = o.larger (value a) (value b) := by
  unfold larger
  rw [apply_ite value]
  rfl

theorem Comparator.apply_smaller {α β : Type} (o : Comparator α) (value : β → α) (a b : β) :
    value ((o.on value).smaller a b) = o.smaller (value a) (value b) := by
  unfold smaller
  rw [apply_ite value]
  rfl

/-- The laws hold if ranges are two comparisons with their bounds. -/
theorem Comparator.Consistent.rangeLaws {α β A : Type} {o : Comparator α} (h : o.Consistent)
    {value : β → α} {range : β → β → Formula A} {accepts : Formula A → α → Bool}
    (hrange : ∀ lo hi v, accepts (range lo hi) v =
      (Relation.greaterOrEqual.admits (o v (value lo)) &&
        Relation.lessOrEqual.admits (o v (value hi))))
    (hand : ∀ p q v, accepts (.and p q) v = (accepts p v && accepts q v)) :
    RangeLaws o value range accepts := by
  have hiff (lo hi : β) (v : α) :
      accepts (range lo hi) v = true ↔ IsLE (o (value lo) v) ∧ IsLE (o v (value hi)) := by
    rw [hrange, h.admits_greaterOrEqual, Bool.and_eq_true]
  refine ⟨hiff, ?inverted, ?closed, ?convex, ?contained, ?within, ?both⟩
  case inverted =>
    intro lo hi v hle
    rw [Bool.eq_false_iff]
    intro hv
    obtain ⟨hlo, hhi⟩ := (hiff lo hi v).1 hv
    exact hle (h.trans hlo hhi)
  case closed =>
    intro lo hi hle b hb heq
    have hself : IsLE (o (value b) (value b)) := isLE_iff.2 (.inr heq)
    refine (hiff lo hi (value b)).2 ?_
    obtain rfl | hb := List.mem_cons.1 hb
    · exact ⟨hself, hle⟩
    · obtain rfl := List.mem_singleton.1 hb
      exact ⟨hle, hself⟩
  case convex =>
    intro lo hi u v w hu hw huv hvw
    obtain ⟨hlo, -⟩ := (hiff lo hi u).1 hu
    obtain ⟨-, hhi⟩ := (hiff lo hi w).1 hw
    exact (hiff lo hi v).2 ⟨h.trans hlo huv, h.trans hvw hhi⟩
  case contained =>
    intro a b c d hca hbd v hv
    obtain ⟨hav, hvb⟩ := (hiff a b v).1 hv
    exact (hiff c d v).2 ⟨h.trans hca hav, h.trans hvb hbd⟩
  case within =>
    intro a b c d hab ha hb hall
    have hbounds (e : β) (hlo : IsLE (o (value a) (value e))) (hhi : IsLE (o (value e) (value b))) :
        IsLE (o (value c) (value e)) ∧ IsLE (o (value e) (value d)) :=
      (hiff c d (value e)).1 (hall (value e) ((hiff a b (value e)).2 ⟨hlo, hhi⟩))
    exact ⟨(hbounds a (isLE_iff.2 (.inr ha)) hab).1, (hbounds b hab (isLE_iff.2 (.inr hb))).2⟩
  case both =>
    intro ht a b c d v
    rw [hand, Bool.eq_iff_iff, Bool.and_eq_true, hiff, hiff, hiff, apply_larger o value,
      apply_smaller o value, h.isLE_larger_iff ht, h.isLE_smaller_iff ht]
    exact and_and_and_comm

/-! ## Ranges of values and of constants -/

/-- A constant that has a value at a scalar type. -/
structure Scalar.Bound (s : Scalar) where
  /-- The constant. -/
  constant : Constant
  /-- Its value. -/
  value : s.Val
  /-- The constant belongs to the type. -/
  value?_eq : constant.value? s = some value

namespace Scalar.Bound

variable {s : Scalar}

theorem answer?_eq (b : s.Bound) (o : NamedOrder) (v : s.Val) :
    (Facet.scalar s).answer? o b.constant v = o.comparator s v b.value := by
  rw [Facet.answer?, b.value?_eq, Option.bind_some]

theorem accepts_inRange (o : NamedOrder) (lo hi : s.Bound) (v : s.Val) :
    Predicate.accepts (.scalar s) (.atom (.inRange o lo.constant hi.constant)) v =
      (Relation.greaterOrEqual.admits (o.comparator s v lo.value) &&
        Relation.lessOrEqual.admits (o.comparator s v hi.value)) := by
  rw [← answer?_eq, ← answer?_eq]
  exact Marker.accepts_inRange (.scalar s) v o lo.constant hi.constant

end Scalar.Bound

namespace Comparator

/-- Ranges are the closed convex intervals of their comparator, which has to be consistent: those with
any values for bounds, those with constants, and those of characters. The natural order of every type
and all its reversals are consistent, and so is the reversal of every consistent comparator. -/
theorem ranges_are_intervals :
    (∀ (α : Type) (o : Order (Comparator α)), (o.comparator id).Consistent →
      RangeLaws (o.comparator id) id (fun lo hi => .atom (.inRange o lo hi))
        fun p v => (Audit.run p v).verdict) ∧
    (∀ (s : Scalar) (o : NamedOrder), (o.comparator s).Consistent →
      RangeLaws (o.comparator s) Scalar.Bound.value
        (fun lo hi => .atom (.inRange o lo.constant hi.constant)) (Predicate.accepts (.scalar s))) ∧
    RangeLaws (Scalar.key .char).natural Scalar.Bound.value
      (fun lo hi => .atom (.charRange lo.constant hi.constant))
      (Predicate.accepts (.scalar (.key .char))) ∧
    (∀ (t : Ty) (k : Nat), (t.ordering k).Consistent) ∧
    ∀ (α : Type) (o : Comparator α), o.Consistent → o.reversed.Consistent := by
  refine ⟨fun α o ho => ho.rangeLaws (fun lo hi v => ?_) fun p q v => ?_, fun s o ho => ?_, ?_,
    fun t k => (t.ordering_lawful k).consistent, fun α o ho => ho.reversed⟩
  · rw [Audit.verdict_run]
    rfl
  · simp only [Audit.verdict_run, Audit.condition, Condition.holds, Formula.bind, Formula.holds]
  · exact ho.rangeLaws (Scalar.Bound.accepts_inRange o) fun p q v => Predicate.accepts_and _ p q v
  · have hchar : (Scalar.key .char).natural.Consistent := (Scalar.natural_lawful _).consistent
    refine hchar.rangeLaws (fun lo hi v => ?_) fun p q v => Predicate.accepts_and _ p q v
    exact Scalar.Bound.accepts_inRange NamedOrder.natural lo hi v

/-- Numbers in descending order: the range from two down to one has two in it, ranges that ascend or
begin with what is not a number are empty. Characters: two ranges at once. -/
theorem ranges_are_intervals_numbers :
    let o : Order (Comparator (BinaryFloat .binary32)) := .reversed (.base BinaryFloat.natural)
    let one : BinaryFloat .binary32 := ⟨0x3F800000⟩
    let two : BinaryFloat .binary32 := ⟨0x40000000⟩
    let range : _ → _ → Audit (BinaryFloat .binary32) := fun lo hi => .atom (.inRange o lo hi)
    let bound : Char → (Scalar.key .char).Bound := fun c => ⟨.char c, c, rfl⟩
    let span : Char → Char → Predicate := fun a b =>
      .atom (.charRange (bound a).constant (bound b).constant)
    ((range two one).run two).verdict = true ∧
      (∀ v, ((range one two).run v).verdict = false) ∧
      (∀ v, ((range .nan one).run v).verdict = false) ∧
      ∀ v, Predicate.accepts (.scalar (.key .char)) (.and (span 'b' 'x') (span 'a' 'm')) v =
        Predicate.accepts (.scalar (.key .char)) (span 'b' 'm') v := by
  intro o one two range bound span
  obtain ⟨audits, -, chars, -, hreversed⟩ := ranges_are_intervals
  have ho : (o.comparator id).Consistent := hreversed _ _ BinaryFloat.natural_lawful.consistent
  have laws := audits (BinaryFloat .binary32) o ho
  have hlarger : ((Scalar.key .char).natural.on Scalar.Bound.value).larger (bound 'b') (bound 'a') =
      bound 'b' := if_neg (by decide)
  have hsmaller : ((Scalar.key .char).natural.on Scalar.Bound.value).smaller (bound 'x')
      (bound 'm') = bound 'm' := if_neg (by decide)
  refine ⟨?_, fun v => ?_, fun v => ?_, fun v => ?_⟩
  · exact laws.closed two one (by decide) two List.mem_cons_self (by decide)
  · exact laws.inverted one two v (by decide)
  · exact laws.inverted .nan one v (by decide)
  · have hboth := chars.both (Scalar.natural_isTotal (s := .key .char) rfl) (bound 'b') (bound 'x')
      (bound 'a') (bound 'm') v
    rwa [hlarger, hsmaller] at hboth

end Comparator

end Refinement
