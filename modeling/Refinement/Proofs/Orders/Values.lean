import Refinement.Proofs.Orders.Laws
import Refinement.Ty.Order

/-!
# The orders of values

The natural order of every type of values is lawful, and total where no floating-point numbers are
inside; so are its reversals.

* `BinaryFloat.natural_lawful`: the two zeros are equal, and what is not a number can be compared
  with nothing.
* `Scalar.natural_lawful`, `Ty.natural_lawful`: the laws at every type.
* `Ty.natural_isTotal`: where any two values can be compared.
* `Ty.orders_lawful`: all of this, for the natural order reversed any number of times.
-/

namespace Refinement

open Comparator (IsLE)

/-! ## Scalars -/

theorem TotalOrder.ofTotal_lawful {α : Type} [DecidableEq α] (o : TotalOrder α) :
    (Comparator.ofTotal o.compare).Lawful fun a b => decide (a = b) where
  swap a b := congrArg some Std.OrientedCmp.eq_swap
  trans a b c hab hbc := by
    simp only [Comparator.ofTotal] at hab hbc ⊢
    rcases Comparator.isLE_iff.1 hab with h | h <;> rcases Comparator.isLE_iff.1 hbc with h' | h'
    · rw [h, Comparator.andThen_lt, Std.TransCmp.lt_trans (Option.some.inj h) (Option.some.inj h')]
    · obtain rfl := o.eq_of_compare (Option.some.inj h')
      rw [h, Comparator.andThen_lt]
    · obtain rfl := o.eq_of_compare (Option.some.inj h)
      rw [h, Comparator.andThen_eq]
    · obtain rfl := o.eq_of_compare (Option.some.inj h)
      rw [h, Comparator.andThen_eq]
  eq_iff a b := by
    simp only [Comparator.ofTotal, Option.some.injEq, decide_eq_true_eq]
    constructor
    · exact o.eq_of_compare
    · rintro rfl
      exact o.compare_self a

namespace BinaryFloat

variable {f : FloatFormat}

theorem natural_of_numbers {a b : BinaryFloat f} (ha : a.isNaN = false) (hb : b.isNaN = false) :
    natural a b = some (compare a.rank b.rank) := by
  simp [natural, ha, hb]

/-- Only numbers can be compared. -/
theorem isNaN_eq_false_of_natural {a b : BinaryFloat f} {r : Ordering}
    (h : natural a b = some r) : a.isNaN = false ∧ b.isNaN = false := by
  unfold natural at h
  split at h
  · cases h
  · next hn =>
    rw [Bool.not_eq_true, Bool.or_eq_false_iff] at hn
    exact hn

theorem bits_lt (x : BinaryFloat f) : x.bits.toNat < 2 * f.signBit := by
  have h := x.bits.isLt
  cases f with
  | binary32 => exact h
  | binary64 => exact h

/-- Two words have the same rank if they are the same or the two zeros. -/
theorem rank_eq_iff (a b : BinaryFloat f) :
    a.rank = b.rank ↔ a.bits = b.bits ∨ a.magnitude = 0 ∧ b.magnitude = 0 := by
  have ha := a.bits_lt
  have hb := b.bits_lt
  rw [← BitVec.toNat_inj]
  simp only [rank, negative, magnitude, decide_eq_true_eq]
  generalize a.bits.toNat = m at ha ⊢
  generalize b.bits.toNat = n at hb ⊢
  generalize f.signBit = s at ha hb ⊢
  have hm : m % s = if s ≤ m then m - s else m := by
    split
    · next h => rw [Nat.mod_eq_sub_mod h, Nat.mod_eq_of_lt (by omega)]
    · next h => exact Nat.mod_eq_of_lt (by omega)
  have hn : n % s = if s ≤ n then n - s else n := by
    split
    · next h => rw [Nat.mod_eq_sub_mod h, Nat.mod_eq_of_lt (by omega)]
    · next h => exact Nat.mod_eq_of_lt (by omega)
  rw [hm, hn]
  split <;> split <;> omega

/-- Numbers compare lawfully: the two zeros are equal, and what is not a number can be compared
with nothing. -/
theorem natural_lawful : (natural (f := f)).Lawful equal where
  swap a b := by
    by_cases hn : a.isNaN = false ∧ b.isNaN = false
    · rw [natural_of_numbers hn.2 hn.1, natural_of_numbers hn.1 hn.2]
      exact congrArg some Std.OrientedOrd.eq_swap
    · cases ha : a.isNaN with
      | true => simp [ha]
      | false =>
        have hb : b.isNaN = true := by simpa [ha] using hn
        simp [hb]
  trans a b c hab hbc := by
    have hlawful := (TotalOrder.ofOrd Int).ofTotal_lawful.on (rank (f := f))
    obtain ⟨ha, hb⟩ : a.isNaN = false ∧ b.isNaN = false := by
      rcases Comparator.isLE_iff.1 hab with h | h <;> exact isNaN_eq_false_of_natural h
    obtain ⟨-, hc⟩ : b.isNaN = false ∧ c.isNaN = false := by
      rcases Comparator.isLE_iff.1 hbc with h | h <;> exact isNaN_eq_false_of_natural h
    rw [natural_of_numbers ha hb] at hab ⊢
    rw [natural_of_numbers hb hc] at hbc ⊢
    rw [natural_of_numbers ha hc]
    exact hlawful.trans a b c hab hbc
  eq_iff a b := by
    by_cases hn : a.isNaN = false ∧ b.isNaN = false
    · rw [natural_of_numbers hn.1 hn.2, Option.some.injEq, Std.LawfulEqOrd.compare_eq_iff_eq,
        rank_eq_iff]
      simp [equal, isZero, hn.1, hn.2]
    · constructor
      · intro h
        exact absurd (isNaN_eq_false_of_natural h) hn
      · intro h
        simp only [equal, Bool.and_eq_true, Bool.not_eq_true'] at h
        exact absurd h.1 hn

end BinaryFloat

namespace Scalar

theorem natural_lawful : ∀ s : Scalar, s.natural.Lawful s.equal
  | .key k => k.order.ofTotal_lawful
  | .float _ => BinaryFloat.natural_lawful
  | .count => (Key.int .usize).order.ofTotal_lawful

theorem natural_isTotal {s : Scalar} (h : s.isTotal = true) : s.natural.IsTotal := by
  cases s with
  | key k => exact Comparator.IsTotal.ofTotal k.compare
  | float f => cases h
  | count => exact Comparator.IsTotal.ofTotal (IntKind.Val.compare (k := .usize))

end Scalar

/-! ## All types -/

mutual

/-- The natural order of every type is lawful. -/
theorem Ty.natural_lawful : ∀ t : Ty, t.natural.Lawful t.equal
  | .scalar s => s.natural_lawful
  | .list _ t => t.natural_lawful.lexicographic
  | .array t _ => t.natural_lawful.lexicographic.on Subtype.val
  | .set t => t.natural_lawful.lexicographic.on SortedMap.keys
  | .map k t => (k.natural_lawful.pair t.natural_lawful).lexicographic.on SortedMap.entries
  | .option t => by
    have hequal : (Ty.option t).equal = fun a b =>
        Present.equal t.equal (Present.ofOption a) (Present.ofOption b) := by
      funext a b
      cases a <;> cases b <;> rfl
    rw [hequal]
    exact t.natural_lawful.ofOption
  | .refined t _ => t.natural_lawful.on Refined.value
  | .present t => t.natural_lawful.present
  | .tuple r => r.natural_lawful
  | .record _ _ r => r.natural_lawful

/-- The same of the parts of tuples and records. -/
theorem Row.natural_lawful : ∀ r : Row, r.natural.Lawful r.equal
  | .nil => TotalOrder.unit.ofTotal_lawful
  | .cons _ t r => t.natural_lawful.pair r.natural_lawful

end

mutual

/-- Any two values can be compared where no floating-point numbers are inside. -/
theorem Ty.natural_isTotal : ∀ t : Ty, t.isTotal = true → t.natural.IsTotal
  | .scalar _, h => Scalar.natural_isTotal h
  | .list _ t, h => (t.natural_isTotal h).lexicographic
  | .array t _, h => (t.natural_isTotal h).lexicographic.on Subtype.val
  | .set t, h => (t.natural_isTotal h).lexicographic.on SortedMap.keys
  | .map k t, h => by
    obtain ⟨hk, ht⟩ := Bool.and_eq_true_iff.1 h
    exact ((k.natural_isTotal hk).pair (t.natural_isTotal ht)).lexicographic.on SortedMap.entries
  | .option t, h => (t.natural_isTotal h).ofOption
  | .refined t _, h => (t.natural_isTotal h).on Refined.value
  | .present t, h => (t.natural_isTotal h).present
  | .tuple r, h => r.natural_isTotal h
  | .record _ _ r, h => r.natural_isTotal h

/-- The same of the parts of tuples and records. -/
theorem Row.natural_isTotal : ∀ r : Row, r.isTotal = true → r.natural.IsTotal
  | .nil, _ => Comparator.IsTotal.ofTotal fun _ _ => .eq
  | .cons _ t r, h => by
    obtain ⟨ht, hr⟩ := Bool.and_eq_true_iff.1 h
    exact (t.natural_isTotal ht).pair (r.natural_isTotal hr)

end

namespace Ty

/-- The natural order of a type, reversed so many times. -/
def ordering (t : Ty) (k : Nat) : Comparator t.Val :=
  (Order.nested t.natural k).comparator id

theorem ordering_lawful (t : Ty) (k : Nat) : (t.ordering k).Lawful t.equal :=
  Order.nested_induction (motive := fun o => o.Lawful t.equal) t.natural t.natural_lawful
    t.natural_lawful.reversed k

theorem ordering_isTotal {t : Ty} (h : t.isTotal = true) (k : Nat) : (t.ordering k).IsTotal :=
  Order.nested_induction (motive := Comparator.IsTotal) t.natural (t.natural_isTotal h)
    (t.natural_isTotal h).reversed k

/-- The orders that predicates name are the reversals of the natural one. -/
theorem comparator_nested_natural (s : Scalar) (k : Nat) :
    NamedOrder.comparator s (Order.nested .natural k) = (scalar s).ordering k := by
  rw [NamedOrder.comparator, ordering, Order.comparator_nested, Order.comparator_nested]
  rfl

/-- Every order of values is lawful. The natural order, reversed any number of times, answers the
other way around for exchanged values; it is transitive, strictly where one step is strict; and it
finds values equal exactly when they are. Reversals count modulo two. Where no floating-point numbers
are inside, any two values can be compared. An uninitialized wrapper is below every other, refined
values compare as what they hold, and at scalars these are the orders that predicates name. -/
theorem orders_lawful (t : Ty) (k : Nat) :
    (∀ a b, t.ordering k b a = (t.ordering k a b).map Ordering.swap) ∧
    (∀ a b, t.ordering k b a = none ↔ t.ordering k a b = none) ∧
    (∀ a b c, IsLE (t.ordering k a b) → IsLE (t.ordering k b c) → IsLE (t.ordering k a c) ∧
      (t.ordering k a b = some .lt ∨ t.ordering k b c = some .lt → t.ordering k a c = some .lt)) ∧
    (∀ a b, t.ordering k a b = some .eq ↔ t.equal a b = true) ∧
    (∀ a b, t.ordering k a b =
      if k % 2 = 0 then t.natural a b else (t.natural a b).map Ordering.swap) ∧
    (t.isTotal = true → ∀ a b, t.ordering k a b ≠ none) ∧
    (∀ v : t.Val, (present t).natural Present.uninitialized (Present.holding v) = some .lt) ∧
    (∀ (p : Predicate) (x y : (refined t p).Val),
      (refined t p).natural x y = t.natural x.value y.value) ∧
    ∀ s : Scalar, NamedOrder.comparator s (Order.nested .natural k) = (scalar s).ordering k := by
  have h := t.ordering_lawful k
  refine ⟨h.swap, h.eq_none_iff, fun a b c hab hbc => ⟨h.isLE_trans hab hbc, h.lt_trans hab hbc⟩,
    h.eq_iff, fun a b => ?_, fun ht => ordering_isTotal ht k, fun v => rfl, natural_refined t,
    fun s => comparator_nested_natural s k⟩
  rw [ordering, Order.comparator_nested]
  split
  · rfl
  · rfl

/-- Lists of numbers under the reversed order: the first items decide between the first two, also
where what follows is not a number, and the length decides between the last two. Characters can be
compared under every reversal. -/
theorem orders_lawful_numbers :
    let t : Ty := .list .vector (.scalar (.float .binary32))
    let one : BinaryFloat .binary32 := ⟨0x3F800000⟩
    let two : BinaryFloat .binary32 := ⟨0x40000000⟩
    let a : t.Val := [two, .nan]
    let b : t.Val := [one, .nan]
    let c : t.Val := [one]
    (IsLE (t.ordering 1 a b) ∧ IsLE (t.ordering 1 b c) ∧ t.ordering 1 a b = some .lt) ∧
    IsLE (t.ordering 1 a c) ∧ t.ordering 1 a c = some .lt ∧
    char.isTotal = true ∧ char.ordering 3 'a' 'é' ≠ none := by
  intro t one two a b c
  have hab : t.ordering 1 a b = some .lt := by decide
  have hle : IsLE (t.ordering 1 a b) := by rw [hab]; rfl
  have hbc : IsLE (t.ordering 1 b c) := by decide
  obtain ⟨-, -, htrans, -⟩ := t.orders_lawful 1
  obtain ⟨hac, hstrict⟩ := htrans a b c hle hbc
  obtain ⟨-, -, -, -, -, htotal, -⟩ := char.orders_lawful 3
  exact ⟨⟨hle, hbc, hab⟩, hac, hstrict (.inl hab), rfl, htotal rfl 'a' 'é'⟩

end Ty

end Refinement
