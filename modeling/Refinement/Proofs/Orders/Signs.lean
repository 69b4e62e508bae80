import Mathlib.Algebra.Order.Field.Rat
import Mathlib.Algebra.Order.Field.Power
import Refinement.Proofs.Orders.Incomparable
import Refinement.Vocabulary.Abbreviation

/-!
# Signs

The predicates of signs compare a value with zero. Where there is an answer, they divide the values into
those below zero, the zeros, and those above. What is not a number gets no answer: all comparisons turn
it away, and only the predicate that negates one of them lets it in.

* `Predicate.accepts_sign`: the verdict of a sign is read off the comparison with zero.
* `Predicate.SignsPartition`, `Predicate.SignsOf`: how the predicates of signs fit together, and which
  of them a number meets.
* `BinaryFloat.value`, `BinaryFloat.value_pos_iff`: the number that a finite word stands for, whose sign
  is that of its rank.
* `Predicate.signs_partition`: all numeric types.
-/

namespace Refinement

/-! ## Words and the numbers they stand for -/

namespace BinaryFloat

variable {f : FloatFormat}

/-- The significand with the sign. -/
def signedSignificand (x : BinaryFloat f) : Int :=
  if x.negative then -(x.significand : Int) else x.significand

/-- The number that a finite word stands for. -/
def value (x : BinaryFloat f) : ℚ := x.signedSignificand * 2 ^ x.exponent

theorem significand_eq_zero_iff (x : BinaryFloat f) : x.significand = 0 ↔ x.magnitude = 0 := by
  have hfraction : 0 < twoTo f.fractionBits := twoTo_pos _
  have hfield : x.exponentField ≠ 0 → x.magnitude ≠ 0 := by
    intro hne hzero
    exact hne (by simp [exponentField, hzero])
  unfold significand
  split
  · exact Iff.rfl
  · next hne =>
    have hmagnitude := hfield hne
    omega

theorem signedSignificand_pos_iff (x : BinaryFloat f) : 0 < x.signedSignificand ↔ 0 < x.rank := by
  have hzero := x.significand_eq_zero_iff
  unfold signedSignificand rank
  split <;> omega

theorem signedSignificand_neg_iff (x : BinaryFloat f) : x.signedSignificand < 0 ↔ x.rank < 0 := by
  have hzero := x.significand_eq_zero_iff
  unfold signedSignificand rank
  split <;> omega

/-- The power of two does not change the sign. -/
theorem value_pos_iff (x : BinaryFloat f) : 0 < x.value ↔ 0 < x.rank := by
  have hpower : (0 : ℚ) < 2 ^ x.exponent := zpow_pos (by decide) _
  rw [value, mul_pos_iff_of_pos_right hpower, Int.cast_pos, signedSignificand_pos_iff]

theorem value_neg_iff (x : BinaryFloat f) : x.value < 0 ↔ x.rank < 0 := by
  have hpower : (0 : ℚ) < 2 ^ x.exponent := zpow_pos (by decide) _
  rw [← not_le, value, mul_nonneg_iff_of_pos_right hpower, Int.cast_nonneg_iff, not_le,
    signedSignificand_neg_iff]

theorem value_eq_zero_iff (x : BinaryFloat f) : x.value = 0 ↔ x.rank = 0 := by
  have hpos := x.value_pos_iff
  have hneg := x.value_neg_iff
  grind

@[simp] theorem isNaN_zero : (zero (f := f)).isNaN = false := by
  cases f <;> decide

@[simp] theorem rank_zero : (zero (f := f)).rank = 0 := by
  cases f <;> decide

theorem magnitude_eq_zero_iff (x : BinaryFloat f) :
    x.magnitude = 0 ↔ x.bits.toNat = 0 ∨ x.bits.toNat = f.signBit := by
  have hbits := x.bits_lt
  unfold magnitude
  generalize x.bits.toNat = n at hbits ⊢
  generalize f.signBit = s at hbits ⊢
  by_cases h : n < s
  · rw [Nat.mod_eq_of_lt h]
    omega
  · rw [Nat.mod_eq_sub_mod (by omega), Nat.mod_eq_of_lt (by omega)]
    omega

/-- In a zero no bit is set but that of the sign. -/
theorem eq_signedZero_iff (x : BinaryFloat f) (negative : Bool) :
    x = ofMagnitude negative 0 ↔ x.bits.toNat = if negative then f.signBit else 0 := by
  have hwidth : f.signBit < 2 ^ f.width := by cases f <;> decide
  have hlt : (if negative then f.signBit else 0) < 2 ^ f.width := by split <;> omega
  obtain ⟨bits⟩ := x
  simp only [ofMagnitude, Nat.add_zero, mk.injEq, ← BitVec.toNat_inj, BitVec.toNat_ofNat,
    Nat.mod_eq_of_lt hlt]

/-- The words of rank zero are the two zeros. -/
theorem rank_eq_zero_iff (x : BinaryFloat f) :
    x.rank = 0 ↔ x = ofMagnitude false 0 ∨ x = ofMagnitude true 0 := by
  have hrank : x.rank = 0 ↔ x.magnitude = 0 := by
    unfold rank
    split <;> omega
  rw [hrank, magnitude_eq_zero_iff, eq_signedZero_iff, eq_signedZero_iff]
  simp

/-- A number other than the zeros lies on the side of its sign bit. -/
theorem rank_neg_iff (x : BinaryFloat f) : x.rank < 0 ↔ x.negative = true ∧ x.isZero = false := by
  have hzero : x.isZero = false ↔ x.magnitude ≠ 0 := decide_eq_false_iff_not
  rw [hzero]
  unfold rank
  cases x.negative with
  | false => simp
  | true => simp [Nat.pos_iff_ne_zero]

theorem rank_pos_iff (x : BinaryFloat f) : 0 < x.rank ↔ x.negative = false ∧ x.isZero = false := by
  have hzero : x.isZero = false ↔ x.magnitude ≠ 0 := decide_eq_false_iff_not
  rw [hzero]
  unfold rank
  cases x.negative with
  | false => simp [Nat.pos_iff_ne_zero]
  | true => simp

end BinaryFloat

/-! ## Comparisons with zero -/

namespace Facet

/-- An integer compares with zero as it does among all integers. -/
theorem answer?_zero_int (k : IntKind) (v : k.Val) :
    (Facet.scalar (.int k)).answer? .natural .zero v = some (compare v.toInt 0) := rfl

variable {f : FloatFormat} {x : BinaryFloat f}

/-- A number compares with zero as its rank does. -/
theorem answer?_zero_float (h : x.isNaN = false) :
    (Facet.scalar (.float f)).answer? .natural .zero x = some (compare x.rank 0) := by
  have hanswer := BinaryFloat.natural_of_numbers h (BinaryFloat.isNaN_zero (f := f))
  rwa [BinaryFloat.rank_zero] at hanswer

end Facet

namespace Predicate

variable {α : Type} {F : Facet α} {v : α}

/-- The verdict of a sign is read off the comparison with zero. -/
theorem accepts_sign (F : Facet α) (r : Relation) (v : α) :
    (sign r).accepts F v = r.admits (F.answer? .natural .zero v) := by
  rw [sign, accepts_eq_holds]
  exact Marker.accepts_compare F v r .natural .zero

theorem accepts_nonZero (F : Facet α) (v : α) : nonZero.accepts F v = !isZero.accepts F v := by
  rw [nonZero, accepts_not]

/-- The predicates of signs fit together: a value is below zero, zero or above it, and the weaker
predicates are the negations of these. -/
structure SignsPartition (F : Facet α) (v : α) : Prop where
  /-- Exactly one of the three accepts the value. -/
  exactlyOne : [negative, isZero, positive].countP (fun p => p.accepts F v) = 1
  /-- Zero or above is what is not below. -/
  nonNegative : nonNegative.accepts F v = !negative.accepts F v
  /-- Zero or below is what is not above. -/
  nonPositive : nonPositive.accepts F v = !positive.accepts F v
  /-- Anything but zero is what is above or below. -/
  nonZero : nonZero.accepts F v = (positive.accepts F v || negative.accepts F v)

/-- The predicates of signs treat a value as this number. -/
structure SignsOf {β : Type} [LT β] [Zero β] (F : Facet α) (v : α) (a : β) : Prop where
  negative : negative.accepts F v = true ↔ a < 0
  zero : isZero.accepts F v = true ↔ a = 0
  positive : positive.accepts F v = true ↔ 0 < a

/-- The predicates fit together wherever the comparison with zero has an answer. -/
theorem signsPartition_of_answer {o : Ordering} (h : F.answer? .natural .zero v = some o) :
    SignsPartition F v := by
  constructor <;>
    simp only [List.countP_cons, List.countP_nil, accepts_nonZero, negative, isZero, positive, nonNegative,
      nonPositive, accepts_sign, h] <;>
    cases o <;> rfl

/-- A value that compares with zero as an integer does has the sign of the integer. -/
theorem signsOf_of_answer {n : Int} (h : F.answer? .natural .zero v = some (compare n 0)) :
    SignsOf F v n := by
  have hsign (r : Relation) : (sign r).accepts F v = true ↔ r.Relates n 0 := by
    rw [accepts_sign, h, Relation.admits_compare]
  exact ⟨hsign .less, hsign .equal, hsign .greater⟩

/-- A word that is a number has the sign of the number it stands for. -/
theorem signsOf_value {f : FloatFormat} {x : BinaryFloat f} (h : x.isNaN = false) :
    SignsOf (.scalar (.float f)) x x.value := by
  obtain ⟨hnegative, hzero, hpositive⟩ := signsOf_of_answer (Facet.answer?_zero_float h)
  exact ⟨hnegative.trans x.value_neg_iff.symm, hzero.trans x.value_eq_zero_iff.symm,
    hpositive.trans x.value_pos_iff.symm⟩

/-- Without negative members, all members are zero or above. -/
theorem signs_unsigned {k : IntKind} (hk : k.signed = false) (v : k.Val) :
    negative.accepts (.scalar (.int k)) v = false ∧ nonNegative.accepts (.scalar (.int k)) v = true ∧
      nonZero.accepts (.scalar (.int k)) v = positive.accepts (.scalar (.int k)) v := by
  have hmin : k.min = 0 := by simp [IntKind.min, hk]
  have hle : 0 ≤ v.toInt := hmin ▸ v.min_le
  have hanswer := Facet.answer?_zero_int k v
  have hparts := signsPartition_of_answer hanswer
  have hnegative : negative.accepts (.scalar (.int k)) v = false := by
    rw [Bool.eq_false_iff, ne_eq, (signsOf_of_answer hanswer).negative]
    omega
  refine ⟨hnegative, ?_, ?_⟩
  · rw [hparts.nonNegative, hnegative]
    rfl
  · rw [hparts.nonZero, hnegative, Bool.or_false]

/-- What is not a number is turned away by every comparison with zero. -/
theorem signs_nan {f : FloatFormat} {x : BinaryFloat f} (h : x.isNaN = true) (r : Relation) :
    (sign r).accepts (.scalar (.float f)) x = false := by
  have hanswer : (Facet.scalar (.float f)).answer? .natural .zero x = none :=
    BinaryFloat.answer?_of_isNaN (o := .natural) h rfl .zero
  rw [accepts_sign, hanswer, Relation.admits_none]

/-- The predicates of signs divide the values of every numeric type. Integers of all widths are treated
as the integers they are, and where there are no negative ones, nothing is below zero. Numbers in
floating point are treated as the numbers that they stand for: only the two zeros are zero, and all
others, infinities and the numbers below the normal range included, lie on the side of their sign bit.
What is not a number meets none of the comparisons, and so it counts as anything but zero. -/
theorem signs_partition :
    (∀ (k : IntKind) (v : k.Val),
      SignsPartition (.scalar (.int k)) v ∧ SignsOf (.scalar (.int k)) v v.toInt) ∧
    (∀ k : IntKind, k.signed = false → ∀ v : k.Val,
      negative.accepts (.scalar (.int k)) v = false ∧
        nonNegative.accepts (.scalar (.int k)) v = true ∧
        nonZero.accepts (.scalar (.int k)) v = positive.accepts (.scalar (.int k)) v) ∧
    (∀ (f : FloatFormat) (x : BinaryFloat f), x.isNaN = false →
      SignsPartition (.scalar (.float f)) x ∧
      (x.isFinite = true → SignsOf (.scalar (.float f)) x x.value) ∧
      (isZero.accepts (.scalar (.float f)) x = true ↔
        x = BinaryFloat.ofMagnitude false 0 ∨ x = BinaryFloat.ofMagnitude true 0) ∧
      (negative.accepts (.scalar (.float f)) x = true ↔ x.negative = true ∧ x.isZero = false) ∧
      (positive.accepts (.scalar (.float f)) x = true ↔ x.negative = false ∧ x.isZero = false)) ∧
    ∀ (f : FloatFormat) (x : BinaryFloat f), x.isNaN = true →
      (∀ p ∈ [positive, negative, nonNegative, nonPositive, isZero],
        p.accepts (.scalar (.float f)) x = false) ∧
      nonZero.accepts (.scalar (.float f)) x = true := by
  refine ⟨fun k v => ?_, fun k hk v => signs_unsigned hk v, fun f x hx => ?_, fun f x hx => ?_⟩
  · have hanswer := Facet.answer?_zero_int k v
    exact ⟨signsPartition_of_answer hanswer, signsOf_of_answer hanswer⟩
  · have hanswer := Facet.answer?_zero_float hx
    obtain ⟨hnegative, hzero, hpositive⟩ := signsOf_of_answer hanswer
    exact ⟨signsPartition_of_answer hanswer, fun _ => signsOf_value hx,
      hzero.trans x.rank_eq_zero_iff, hnegative.trans x.rank_neg_iff, hpositive.trans x.rank_pos_iff⟩
  · constructor
    · simp only [List.forall_mem_cons, positive, negative, nonNegative, nonPositive, isZero,
        signs_nan hx, List.not_mem_nil, false_implies, implies_true, and_self]
    · rw [accepts_nonZero, isZero, signs_nan hx]
      rfl

/-- The least of the short signed integers, an unsigned one beyond all signed ones of its width, the
negative number next to zero, the negative zero, an infinity, and a word that is not a number and has its
sign bit set. -/
theorem signs_partition_extremes :
    let least : IntKind.Val .i8 := IntKind.wrap .i8 (-128)
    let great : IntKind.Val .u8 := IntKind.wrap .u8 200
    let next : BinaryFloat .binary32 := .ofMagnitude true 1
    let endless : BinaryFloat .binary64 := .ofMagnitude true (FloatFormat.infinity .binary64)
    let odd : BinaryFloat .binary64 := .ofMagnitude true (FloatFormat.infinity .binary64 + 1)
    negative.accepts (.scalar (.int .i8)) least = true ∧
      negative.accepts (.scalar (.int .u8)) great = false ∧
      (next.value < 0 ∧ negative.accepts (.scalar (.float .binary32)) next = true) ∧
      isZero.accepts (.scalar (.float .binary32)) (.ofMagnitude true 0) = true ∧
      negative.accepts (.scalar (.float .binary64)) endless = true ∧
      (odd.isNaN = true ∧ nonZero.accepts (.scalar (.float .binary64)) odd = true) := by
  intro least great next endless odd
  obtain ⟨integers, unsigned, numbers, others⟩ := signs_partition
  have hodd : odd.isNaN = true := by decide
  obtain ⟨-, hvalue, -, hnext, -⟩ := numbers .binary32 next (by decide)
  obtain ⟨-, -, hzero, -⟩ := numbers .binary32 (.ofMagnitude true 0) (by decide)
  obtain ⟨-, -, -, hendless, -⟩ := numbers .binary64 endless (by decide)
  have hbelow : negative.accepts (.scalar (.float .binary32)) next = true := hnext.2 (by decide)
  exact ⟨(integers .i8 least).2.negative.2 (by decide), (unsigned .u8 rfl great).1,
    ⟨(hvalue (by decide)).negative.1 hbelow, hbelow⟩, hzero.2 (.inr rfl), hendless.2 (by decide),
    hodd, (others .binary64 odd hodd).2⟩

end Predicate

end Refinement
