import Refinement.Proofs.Orders.Boundaries
import Refinement.Proofs.Store.Soundness
import Refinement.Vocabulary.Abbreviation

/-!
# Values that cannot be compared

A value that cannot be compared with a bound of a comparison does not meet it. So the verdict on a value
that can be compared with no comparison of a predicate does not depend on the value any more: it is that
of the predicate with a falsehood in the place of each comparison. It may still be that the value is
accepted, by a negation or by the conjunction of nothing; without these the value is turned away, and
what is not a number never gets in.

* `Probe.Incomparable`, `Predicate.Incomparable`: the values that are meant.
* `Formula.isPositive`: predicates without negations and without empty conjunctions.
* `Formula.holds_false`: falsehoods alone do not make them true.
* `BinaryFloat.incomparable`: what is not a number is such a value.
* `Predicate.incomparable_never_accepted`: the verdict on such values, and numbers that were refined.
-/

namespace Refinement

/-! ## Predicates that need a truth -/

namespace Formula

variable {A : Type}

mutual

/-- Whether there are no negations and no empty conjunctions. -/
def isPositive : Formula A → Bool
  | .atom _ => true
  | .allOf ps => !ps.isEmpty && areAllPositive ps
  | .anyOf ps => areAllPositive ps
  | .and p q => p.isPositive && q.isPositive
  | .or p q => p.isPositive && q.isPositive
  | .not _ => false

/-- Whether this is so of all formulas of a list. -/
def areAllPositive : List (Formula A) → Bool
  | [] => true
  | p :: ps => p.isPositive && areAllPositive ps

end

mutual

/-- Falsehoods alone make no positive formula true. -/
theorem holds_false : ∀ p : Formula A, p.isPositive = true → (p.holds fun _ => false) = false
  | .atom _, _ => by simp only [holds]
  | .allOf [], h => by simp [isPositive] at h
  | .allOf (p :: ps), h => by
    simp only [isPositive, areAllPositive, Bool.and_eq_true] at h
    simp only [holds, holdsAll, holds_false p h.2.1, Bool.false_and]
  | .anyOf ps, h => by
    simp only [isPositive] at h
    simp only [holds]
    exact holdsAny_false ps h
  | .and p q, h => by
    simp only [isPositive, Bool.and_eq_true] at h
    simp only [holds, holds_false p h.1, Bool.false_and]
  | .or p q, h => by
    simp only [isPositive, Bool.and_eq_true] at h
    simp only [holds, holds_false p h.1, holds_false q h.2, Bool.or_self]

theorem holdsAny_false : ∀ ps : List (Formula A), areAllPositive ps = true →
    holdsAny (fun _ => false) ps = false
  | [], _ => by simp only [holdsAny]
  | p :: ps, h => by
    simp only [areAllPositive, Bool.and_eq_true] at h
    simp only [holdsAny, holds_false p h.1, holdsAny_false ps h.2, Bool.or_self]

end

end Formula

/-! ## Comparisons at any type -/

namespace Probe

variable {α : Type} {v : α}

/-- The probe is a comparison, and the value cannot be compared with one of its bounds. -/
def Incomparable (v : α) : Probe α → Prop
  | .silent _ => False
  | .compare _ o bound => o.comparator id v bound = none
  | .inRange o lo hi => o.comparator id v lo = none ∨ o.comparator id v hi = none

theorem holds_of_incomparable {p : Probe α} (h : p.Incomparable v) :
    p.condition.holds v = false := by
  cases p with
  | silent c => exact h.elim
  | compare r o bound =>
    have hnone : o.comparator id v bound = none := h
    simp only [condition, Condition.holds, Formula.holds, Atom.holds, hnone, Relation.admits_none]
  | inRange o lo hi =>
    rcases h with hnone | hnone <;>
      simp only [condition, Condition.holds, Formula.holds, Atom.holds, hnone,
        Relation.admits_none, Bool.false_and, Bool.and_false]

end Probe

theorem Audit.verdict_of_incomparable {α : Type} {p : Audit α} {v : α}
    (h : ∀ q ∈ p.atoms, q.Incomparable v) : (p.run v).verdict = p.holds fun _ => false := by
  rw [verdict_eq_holds]
  exact Formula.holds_congr p fun q hq => Probe.holds_of_incomparable (h q hq)

/-! ## Named comparisons -/

namespace Marker

variable {α : Type} {F : Facet α} {v : α}

/-- The marker is a comparison, and the value cannot be compared with one of its constants. -/
def Incomparable (F : Facet α) (v : α) : Marker → Prop
  | .compare _ o c => F.answer? o c v = none
  | .inRange o lo hi => F.answer? o lo v = none ∨ F.answer? o hi v = none
  | _ => False

theorem accepts_of_incomparable {m : Marker} (h : m.Incomparable F v) : m.accepts F v = false := by
  cases m with
  | compare r o c =>
    have hnone : F.answer? o c v = none := h
    rw [accepts_compare, hnone, Relation.admits_none]
  | inRange o lo hi =>
    rw [accepts_inRange]
    rcases h with hnone | hnone
    · rw [hnone, Relation.admits_none, Bool.false_and]
    · rw [hnone, Relation.admits_none, Bool.and_false]
  | _ => exact h.elim

end Marker

namespace Predicate

variable {α : Type} {F : Facet α} {p : Predicate} {v : α}

/-- All markers are comparisons, and of each there is a constant that the value cannot be compared
with. -/
def Incomparable (F : Facet α) (p : Predicate) (v : α) : Prop := ∀ m ∈ p.atoms, m.Incomparable F v

theorem accepts_of_incomparable (h : Incomparable F p v) :
    accepts F p v = p.holds fun _ => false := by
  rw [accepts_eq_holds]
  exact Formula.holds_congr p fun m hm => Marker.accepts_of_incomparable (h m hm)

/-- A positive predicate rejects what it cannot compare. -/
theorem rejects_of_incomparable (hp : p.isPositive = true) (h : Incomparable F p v) :
    (p.requirement F).accepts v = false :=
  (accepts_of_incomparable h).trans (Formula.holds_false p hp)

end Predicate

/-! ## What is not a number -/

namespace BinaryFloat

variable {f : FloatFormat} {x : BinaryFloat f}

/-- What is not a number can be compared with nothing, in the natural order and its reversals. -/
theorem comparator_of_isNaN (hx : x.isNaN = true) {o : NamedOrder} (ho : o.Wraps .natural)
    (y : BinaryFloat f) : o.comparator (.float f) x y = none := by
  induction o with
  | base b =>
    obtain rfl : b = .natural := ho
    exact natural_nan_left y hx
  | reversed o ih =>
    rw [NamedOrder.comparator_reversed, Comparator.reversed, ih ho, Option.map_none]

theorem answer?_of_isNaN (hx : x.isNaN = true) {o : NamedOrder} (ho : o.Wraps .natural)
    (c : Constant) : (Facet.scalar (.float f)).answer? o c x = none := by
  rw [Facet.answer?]
  cases c.value? (.float f) with
  | none => rfl
  | some y => exact comparator_of_isNaN hx ho y

end BinaryFloat

namespace Marker

/-- The marker is a comparison or a range in the natural order or in its reversals. -/
def ComparesNaturally : Marker → Prop
  | .compare _ o _ => o.Wraps .natural
  | .inRange o _ _ => o.Wraps .natural
  | _ => False

theorem incomparable_of_isNaN {f : FloatFormat} {x : BinaryFloat f} (hx : x.isNaN = true)
    {m : Marker} (hm : m.ComparesNaturally) : m.Incomparable (.scalar (.float f)) x := by
  cases m with
  | compare r o c => exact BinaryFloat.answer?_of_isNaN hx hm c
  | inRange o lo hi => exact .inl (BinaryFloat.answer?_of_isNaN hx hm lo)
  | _ => exact hm.elim

end Marker

/-- A predicate keeps out what is not a number: it is turned away by every constructor, after every
change and by the check of what was read, and no refined number is one. -/
structure Predicate.ExcludesNaN (f : FloatFormat) (p : Predicate) : Prop where
  /-- Every constructor gives back what is not a number. -/
  refine : ∀ (way : Entrance) (v : (Ty.scalar (.float f)).Val), BinaryFloat.isNaN v = true →
    way.refine ((Ty.scalar (.float f)).requirement p) v =
      .report (rejection p) (.error ⟨v, name p, description p⟩)
  /-- A change that leads to what is not a number fails. -/
  tryMap : ∀ (x : (Ty.refined (.scalar (.float f)) p).Val)
    (g : (Ty.scalar (.float f)).Val → (Ty.scalar (.float f)).Val),
    BinaryFloat.isNaN (g x.value) = true →
      Refined.tryMap x g = .report (rejection p) (.error ⟨g x.value, name p, description p⟩)
  /-- The check of a number that was read, at whatever depth, fails. -/
  check : ∀ v : (Ty.scalar (.float f)).Val, BinaryFloat.isNaN v = true →
    (Ty.scalar (.float f)).check p v = .report (rejection p)
      (.error (.data (.violation ((Ty.scalar (.float f)).violationMessage ⟨v, name p, description p⟩))))
  /-- What a text is read as is a number. -/
  read : ∀ (text : String) (x : (Ty.refined (.scalar (.float f)) p).Val),
    ((Ty.refined (.scalar (.float f)) p).ofJson text).result = .ok x →
      BinaryFloat.isNaN x.value = false
  /-- What a store holds is a number, whatever was done to it. -/
  run : ∀ (xs : List Operation) (a : Nat) (x : (Ty.refined (.scalar (.float f)) p).Val),
    (Store.run [] xs).result.2.slot a = .live (.refined (.scalar (.float f)) p) x →
      BinaryFloat.isNaN x.value = false
  /-- So is every refined value, also inside others. -/
  value : ∀ x : (Ty.refined (.scalar (.float f)) p).Val, BinaryFloat.isNaN x.value = false

namespace Predicate

variable {f : FloatFormat} {p : Predicate}

theorem excludesNaN (hp : p.isPositive = true)
    (h : ∀ v : BinaryFloat f, v.isNaN = true → Incomparable (.scalar (.float f)) p v) :
    ExcludesNaN f p := by
  have hrejects (v : (Ty.scalar (.float f)).Val) (hv : BinaryFloat.isNaN v = true) :
      ((Ty.scalar (.float f)).requirement p).accepts v = false :=
    rejects_of_incomparable hp (h v hv)
  have hrefine (v : (Ty.scalar (.float f)).Val) (hv : BinaryFloat.isNaN v = true) :=
    Requirement.refine_of_rejects (hrejects v hv)
  have hvalue (x : (Ty.refined (.scalar (.float f)) p).Val) : BinaryFloat.isNaN x.value = false := by
    rw [Bool.eq_false_iff]
    intro hx
    exact Bool.false_ne_true ((hrejects x.value hx).symm.trans x.accepted)
  refine ⟨fun way v hv => ?_, fun x g hx => hrefine (g x.value) hx, fun v hv => ?_,
    fun _ x _ => hvalue x, fun _ _ x _ => hvalue x, hvalue⟩
  · exact (Entrance.refine_eq way _ v).trans (hrefine v hv)
  · exact Ty.check_of_rejects (hrejects v hv)

/-- A value that cannot be compared with a bound of each comparison is accepted exactly if the predicate
is true of falsehoods. So it is turned away where there are no negations and no empty conjunctions. In
particular no number that was refined is what is not a number, if that cannot be compared with the
bounds; in the natural order, and in its reversals, it can be compared with nothing. -/
theorem incomparable_never_accepted :
    (∀ (α : Type) (p : Audit α) (v : α), (∀ q ∈ p.atoms, q.Incomparable v) →
      ((p.run v).verdict = p.holds fun _ => false) ∧
      (p.isPositive = true → ∀ r : Requirement α, r.accepts v = (p.run v).verdict →
        r.refine v = .report r.rejection (.error (r.violation v)))) ∧
    (∀ (α : Type) (F : Facet α) (p : Predicate) (v : α), Incomparable F p v →
      (accepts F p v = p.holds fun _ => false) ∧
      (p.isPositive = true → (p.requirement F).refine v =
        .report (rejection p) (.error ⟨v, name p, description p⟩))) ∧
    ∀ (f : FloatFormat) (p : Predicate), p.isPositive = true →
      ((∀ v : BinaryFloat f, v.isNaN = true → Incomparable (.scalar (.float f)) p v) →
        ExcludesNaN f p) ∧
      ((∀ m ∈ p.atoms, m.ComparesNaturally) → ExcludesNaN f p) := by
  refine ⟨fun α p v h => ⟨Audit.verdict_of_incomparable h, fun hp r hr => ?_⟩,
    fun α F p v h => ⟨accepts_of_incomparable h, fun hp => ?_⟩,
    fun f p hp => ⟨excludesNaN hp, fun hm => ?_⟩⟩
  · rw [Audit.verdict_of_incomparable h, Formula.holds_false p hp] at hr
    exact Requirement.refine_of_rejects hr
  · exact Requirement.refine_of_rejects (rejects_of_incomparable hp h)
  · exact excludesNaN hp fun v hv m hmem => Marker.incomparable_of_isNaN hv (hm m hmem)

/-- A sequence that cannot be compared with a bound because of what is not a number, and the predicates of
numbers above zero and of numbers other than zero. -/
theorem incomparable_never_accepted_nan :
    let o : Order (Comparator (List (BinaryFloat .binary32))) :=
      .reversed (.base (Comparator.lexicographic BinaryFloat.natural))
    let p : Audit (List (BinaryFloat .binary32)) :=
      .or (.atom (.compare .lessOrEqual o [.nan])) (.allOf [.atom (.inRange o [.zero] [])])
    let F : Facet (BinaryFloat .binary64) := .scalar (.float .binary64)
    (p.run [.nan, .zero]).verdict = false ∧ ExcludesNaN .binary64 positive ∧
      accepts F nonZero .nan = true := by
  intro o p F
  obtain ⟨audits, predicates, numbers⟩ := incomparable_never_accepted
  refine ⟨?_, ?_, ?_⟩
  · refine (audits _ p _ (List.forall_mem_cons.2 ⟨?_, List.forall_mem_singleton.2 ?_⟩)).1.trans rfl
    · rfl
    · exact .inl rfl
  · exact (numbers .binary64 positive rfl).2 (List.forall_mem_singleton.2 rfl)
  · exact (predicates _ F nonZero .nan (List.forall_mem_singleton.2 rfl)).1.trans rfl

end Predicate

end Refinement
