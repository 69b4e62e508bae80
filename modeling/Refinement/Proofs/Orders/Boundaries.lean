import Refinement.Audit
import Refinement.Proofs.Markers.Answers
import Refinement.Proofs.Orders.Values
import Refinement.Satisfiable

/-!
# Verdicts change at constants only

A predicate that is built from comparisons with constants gives the same verdict on two values
between which none of its constants lies. The two values compare alike with every constant: what is
not between them is below both or above both, or can be compared with neither.

This needs an order in which values that can be compared with each other can be compared with the
same values. Total orders are of this kind, and so is that of floating-point numbers, where a constant
that is not a number can be compared with no value at all. Sequences of such numbers are not: the
first items of two sequences may settle what a constant leaves open between their second ones.

* `Comparator.Coherent`: orders of this kind.
* `Comparator.Lawful.answer_eq`: two values compare alike with what is not between them.
* `Ty.verdict_changes_at_constants`: two values get the same verdict.
-/

namespace Refinement

open Comparator (IsLE)

/-! ## Constants that are not between -/

namespace Comparator

variable {α : Type} {o : Comparator α} {equal : α → α → Bool}

/-- Values that can be compared with each other can be compared with the same values. -/
def Coherent (o : Comparator α) : Prop := ∀ a b c, o a b ≠ none → (o a c = none ↔ o b c = none)

/-- A value lies between two others, either of which it may be. -/
def Between (o : Comparator α) (v w b : α) : Prop := IsLE (o v b) ∧ IsLE (o b w)

theorem IsTotal.coherent (h : o.IsTotal) : o.Coherent :=
  fun a b c _ => iff_of_false (h a c) (h b c)

theorem IsLE.ne_none {r : Option Ordering} (h : IsLE r) : r ≠ none := by
  rintro rfl
  exact Bool.false_ne_true h

/-- Two values in ascending order compare alike with what is not between them. -/
theorem Lawful.answer_eq (h : o.Lawful equal) (ho : o.Coherent) {v w b : α} (hvw : IsLE (o v w))
    (hb : ¬ o.Between v w b) : o v b = o w b := by
  have hnone : o v b = none ↔ o w b = none := ho v w b hvw.ne_none
  -- What is not above the lower value is above the upper one.
  have above (hvb : IsLE (o v b)) : o w b = some .lt := by
    have hwb : o w b ≠ none := fun hn => hvb.ne_none (hnone.2 hn)
    have hbw : ¬ IsLE (o b w) := fun hbw => hb ⟨hvb, hbw⟩
    rw [h.swap w b] at hbw
    rcases hr : o w b with _ | _ | _ | _
    · exact absurd hr hwb
    · rfl
    · exact absurd (by rw [hr]; rfl) hbw
    · exact absurd (by rw [hr]; rfl) hbw
  rcases hr : o v b with _ | _ | _ | _
  · exact (hnone.1 hr).symm
  · exact (above (by rw [hr]; rfl)).symm
  · have hwb : o w b = some .lt := above (by rw [hr]; rfl)
    have hlt : o v b = some .lt := h.lt_trans hvw (by rw [hwb]; rfl) (.inr hwb)
    rw [hr] at hlt
    cases hlt
  · have hbv : o b v = some .lt := by rw [h.swap v b, hr]; rfl
    have hbw : o b w = some .lt := h.lt_trans (by rw [hbv]; rfl) hvw (.inl hbv)
    rw [h.swap b w, hbw]
    rfl

end Comparator

theorem BinaryFloat.natural_coherent {f : FloatFormat} : (natural (f := f)).Coherent := by
  intro a b c hab
  obtain ⟨r, hr⟩ := Option.ne_none_iff_exists'.1 hab
  obtain ⟨ha, hb⟩ := isNaN_eq_false_of_natural hr
  cases hc : c.isNaN with
  | true => rw [natural_nan_right a hc, natural_nan_right b hc]
  | false => simp [natural_of_numbers ha hc, natural_of_numbers hb hc]

theorem Scalar.natural_coherent (s : Scalar) : s.natural.Coherent := by
  cases s with
  | key k => exact (natural_isTotal (s := .key k) rfl).coherent
  | float f => exact BinaryFloat.natural_coherent
  | count => exact (natural_isTotal (s := .count) rfl).coherent

/-- The types in whose natural order the law holds. -/
theorem Ty.natural_coherent {t : Ty} (h : t.isTotal = true ∨ ∃ f, t = .scalar (.float f)) :
    t.natural.Coherent := by
  rcases h with h | ⟨f, rfl⟩
  · exact (t.natural_isTotal h).coherent
  · exact Scalar.natural_coherent (.float f)

/-! ## Reversals of one order -/

namespace Order

variable {α B : Type}

/-- The order is a basic one, reversed any number of times. -/
def Wraps (b : B) : Order B → Prop
  | .base b' => b' = b
  | .reversed o => o.Wraps b

/-- Values that compare alike in a basic order do so in its reversals. -/
theorem Wraps.comparator_eq {b : B} {o : Order B} (ho : o.Wraps b) (asks : B → Comparator α)
    {v w c : α} (h : asks b v c = asks b w c) :
    o.comparator asks v c = o.comparator asks w c := by
  induction o with
  | base b' =>
    obtain rfl : b' = b := ho
    exact h
  | reversed o ih =>
    rw [comparator_reversed]
    exact congrArg (Option.map Ordering.swap) (ih ho)

end Order

/-! ## Comparisons at any type -/

namespace Probe

variable {α : Type} {v w : α}

/-- The probe is a comparison in an order or in its reversals. -/
def Compares (o : Comparator α) : Probe α → Prop
  | .silent _ => False
  | .compare _ q _ => q.Wraps o
  | .inRange q _ _ => q.Wraps o

/-- The values that a probe compares with. -/
def bounds : Probe α → List α
  | .silent _ => []
  | .compare _ _ bound => [bound]
  | .inRange _ lo hi => [lo, hi]

theorem holds_eq_of_answers {o : Comparator α} {p : Probe α} (hp : p.Compares o)
    (h : ∀ b ∈ p.bounds, o v b = o w b) : p.condition.holds v = p.condition.holds w := by
  cases p with
  | silent c => exact hp.elim
  | compare r q bound =>
    have hbound := Order.Wraps.comparator_eq hp id (h bound List.mem_cons_self)
    simp only [condition, Condition.holds, Formula.holds, Atom.holds, hbound]
  | inRange q lo hi =>
    obtain ⟨hlo, hhi⟩ := List.forall_mem_cons.1 h
    replace hhi := List.forall_mem_singleton.1 hhi
    have hlow := Order.Wraps.comparator_eq hp id hlo
    have hhigh := Order.Wraps.comparator_eq hp id hhi
    simp only [condition, Condition.holds, Formula.holds, Atom.holds, hlow, hhigh]

end Probe

namespace Audit

variable {α : Type}

/-- All probes are comparisons in an order or in its reversals. -/
def Compares (o : Comparator α) (p : Audit α) : Prop := ∀ q ∈ p.atoms, q.Compares o

/-- The values that a predicate compares with. -/
def bounds (p : Audit α) : List α := p.atoms.flatMap Probe.bounds

theorem verdict_eq_of_answers {o : Comparator α} {p : Audit α} {v w : α} (hp : p.Compares o)
    (h : ∀ b ∈ p.bounds, o v b = o w b) : (p.run v).verdict = (p.run w).verdict := by
  rw [verdict_eq_holds, verdict_eq_holds]
  refine Formula.holds_congr p fun q hq => Probe.holds_eq_of_answers (hp q hq) fun b hb => ?_
  exact h b (List.mem_flatMap.2 ⟨q, hq, hb⟩)

end Audit

/-! ## Named comparisons -/

namespace Marker

variable {α : Type} {F : Facet α} {v w : α}

/-- The marker is a comparison in the natural order or in its reversals. -/
def Compares : Marker → Prop
  | .charClass _ | .charEq _ | .charRange .. => True
  | .compare _ o _ => o.Wraps .natural
  | .inRange o _ _ => o.Wraps .natural
  | .maxCount _ | .minCount _ | .user _ => False

theorem answer?_eq_of_wraps {o : NamedOrder} (ho : o.Wraps .natural) {c : Constant}
    (h : F.answer? .natural c v = F.answer? .natural c w) : F.answer? o c v = F.answer? o c w := by
  induction o with
  | base b =>
    obtain rfl : b = .natural := ho
    exact h
  | reversed o ih => rw [Facet.answer?_reversed, Facet.answer?_reversed, ih ho]

/-- The parts of a marker are comparisons, and none of them is a class. -/
theorem compares_of_mem_expansion {m n : Marker} (hm : m.Compares) (hn : n ∈ m.expansion.atoms) :
    n.Compares ∧ ∀ c, n ≠ .charClass c := by
  cases m with
  | charClass c =>
    rcases CharClass.isRun_of_mem_expansion hn with ⟨d, rfl⟩ | ⟨lo, hi, rfl⟩
    · refine ⟨trivial, fun c h => ?_⟩
      cases h
    · refine ⟨trivial, fun c h => ?_⟩
      cases h
  | _ =>
    obtain rfl := List.mem_singleton.1 hn
    refine ⟨hm, fun c h => ?_⟩
    cases h

/-- Two values that compare alike with the constants of a marker. -/
theorem accepts_eq_of_answers {m : Marker} (hm : m.Compares) (hclass : ∀ c, m ≠ .charClass c)
    (h : ∀ c ∈ m.constants, F.answer? .natural c v = F.answer? .natural c w) :
    m.accepts F v = m.accepts F w := by
  cases m with
  | charClass c => exact absurd rfl (hclass c)
  | charEq c => rw [accepts_charEq, accepts_charEq, h c List.mem_cons_self]
  | charRange lo hi =>
    obtain ⟨hlo, hhi⟩ := List.forall_mem_cons.1 h
    replace hhi := List.forall_mem_singleton.1 hhi
    rw [accepts_charRange, accepts_charRange, accepts_inRange, accepts_inRange, hlo, hhi]
  | compare r o c =>
    rw [accepts_compare, accepts_compare, answer?_eq_of_wraps hm (h c List.mem_cons_self)]
  | inRange o lo hi =>
    obtain ⟨hlo, hhi⟩ := List.forall_mem_cons.1 h
    replace hhi := List.forall_mem_singleton.1 hhi
    rw [accepts_inRange, accepts_inRange, answer?_eq_of_wraps hm hlo, answer?_eq_of_wraps hm hhi]
  | maxCount c => exact hm.elim
  | minCount c => exact hm.elim
  | user m => exact hm.elim

end Marker

namespace Predicate

/-- All markers are comparisons in the natural order or in its reversals. -/
def Compares (p : Predicate) : Prop := ∀ m ∈ p.atoms, m.Compares

/-- Classes of characters are spelled out, so that their bounds are among the constants. -/
theorem accepts_eq_of_answers {α : Type} {F : Facet α} {p : Predicate} {v w : α} (hp : Compares p)
    (h : ∀ c ∈ constants p, F.answer? .natural c v = F.answer? .natural c w) :
    accepts F p v = accepts F p w := by
  rw [← accepts_expand F p v, ← accepts_expand F p w, accepts_eq_holds, accepts_eq_holds]
  refine Formula.holds_congr (expand p) fun n hn => ?_
  obtain ⟨m, hm, hmem⟩ := mem_atoms_expand.1 hn
  obtain ⟨hcompares, hclass⟩ := Marker.compares_of_mem_expansion (hp m hm) hmem
  exact Marker.accepts_eq_of_answers hcompares hclass fun c hc => h c (List.mem_flatMap.2 ⟨n, hn, hc⟩)

end Predicate

/-! ## Verdicts -/

namespace Ty

/-- A verdict changes at a constant only. Two values between which no constant of a predicate lies, be
it one of them, get the same verdict: from comparisons with any values of a type, where the type is
totally ordered or one of floating-point numbers, and from the predicates that have names, at every
scalar type. -/
theorem verdict_changes_at_constants :
    (∀ t : Ty, (t.isTotal = true ∨ ∃ f, t = .scalar (.float f)) → ∀ p : Audit t.Val,
      p.Compares t.natural → ∀ v w, IsLE (t.natural v w) →
      (∀ b ∈ p.bounds, ¬ t.natural.Between v w b) → (p.run v).verdict = (p.run w).verdict) ∧
    ∀ (s : Scalar) (p : Predicate), p.Compares → ∀ v w : s.Val, IsLE (s.natural v w) →
      (∀ c ∈ p.constants, ∀ b, c.value? s = some b → ¬ s.natural.Between v w b) →
      p.accepts (.scalar s) v = p.accepts (.scalar s) w := by
  refine ⟨fun t ht p hp v w hvw hb => ?_, fun s p hp v w hvw hc => ?_⟩
  · exact Audit.verdict_eq_of_answers hp fun b hmem =>
      t.natural_lawful.answer_eq (natural_coherent ht) hvw (hb b hmem)
  · refine Predicate.accepts_eq_of_answers hp fun c hmem => ?_
    simp only [Facet.answer?, NamedOrder.comparator_natural]
    cases hval : c.value? s with
    | none => rfl
    | some b =>
      exact s.natural_lawful.answer_eq s.natural_coherent hvw (hc c hmem b hval)

/-- Letters above one that is a bound under the reversed order, and sequences of characters between
two others; the constant that is no character does not count. -/
theorem verdict_changes_at_constants_letters :
    let s : Scalar := .key .char
    let p : Predicate := .and (.atom (.charClass .letter))
      (.or (.not (.atom (.compare .greater (.reversed NamedOrder.natural) (.char 'b'))))
        (.atom (.compare .equal NamedOrder.natural (.bool true))))
    let t : Ty := .list .vector .char
    let q : Audit t.Val := .atom (.inRange (.reversed (.base t.natural)) ['z'] ['b', 'b'])
    (IsLE (s.natural 'c' 'y') ∧ p.accepts (.scalar s) 'c' = p.accepts (.scalar s) 'y') ∧
      IsLE (t.natural ['b', 'c'] ['y', 'a']) ∧
      (q.run ['b', 'c']).verdict = (q.run ['y', 'a']).verdict := by
  intro s p t q
  obtain ⟨audits, predicates⟩ := verdict_changes_at_constants
  have hs : IsLE (s.natural 'c' 'y') := by decide
  have hp : p.Compares := by
    refine List.forall_mem_cons.2 ⟨trivial, List.forall_mem_cons.2 ⟨rfl, ?_⟩⟩
    exact List.forall_mem_singleton.2 rfl
  have hconstants : ∀ c ∈ p.constants, ∀ b, c.value? s = some b → ¬ s.natural.Between 'c' 'y' b := by
    have hlist : p.constants = ['A', 'Z', 'a', 'z', 'b'].map Constant.char ++ [.bool true] := rfl
    rw [hlist]
    intro c hc b hb
    rcases List.mem_append.1 hc with hc | hc
    · obtain ⟨d, hd, rfl⟩ := List.mem_map.1 hc
      obtain rfl : d = b := Option.some.inj hb
      show ¬ (IsLE (s.natural 'c' d) ∧ IsLE (s.natural d 'y'))
      simp only [List.mem_cons, List.not_mem_nil, or_false] at hd
      obtain rfl | rfl | rfl | rfl | rfl := hd
      all_goals decide
    · obtain rfl := List.mem_singleton.1 hc
      cases hb
  have ht : IsLE (t.natural ['b', 'c'] ['y', 'a']) := by decide
  have hbounds : ∀ b ∈ q.bounds, ¬ t.natural.Between ['b', 'c'] ['y', 'a'] b := by
    refine List.forall_mem_cons.2 ⟨?_, List.forall_mem_singleton.2 ?_⟩
    · show ¬ (IsLE _ ∧ IsLE _)
      decide
    · show ¬ (IsLE _ ∧ IsLE _)
      decide
  exact ⟨⟨hs, predicates s p hp 'c' 'y' hs hconstants⟩, ht,
    audits t (.inl rfl) q (List.forall_mem_singleton.2 rfl) _ _ ht hbounds⟩

end Ty

end Refinement
