import Refinement.Formula

/-!
# Negations pushed inwards

A formula is rewritten so that its negations stand at the atoms: conjunctions and disjunctions are
exchanged below a negation, and every atom is replaced by a formula in its place, or by one for its
negation. Where these only imply what they stand for, so does the whole; where they are equivalent
to it, so is the whole.

* `Formula.nnf`, `Formula.dual`: the formula, and its negation, with negations pushed inwards.
* `Formula.nnf_dual_related`: every relation between verdicts that goes through the connectives
  goes from the atoms to the formula.
* `Formula.StandsFor`, `Formula.nnf_dual_standFor`: two such relations at once, the second of them
  under a condition.
* `Formula.nnf_dual_negatesOnly`: which negations are left.
-/

namespace Refinement.Formula

variable {A B : Type}

mutual

/-- The formula with negations pushed inwards, given what stands for an atom and what stands for its
negation. -/
def nnf (pos neg : A → Formula B) : Formula A → Formula B
  | .atom a => pos a
  | .allOf ps => .allOf (nnfList pos neg ps)
  | .anyOf ps => .anyOf (nnfList pos neg ps)
  | .and p q => .and (p.nnf pos neg) (q.nnf pos neg)
  | .or p q => .or (p.nnf pos neg) (q.nnf pos neg)
  | .not p => p.dual pos neg

/-- The negation of the formula with negations pushed inwards. -/
def dual (pos neg : A → Formula B) : Formula A → Formula B
  | .atom a => neg a
  | .allOf ps => .anyOf (dualList pos neg ps)
  | .anyOf ps => .allOf (dualList pos neg ps)
  | .and p q => .or (p.dual pos neg) (q.dual pos neg)
  | .or p q => .and (p.dual pos neg) (q.dual pos neg)
  | .not p => p.nnf pos neg

/-- The formulas of a list with negations pushed inwards. -/
def nnfList (pos neg : A → Formula B) : List (Formula A) → List (Formula B)
  | [] => []
  | p :: ps => p.nnf pos neg :: nnfList pos neg ps

/-- The negations of the formulas of a list with negations pushed inwards. -/
def dualList (pos neg : A → Formula B) : List (Formula A) → List (Formula B)
  | [] => []
  | p :: ps => p.dual pos neg :: dualList pos neg ps

end

/-! ## Truth -/

/-- A relation between verdicts that goes through the connectives. -/
structure Congruence (r : Bool → Bool → Prop) : Prop where
  refl : ∀ b, r b b
  and : ∀ {a b c d}, r a b → r c d → r (a && c) (b && d)
  or : ∀ {a b c d}, r a b → r c d → r (a || c) (b || d)

/-- The verdicts are the same. -/
theorem Congruence.eq : Congruence Eq where
  refl _ := rfl
  and := by rintro a _ c _ rfl rfl; rfl
  or := by rintro a _ c _ rfl rfl; rfl

/-- The first verdict implies the second. -/
theorem Congruence.implies : Congruence fun a b => a = true → b = true where
  refl _ := id
  and hab hcd h := by
    rw [Bool.and_eq_true] at h ⊢
    exact ⟨hab h.1, hcd h.2⟩
  or hab hcd h := by
    rw [Bool.or_eq_true] at h ⊢
    exact h.imp hab hcd

section Truth

variable {r : Bool → Bool → Prop} (hr : Congruence r) {f : A → Bool} {g : B → Bool}
  {pos neg : A → Formula B}

include hr

mutual

/-- A relation that goes through the connectives, and relates what stands for the atoms to them and
what stands for their negations to these, relates the rewritten formula to the formula and its dual
to the negation. -/
theorem nnf_dual_related : ∀ p : Formula A,
    (∀ a ∈ p.atoms, r ((pos a).holds g) (f a) ∧ r ((neg a).holds g) (!f a)) →
    r ((p.nnf pos neg).holds g) (p.holds f) ∧ r ((p.dual pos neg).holds g) (!p.holds f)
  | .atom a, h => by
    simp only [nnf, dual, holds]
    exact h a (by simp only [atoms, List.mem_singleton])
  | .allOf ps, h => by
    simp only [atoms] at h
    simp only [nnf, dual, holds]
    exact ⟨(nnf_dual_relatedList ps h).1.1, (nnf_dual_relatedList ps h).2.1⟩
  | .anyOf ps, h => by
    simp only [atoms] at h
    simp only [nnf, dual, holds]
    exact ⟨(nnf_dual_relatedList ps h).1.2, (nnf_dual_relatedList ps h).2.2⟩
  | .and p q, h => by
    simp only [atoms, List.forall_mem_append] at h
    obtain ⟨hp, hp'⟩ := nnf_dual_related p h.1
    obtain ⟨hq, hq'⟩ := nnf_dual_related q h.2
    simp only [nnf, dual, holds, Bool.not_and]
    exact ⟨hr.and hp hq, hr.or hp' hq'⟩
  | .or p q, h => by
    simp only [atoms, List.forall_mem_append] at h
    obtain ⟨hp, hp'⟩ := nnf_dual_related p h.1
    obtain ⟨hq, hq'⟩ := nnf_dual_related q h.2
    simp only [nnf, dual, holds, Bool.not_or]
    exact ⟨hr.or hp hq, hr.and hp' hq'⟩
  | .not p, h => by
    simp only [atoms] at h
    obtain ⟨hp, hp'⟩ := nnf_dual_related p h
    simp only [nnf, dual, holds, Bool.not_not]
    exact ⟨hp', hp⟩

theorem nnf_dual_relatedList : ∀ ps : List (Formula A),
    (∀ a ∈ atomsOfList ps, r ((pos a).holds g) (f a) ∧ r ((neg a).holds g) (!f a)) →
    (r (holdsAll g (nnfList pos neg ps)) (holdsAll f ps) ∧
      r (holdsAny g (nnfList pos neg ps)) (holdsAny f ps)) ∧
    (r (holdsAny g (dualList pos neg ps)) (!holdsAll f ps) ∧
      r (holdsAll g (dualList pos neg ps)) (!holdsAny f ps))
  | [], _ => by
    simp only [nnfList, dualList, holdsAll, holdsAny, Bool.not_true, Bool.not_false]
    exact ⟨⟨hr.refl _, hr.refl _⟩, hr.refl _, hr.refl _⟩
  | p :: ps, h => by
    simp only [atomsOfList, List.forall_mem_append] at h
    obtain ⟨hp, hp'⟩ := nnf_dual_related p h.1
    obtain ⟨⟨hall, hany⟩, hall', hany'⟩ := nnf_dual_relatedList ps h.2
    simp only [nnfList, dualList, holdsAll, holdsAny, Bool.not_and, Bool.not_or]
    exact ⟨⟨hr.and hp hall, hr.or hp hany⟩, hr.or hp' hall', hr.and hp' hany'⟩

end

end Truth

/-- A formula stands for a truth value: it is true only where that is, and under a condition it has
that value. -/
structure StandsFor (g : B → Bool) (p : Formula B) (truth : Bool) (condition : Prop) : Prop where
  /-- The formula is true only where the value is. -/
  sound : p.holds g = true → truth = true
  /-- Under the condition it is true wherever the value is. -/
  complete : condition → p.holds g = truth

namespace StandsFor

variable {g : B → Bool} {p q : Formula B} {truth : Bool} {condition condition' : Prop}

theorem of_eq (h : p.holds g = truth) : StandsFor g p truth condition := ⟨h.symm.trans, fun _ => h⟩

theorem under (h : StandsFor g p truth condition) (hc : condition' → condition) :
    StandsFor g p truth condition' :=
  ⟨h.sound, fun h' => h.complete (hc h')⟩

/-- What stands for the negation of a formula, and what stands for the formula. -/
theorem laws (hp : StandsFor g p truth condition) (hq : StandsFor g q (!truth) condition) :
    (q.holds g = true → truth = false) ∧ (p.holds g = true → truth = true) ∧
      (condition → (q.holds g = true ↔ truth = false) ∧ (p.holds g = true ↔ truth = true)) := by
  rw [← Bool.not_eq_true']
  refine ⟨hq.sound, hp.sound, fun h => ?_⟩
  rw [hq.complete h, hp.complete h]
  exact ⟨Iff.rfl, Iff.rfl⟩

end StandsFor

theorem nnf_dual_standFor {f : A → Bool} {g : B → Bool} {pos neg : A → Formula B} {C : A → Prop}
    (hpos : ∀ a, StandsFor g (pos a) (f a) (C a)) (hneg : ∀ a, StandsFor g (neg a) (!f a) (C a))
    (p : Formula A) :
    StandsFor g (p.nnf pos neg) (p.holds f) (∀ a ∈ p.atoms, C a) ∧
      StandsFor g (p.dual pos neg) (!p.holds f) (∀ a ∈ p.atoms, C a) := by
  have hsound := nnf_dual_related Congruence.implies (f := f) p
    fun a _ => ⟨(hpos a).sound, (hneg a).sound⟩
  have hcomplete (h : ∀ a ∈ p.atoms, C a) := nnf_dual_related Congruence.eq (f := f) p
    fun a ha => ⟨(hpos a).complete (h a ha), (hneg a).complete (h a ha)⟩
  exact ⟨⟨hsound.1, fun h => (hcomplete h).1⟩, ⟨hsound.2, fun h => (hcomplete h).2⟩⟩

/-! ## The negations that are left -/

mutual

/-- Whether negations stand only in front of atoms of the given kind. -/
def negatesOnly (kind : A → Bool) : Formula A → Bool
  | .atom _ => true
  | .allOf ps => negatesOnlyList kind ps
  | .anyOf ps => negatesOnlyList kind ps
  | .and p q => p.negatesOnly kind && q.negatesOnly kind
  | .or p q => p.negatesOnly kind && q.negatesOnly kind
  | .not (.atom a) => kind a
  | .not _ => false

/-- Whether this is so in all formulas of a list. -/
def negatesOnlyList (kind : A → Bool) : List (Formula A) → Bool
  | [] => true
  | p :: ps => p.negatesOnly kind && negatesOnlyList kind ps

end

section Negations

variable {kind : B → Bool} {pos neg : A → Formula B}

mutual

/-- All negations that are left are those in what stands for the atoms and their negations. -/
theorem nnf_dual_negatesOnly (hpos : ∀ a, (pos a).negatesOnly kind = true)
    (hneg : ∀ a, (neg a).negatesOnly kind = true) : ∀ p : Formula A,
    (p.nnf pos neg).negatesOnly kind = true ∧ (p.dual pos neg).negatesOnly kind = true
  | .atom a => by
    simp only [nnf, dual]
    exact ⟨hpos a, hneg a⟩
  | .allOf ps => by
    simp only [nnf, dual, negatesOnly]
    exact nnf_dual_negatesOnlyList hpos hneg ps
  | .anyOf ps => by
    simp only [nnf, dual, negatesOnly]
    exact nnf_dual_negatesOnlyList hpos hneg ps
  | .and p q => by
    simp only [nnf, dual, negatesOnly, nnf_dual_negatesOnly hpos hneg p,
      nnf_dual_negatesOnly hpos hneg q, Bool.and_self, and_self]
  | .or p q => by
    simp only [nnf, dual, negatesOnly, nnf_dual_negatesOnly hpos hneg p,
      nnf_dual_negatesOnly hpos hneg q, Bool.and_self, and_self]
  | .not p => by
    simp only [nnf, dual]
    exact (nnf_dual_negatesOnly hpos hneg p).symm

theorem nnf_dual_negatesOnlyList (hpos : ∀ a, (pos a).negatesOnly kind = true)
    (hneg : ∀ a, (neg a).negatesOnly kind = true) : ∀ ps : List (Formula A),
    negatesOnlyList kind (nnfList pos neg ps) = true ∧
      negatesOnlyList kind (dualList pos neg ps) = true
  | [] => by simp only [nnfList, dualList, negatesOnlyList, and_self]
  | p :: ps => by
    simp only [nnfList, dualList, negatesOnlyList, nnf_dual_negatesOnly hpos hneg p,
      nnf_dual_negatesOnlyList hpos hneg ps, Bool.and_self, and_self]

end

mutual

/-- Renaming the atoms moves no negation. -/
theorem negatesOnly_map (kind : B → Bool) (f : A → B) : ∀ p : Formula A,
    (p.map f).negatesOnly kind = p.negatesOnly fun a => kind (f a)
  | .atom _ => by simp only [map, bind, negatesOnly]
  | .allOf ps => by
    simp only [map, bind, negatesOnly]
    exact negatesOnlyList_map kind f ps
  | .anyOf ps => by
    simp only [map, bind, negatesOnly]
    exact negatesOnlyList_map kind f ps
  | .and p q => by
    have hp := negatesOnly_map kind f p
    have hq := negatesOnly_map kind f q
    simp only [map] at hp hq
    simp only [map, bind, negatesOnly, hp, hq]
  | .or p q => by
    have hp := negatesOnly_map kind f p
    have hq := negatesOnly_map kind f q
    simp only [map] at hp hq
    simp only [map, bind, negatesOnly, hp, hq]
  | .not (.atom _) | .not (.allOf _) | .not (.anyOf _) | .not (.and ..) | .not (.or ..)
  | .not (.not _) => by simp only [map, bind, negatesOnly]

theorem negatesOnlyList_map (kind : B → Bool) (f : A → B) : ∀ ps : List (Formula A),
    negatesOnlyList kind (bindList ps fun a => .atom (f a)) = negatesOnlyList (fun a => kind (f a)) ps
  | [] => by simp only [bindList, negatesOnlyList]
  | p :: ps => by
    have hp := negatesOnly_map kind f p
    simp only [map] at hp
    simp only [bindList, negatesOnlyList, hp, negatesOnlyList_map kind f ps]

end

end Negations

end Refinement.Formula
