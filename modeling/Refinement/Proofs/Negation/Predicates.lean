import Refinement.Proofs.Markers.Answers
import Refinement.Proofs.Negation.Conditions

/-!
# Predicates without negations

The negation of a comparison is a comparison the other way around, that of a bound on a number of
items a bound from the other side; only a client's predicates have none of their own. Values that
cannot be compared with a constant meet neither a comparison nor its negation, so what is gained by
pushing negations inwards is in general stronger than the predicate. It is the same where all
comparisons have an answer.

* `Marker.negation`: what stands for the negation of a marker.
* `Predicate.nnf`, `Predicate.dual`: a predicate, and its negation, with negations pushed inwards.
* `Marker.Negates`, `Marker.negates_negation`: the two laws at markers.
* `Predicate.nnf_dual_sound`: the two laws at predicates.
-/

namespace Refinement

namespace Constant

/-- The bound on a number of items that is larger by `d`, if there is one. -/
def shift? (c : Constant) (d : Int) : Option Constant :=
  (c.value? (.int .usize)).bind fun n => (IntKind.ofInt? .usize (n.toInt + d)).map (.int .usize)

variable {c e : Constant} {d : Int}

theorem of_shift?_eq_some (h : c.shift? d = some e) :
    ∃ n i : Nat, c.count? = some n ∧ e.count? = some i ∧ (i : Int) = n + d := by
  unfold shift? at h
  obtain ⟨n, hn, hmap⟩ := Option.bind_eq_some_iff.1 h
  obtain ⟨i, hi, rfl⟩ := Option.map_eq_some_iff.1 hmap
  have hsum : i.toInt = n.toInt + d := IntKind.ofInt?_eq_some_iff.1 hi
  have hnonneg : 0 ≤ n.toInt := n.min_le
  have hnonneg' : 0 ≤ i.toInt := i.min_le
  refine ⟨n.toInt.toNat, i.toInt.toNat, ?_, ?_, by omega⟩
  · rw [count?, hn, Option.map_some]
  · rw [count?, value?_int, Option.map_some]

theorem of_shift?_eq_none {n : Nat} (h : c.shift? d = none) (hn : c.count? = some n) :
    n ≤ IntKind.max .usize ∧ ¬(0 ≤ n + d ∧ n + d ≤ IntKind.max .usize) := by
  obtain ⟨k, hk, rfl⟩ := Option.map_eq_some_iff.1 hn
  have hnonneg : 0 ≤ k.toInt := k.min_le
  have hmax : k.toInt ≤ IntKind.max .usize := k.le_max
  refine ⟨by omega, fun hin => ?_⟩
  have hbounds : IntKind.min .usize ≤ k.toInt + d ∧ k.toInt + d ≤ IntKind.max .usize :=
    ⟨show 0 ≤ k.toInt + d by omega, by omega⟩
  rw [shift?, hk, Option.bind_some, Option.map_eq_none_iff, IntKind.ofInt?, dif_pos hbounds] at h
  cases h

end Constant

namespace Marker

open Formula (outside nowhere)

/-- What stands for the negation of a marker that is not a class of characters. -/
def ownNegation : Marker → Predicate
  | .compare r o c => r.negation (.compare · o c)
  | .inRange o lo hi => outside (.compare · o lo) (.compare · o hi)
  | .charEq c => outside (.compare · .natural c) (.compare · .natural c)
  | .charRange lo hi => outside (.compare · .natural lo) (.compare · .natural hi)
  | .maxCount c => ((c.shift? 1).map fun d => .atom (.minCount d)).getD nowhere
  | .minCount c => ((c.shift? (-1)).map fun d => .atom (.maxCount d)).getD nowhere
  | m => .not (.atom m)

/-- What stands for the negation of a marker. A class of characters is the combination that it
consists of. -/
def negation : Marker → Predicate
  | .charClass c => c.expansion.dual .atom ownNegation
  | m => m.ownNegation

/-- Whether a client declares the marker. -/
def isUser : Marker → Bool
  | .user _ => true
  | _ => false

end Marker

namespace Predicate

/-- The predicate with negations pushed inwards. -/
def nnf (p : Predicate) : Predicate := Formula.nnf Marker.expansion Marker.negation p

/-- The negation of the predicate with negations pushed inwards. -/
def dual (p : Predicate) : Predicate := Formula.dual Marker.expansion Marker.negation p

end Predicate

/-! ## Values that can be compared -/

namespace Marker

variable {α : Type} (F : Facet α) (v : α)

/-- Whether a value can be compared with all constants of a marker: they belong to its type, the
comparator has an answer, and numbers of items are machine numbers. -/
def Comparable : Marker → Prop
  | .charClass _ => F.isChar = true
  | .charEq c => F.isChar = true ∧ (F.answer? .natural c v).isSome = true
  | .charRange lo hi => F.isChar = true ∧ (F.answer? .natural lo v).isSome = true ∧
    (F.answer? .natural hi v).isSome = true
  | .compare _ o c => (F.answer? o c v).isSome = true
  | .inRange o lo hi => (F.answer? o lo v).isSome = true ∧ (F.answer? o hi v).isSome = true
  | .maxCount c => (∃ k, F.count? v = some k ∧ k ≤ IntKind.max .usize) ∧ c.count?.isSome = true
  | .minCount c => (∃ k, F.count? v = some k ∧ k ≤ IntKind.max .usize) ∧ c.count?.isSome = true
  | .user _ => True

end Marker

namespace Predicate

variable {α : Type} {F : Facet α} {v : α}

/-- Whether a value can be compared with all constants of a predicate. -/
def Comparable (F : Facet α) (p : Predicate) (v : α) : Prop :=
  ∀ m ∈ p.atoms, Marker.Comparable F v m

theorem Comparable.anyOf {ps : List Predicate} (h : ∀ p ∈ ps, Comparable F p v) :
    Comparable F (.anyOf ps) v := by
  unfold Comparable
  rw [Formula.atoms]
  induction ps with
  | nil =>
    rw [Formula.atomsOfList]
    exact fun m hm => absurd hm List.not_mem_nil
  | cons p ps ih =>
    obtain ⟨hp, hps⟩ := List.forall_mem_cons.1 h
    rw [Formula.atomsOfList]
    exact List.forall_mem_append.2 ⟨hp, ih hps⟩

end Predicate

namespace Marker

open Formula (StandsFor nowhere holds_nowhere standsFor_outside)

variable {α : Type} (F : Facet α) (v : α)

/-! ## The negations of markers -/

/-- A predicate stands for the negation of a marker: a value that meets it does not meet the marker,
and a value that can be compared meets one of the two. -/
abbrev Negates (m : Marker) (p : Predicate) : Prop :=
  StandsFor (accepts F v) p (!m.accepts F v) (m.Comparable F v)

theorem negates_not (m : Marker) : Negates F v m (.not (.atom m)) :=
  .of_eq (by simp only [Formula.holds])

theorem negates_compare (r : Relation) (o : NamedOrder) (c : Constant) :
    Negates F v (.compare r o c) (compare r o c).ownNegation := by
  unfold Negates
  rw [accepts_compare]
  exact r.standsFor_negation (compare · o c) fun r => accepts_compare F v r o c

theorem negates_inRange (o : NamedOrder) (lo hi : Constant) :
    Negates F v (.inRange o lo hi) (inRange o lo hi).ownNegation := by
  unfold Negates
  rw [accepts_inRange]
  exact standsFor_outside (compare · o lo) (compare · o hi) (fun r => accepts_compare F v r o lo)
    fun r => accepts_compare F v r o hi

theorem negates_charRange (lo hi : Constant) :
    Negates F v (.charRange lo hi) (charRange lo hi).ownNegation := by
  have h := negates_inRange F v .natural lo hi
  constructor
  · intro hp
    rw [accepts_charRange, Bool.not_and, h.sound hp, Bool.or_true]
  · rintro ⟨hF, hlo, hhi⟩
    rw [accepts_charRange, hF, Bool.true_and]
    exact h.complete ⟨hlo, hhi⟩

/-- A marker of a character is a range of one. -/
theorem negates_charEq (c : Constant) : Negates F v (.charEq c) (charEq c).ownNegation := by
  have hrange : (charEq c).accepts F v = (charRange c c).accepts F v := by
    rw [accepts_charEq, accepts_charRange, accepts_inRange, Relation.admits_equal]
  unfold Negates
  rw [hrange]
  exact (negates_charRange F v c c).under fun h => ⟨h.1, h.2, h.2⟩

/-- The negation of a bound on a number of items is the bound from the other side that is moved by
one, where there is such a bound; where there is none, every number of items is within the bound. -/
theorem negates_bound {m m' : Constant → Marker} {test test' : Nat → Nat → Bool} {d : Int}
    (hm : ∀ c, (m c).accepts F v = boundHolds test (F.count? v) c.count?)
    (hm' : ∀ c, (m' c).accepts F v = boundHolds test' (F.count? v) c.count?)
    (hcomparable : ∀ c, (m c).Comparable F v →
      (∃ k, F.count? v = some k ∧ k ≤ IntKind.max .usize) ∧ c.count?.isSome = true)
    (hmoved : ∀ k n i : Nat, i = n + d → test' k i = !test k n)
    (hnone : ∀ k n : Nat, k ≤ IntKind.max .usize → n ≤ IntKind.max .usize →
      ¬(0 ≤ n + d ∧ n + d ≤ IntKind.max .usize) → test k n = true)
    (c : Constant) : Negates F v (m c) (((c.shift? d).map fun e => .atom (m' e)).getD nowhere) := by
  cases hshift : c.shift? d with
  | none =>
    rw [Option.map_none, Option.getD_none]
    constructor
    · rw [holds_nowhere]
      exact fun h => absurd h Bool.false_ne_true
    · intro h
      obtain ⟨⟨k, hk, hle⟩, hc⟩ := hcomparable c h
      obtain ⟨n, hn⟩ := Option.isSome_iff_exists.1 hc
      obtain ⟨hmax, hout⟩ := Constant.of_shift?_eq_none hshift hn
      rw [holds_nowhere, hm, hk, hn]
      exact (congrArg (!·) (hnone k n hle hmax hout)).symm
  | some e =>
    obtain ⟨n, i, hn, hi, hmove⟩ := Constant.of_shift?_eq_some hshift
    rw [Option.map_some, Option.getD_some]
    constructor
    · rw [Formula.holds, hm', hm, hn, hi]
      cases F.count? v with
      | none => exact fun h => absurd h Bool.false_ne_true
      | some k => exact fun h => (hmoved k n i hmove).symm.trans h
    · intro h
      obtain ⟨⟨k, hk, -⟩, -⟩ := hcomparable c h
      rw [Formula.holds, hm', hm, hn, hi, hk]
      exact hmoved k n i hmove

theorem negates_maxCount (c : Constant) : Negates F v (.maxCount c) (maxCount c).ownNegation := by
  refine negates_bound F v (accepts_maxCount F v) (accepts_minCount F v) (fun _ h => h) ?_ ?_ c
  · intro k n i hi
    rw [← decide_not, decide_eq_decide]
    omega
  · intro k n hk hn hout
    rw [decide_eq_true_eq]
    omega

theorem negates_minCount (c : Constant) : Negates F v (.minCount c) (minCount c).ownNegation := by
  refine negates_bound F v (accepts_minCount F v) (accepts_maxCount F v) (fun _ h => h) ?_ ?_ c
  · intro k n i hi
    rw [← decide_not, decide_eq_decide]
    omega
  · intro k n hk hn hout
    rw [decide_eq_true_eq]
    omega

/-- What is put for the negation of a marker stands for it. -/
theorem negates_ownNegation (m : Marker) : Negates F v m m.ownNegation := by
  cases m with
  | charClass c => exact negates_not F v _
  | charEq c => exact negates_charEq F v c
  | charRange lo hi => exact negates_charRange F v lo hi
  | compare r o c => exact negates_compare F v r o c
  | inRange o lo hi => exact negates_inRange F v o lo hi
  | maxCount c => exact negates_maxCount F v c
  | minCount c => exact negates_minCount F v c
  | user m => exact negates_not F v _

/-! ## Classes of characters -/

theorem comparable_span {F : Facet α} (h : F.isChar = true) (v : α) (lo hi : Char) :
    Predicate.Comparable F (CharClass.span lo hi) v := by
  rcases F with ((_ | _ | _ | _) | _ | _) | _ | _
  case scalar.key.char => exact List.forall_mem_singleton.2 ⟨rfl, rfl, rfl⟩
  all_goals cases h

theorem comparable_single {F : Facet α} (h : F.isChar = true) (v : α) (c : Char) :
    Predicate.Comparable F (CharClass.single c) v := by
  rcases F with ((_ | _ | _ | _) | _ | _) | _ | _
  case scalar.key.char => exact List.forall_mem_singleton.2 ⟨rfl, rfl⟩
  all_goals cases h

/-- A character can be compared with all constants of a class. -/
theorem comparable_expansion {F : Facet α} (h : F.isChar = true) (v : α) (c : CharClass) :
    Predicate.Comparable F c.expansion v := by
  have hspan := comparable_span h v
  have hsingle := comparable_single h v
  cases c with
  | upper => exact hspan _ _
  | lower => exact hspan _ _
  | digit => exact hspan _ _
  | letter => exact .anyOf (by simp [hspan])
  | whitespace => exact .anyOf (by simp [hsingle])
  | alphaNumeric =>
    have hletter :
        Predicate.Comparable F (.anyOf [CharClass.span 'A' 'Z', CharClass.span 'a' 'z']) v :=
      .anyOf (by simp [hspan])
    exact .anyOf (by simp [hspan, hletter])

theorem negates_charClass (c : CharClass) : Negates F v (.charClass c) (charClass c).negation := by
  have hclass : c.expansion.holds (accepts F v) = (charClass c).accepts F v :=
    holds_expansion F v (.charClass c)
  have hatom (m : Marker) : StandsFor (accepts F v) (.atom m) (m.accepts F v) (m.Comparable F v) :=
    .of_eq (by simp only [Formula.holds])
  unfold Negates
  rw [← hclass]
  exact (Formula.nnf_dual_standFor hatom (negates_ownNegation F v) c.expansion).2.under
    fun h => comparable_expansion h v c

theorem negates_negation (m : Marker) : Negates F v m m.negation := by
  cases m with
  | charClass c => exact negates_charClass F v c
  | _ => exact negates_ownNegation F v _

/-! ## The negations that are left -/

theorem negatesOnly_expansion (m : Marker) : m.expansion.negatesOnly isUser = true := by
  rcases m with (_ | _ | _ | _ | _ | _) | _ | _ | _ | _ | _ | _ | _ <;> rfl

theorem negatesOnly_negation (m : Marker) : m.negation.negatesOnly isUser = true := by
  cases m with
  | charClass c => cases c <;> rfl
  | compare r o c => cases r <;> rfl
  | maxCount c =>
    show (Option.getD _ nowhere).negatesOnly isUser = true
    cases c.shift? 1 <;> rfl
  | minCount c =>
    show (Option.getD _ nowhere).negatesOnly isUser = true
    cases c.shift? (-1) <;> rfl
  | _ => rfl

end Marker

/-! ## Predicates -/

namespace Predicate

variable {α : Type}

theorem nnf_dual_standFor (F : Facet α) (p : Predicate) (v : α) :
    Formula.StandsFor (Marker.accepts F v) (nnf p) (accepts F p v) (Comparable F p v) ∧
      Formula.StandsFor (Marker.accepts F v) (dual p) (!accepts F p v) (Comparable F p v) := by
  rw [accepts_eq_holds]
  exact Formula.nnf_dual_standFor (fun m => .of_eq (Marker.holds_expansion F v m))
    (Marker.negates_negation F v) p

/-- Pushing negations inwards is sound. The dual of a predicate accepts only what the predicate
rejects, and its normal form only what it accepts; both laws are equivalences for values that can be
compared with all constants. Negations are left in front of a client's predicates alone. This is so of
the predicates that have names, and of comparisons with any values in any orders together with bounds
on any numbers of items, where negations are left in front of tests alone. -/
theorem nnf_dual_sound :
    (∀ (α : Type) (F : Facet α) (p : Predicate) (v : α),
      (accepts F (dual p) v = true → accepts F p v = false) ∧
      (accepts F (nnf p) v = true → accepts F p v = true) ∧
      (Comparable F p v →
        (accepts F (dual p) v = true ↔ accepts F p v = false) ∧
        (accepts F (nnf p) v = true ↔ accepts F p v = true)) ∧
      (nnf p).negatesOnly Marker.isUser = true ∧ (dual p).negatesOnly Marker.isUser = true) ∧
    ∀ (α : Type) (p : Audit α) (v : α),
      ((p.dual.run v).verdict = true → (p.run v).verdict = false) ∧
      ((p.nnf.run v).verdict = true → (p.run v).verdict = true) ∧
      (p.Comparable v →
        ((p.dual.run v).verdict = true ↔ (p.run v).verdict = false) ∧
        ((p.nnf.run v).verdict = true ↔ (p.run v).verdict = true)) ∧
      p.nnf.negatesOnly Probe.isTest = true ∧ p.dual.negatesOnly Probe.isTest = true := by
  constructor
  · intro α F p v
    obtain ⟨hnnf, hdual⟩ := nnf_dual_standFor F p v
    obtain ⟨hd, hn, hboth⟩ := hnnf.laws hdual
    rw [accepts_eq_holds F (nnf p), accepts_eq_holds F (dual p)]
    exact ⟨hd, hn, hboth,
      Formula.nnf_dual_negatesOnly Marker.negatesOnly_expansion Marker.negatesOnly_negation p⟩
  · intro α p v
    obtain ⟨hnnf, hdual⟩ := p.nnf_dual_standFor v
    obtain ⟨hd, hn, hboth⟩ := hnnf.laws hdual
    rw [p.nnf.verdict_eq_holds, p.dual.verdict_eq_holds]
    exact ⟨hd, hn, hboth, p.nnf_dual_negatesOnly⟩

/-- Texts of at most two characters, by a bound that no number of items exceeds and the negation of a
bound from below; and lists of at most one number that are not above another list, in the reverse of the
order of lists. Of each kind one that the dual accepts, and one that the normal form accepts. -/
theorem nnf_dual_sound_lengths :
    let F : Facet String := .scalar (.key .text)
    let number : Int → Constant := fun k => .int .usize (IntKind.wrap .usize k)
    let p : Predicate :=
      .allOf [.atom (.maxCount (number (IntKind.max .usize))), .not (.atom (.minCount (number 3)))]
    let o : Order (Comparator (List Nat)) :=
      .reversed (.base (Comparator.lexicographic (Comparator.ofTotal compare)))
    let q : Audit (List Nat) :=
      .not (.or (.atom (.compare .greater o [1, 2])) (.atom (.silent (.atom (.minCount List.length 2)))))
    ((accepts F (dual p) "abc" = true ∧ accepts F p "abc" = false) ∧
      (accepts F (nnf p) "ab" = true ∧ accepts F p "ab" = true) ∧
      Comparable F p "ab" ∧
      (accepts F (dual p) "ab" = true ↔ accepts F p "ab" = false) ∧
      (accepts F (nnf p) "ab" = true ↔ accepts F p "ab" = true)) ∧
    ((q.dual.run [1]).verdict = true ∧ (q.run [1]).verdict = false) ∧
      ((q.nnf.run [2]).verdict = true ∧ (q.run [2]).verdict = true) ∧
      q.Comparable [2, 0] ∧
      ((q.dual.run [2, 0]).verdict = true ↔ (q.run [2, 0]).verdict = false) ∧
      ((q.nnf.run [2, 0]).verdict = true ↔ (q.run [2, 0]).verdict = true) := by
  intro F number p o q
  obtain ⟨predicates, audits⟩ := nnf_dual_sound
  constructor
  · have hdual : accepts F (dual p) "abc" = true := by decide
    have hnnf : accepts F (nnf p) "ab" = true := by decide
    have hcomparable : Comparable F p "ab" :=
      List.forall_mem_cons.2 ⟨⟨⟨2, rfl, by decide⟩, rfl⟩,
        List.forall_mem_singleton.2 ⟨⟨2, rfl, by decide⟩, rfl⟩⟩
    obtain ⟨-, hsound, hexact, -⟩ := predicates String F p "ab"
    exact ⟨⟨hdual, (predicates String F p "abc").1 hdual⟩, ⟨hnnf, hsound hnnf⟩, hcomparable,
      hexact hcomparable⟩
  · have hdual : (q.dual.run [1]).verdict = true := rfl
    have hnnf : (q.nnf.run [2]).verdict = true := rfl
    have hcomparable : q.Comparable [2, 0] :=
      List.forall_mem_cons.2 ⟨rfl, List.forall_mem_singleton.2
        (List.forall_mem_singleton.2 (show ((2 : Nat) : Int) ≤ IntKind.max .usize by decide))⟩
    exact ⟨⟨hdual, (audits _ q [1]).1 hdual⟩, ⟨hnnf, (audits _ q [2]).2.1 hnnf⟩, hcomparable,
      (audits _ q [2, 0]).2.2.1 hcomparable⟩

/-- What is not a number is neither above zero nor, according to the dual, at most zero. -/
example :
    let F : Facet (BinaryFloat .binary64) := .scalar (.float .binary64)
    let p : Predicate := .atom (.compare .greater .natural .zero)
    accepts F p .nan = false ∧ accepts F (dual p) .nan = false := by decide

end Predicate

end Refinement
