import Refinement.Proofs.Evaluation.Trial

/-!
# Lists of parts as chains of pairs

A conjunction or disjunction of a list may be written with the combinations of two formulas alone,
chained to the right or to the left. At each place of a formula the side may be another one.

* `Formula.chained`: the formula without lists of parts.
* `Formula.isBinary_chained`: only empty lists are left in it.
* `Formula.trial_chained`: it makes the same checks in the same order, panics where the formula
  does, and has the same verdict.
* `Formula.lists_as_pairs`: this together with where the trial of a list of parts ends.
-/

namespace Refinement.Formula

/-- The side to which a chain grows. -/
inductive Side where
  | left
  | right
deriving DecidableEq, Repr

variable {φ A : Type}

/-- A combination of two chained over the formulas from `p` on. -/
def chain (join : Formula A → Formula A → Formula A) : Side → Formula A → List (Formula A) →
    Formula A
  | _, p, [] => p
  | .right, p, q :: qs => join p (chain join .right q qs)
  | .left, p, q :: qs => chain join .left (join p q) qs

/-- A list of formulas as a chain; the empty list stays, and a single formula stands for itself. -/
def ofList (nothing : Formula A) (join : Formula A → Formula A → Formula A) (s : Side) :
    List (Formula A) → Formula A
  | [] => nothing
  | p :: ps => chain join s p ps

mutual

/-- The formula with all lists of parts chained, to the side that is given for their place. -/
def chained (side : List Nat → Side) (place : List Nat) : Formula A → Formula A
  | .atom a => .atom a
  | .allOf ps => ofList (.allOf []) .and (side place) (chainedList side place 0 ps)
  | .anyOf ps => ofList (.anyOf []) .or (side place) (chainedList side place 0 ps)
  | .and p q => .and (p.chained side (place ++ [0])) (q.chained side (place ++ [1]))
  | .or p q => .or (p.chained side (place ++ [0])) (q.chained side (place ++ [1]))
  | .not p => .not (p.chained side (place ++ [0]))

/-- The formulas of a list, from the part number `i` on, with all lists in them chained. -/
def chainedList (side : List Nat → Side) (place : List Nat) (i : Nat) :
    List (Formula A) → List (Formula A)
  | [] => []
  | p :: ps => p.chained side (place ++ [i]) :: chainedList side place (i + 1) ps

end

/-- Whether all lists of parts are empty. -/
def isBinary : Formula A → Bool
  | .atom _ => true
  | .allOf ps => ps.isEmpty
  | .anyOf ps => ps.isEmpty
  | .and p q => p.isBinary && q.isBinary
  | .or p q => p.isBinary && q.isBinary
  | .not p => p.isBinary

/-! ## No lists are left -/

section Binary

variable {join : Formula A → Formula A → Formula A}

theorem isBinary_chain (hj : ∀ p q, (join p q).isBinary = (p.isBinary && q.isBinary)) (s : Side)
    {p : Formula A} {ps : List (Formula A)} (h : ∀ q ∈ p :: ps, q.isBinary = true) :
    (chain join s p ps).isBinary = true := by
  induction ps generalizing p with
  | nil =>
    rw [chain]
    exact h p List.mem_cons_self
  | cons q qs ih =>
    obtain ⟨hp, hqs⟩ := List.forall_mem_cons.1 h
    obtain ⟨hq, hrest⟩ := List.forall_mem_cons.1 hqs
    cases s with
    | right => rw [chain, hj, hp, ih hqs, Bool.and_self]
    | left =>
      rw [chain]
      refine ih (List.forall_mem_cons.2 ⟨?_, hrest⟩)
      rw [hj, hp, hq, Bool.and_self]

theorem isBinary_ofList {nothing : Formula A} (hn : nothing.isBinary = true)
    (hj : ∀ p q, (join p q).isBinary = (p.isBinary && q.isBinary)) (s : Side)
    {ps : List (Formula A)} (h : ∀ q ∈ ps, q.isBinary = true) :
    (ofList nothing join s ps).isBinary = true := by
  cases ps with
  | nil => exact hn
  | cons p ps => exact isBinary_chain hj s h

end Binary

mutual

/-- Chaining leaves no list of parts but the empty one. -/
theorem isBinary_chained (side : List Nat → Side) (place : List Nat) :
    ∀ p : Formula A, (p.chained side place).isBinary = true
  | .atom _ => by simp only [chained, isBinary]
  | .allOf ps => by
    rw [chained]
    exact isBinary_ofList rfl (fun _ _ => by rw [isBinary]) _ (isBinary_chainedList side place 0 ps)
  | .anyOf ps => by
    rw [chained]
    exact isBinary_ofList rfl (fun _ _ => by rw [isBinary]) _ (isBinary_chainedList side place 0 ps)
  | .and p q => by
    rw [chained, isBinary, isBinary_chained side _ p, isBinary_chained side _ q, Bool.and_self]
  | .or p q => by
    rw [chained, isBinary, isBinary_chained side _ p, isBinary_chained side _ q, Bool.and_self]
  | .not p => by rw [chained, isBinary, isBinary_chained side _ p]

theorem isBinary_chainedList (side : List Nat → Side) (place : List Nat) (i : Nat) :
    ∀ ps : List (Formula A), ∀ q ∈ chainedList side place i ps, q.isBinary = true
  | [] => by
    rw [chainedList]
    exact fun q hq => absurd hq List.not_mem_nil
  | p :: ps => by
    rw [chainedList]
    exact List.forall_mem_cons.2
      ⟨isBinary_chained side _ p, isBinary_chainedList side place (i + 1) ps⟩

end

/-! ## The same trials -/

section Trials

variable {check : A → Except φ Bool} {join : Formula A → Formula A → Formula A} {v : Bool}

/-- The trial of a chain is that of the list. -/
theorem trial_chain
    (hj : ∀ p q, (join p q).trial check = (p.trial check).followIf v (q.trial check)) (s : Side)
    (p : Formula A) (ps : List (Formula A)) :
    (chain join s p ps).trial check = Trial.sequence v ((p :: ps).map (trial check)) := by
  induction ps generalizing p with
  | nil =>
    rw [chain, List.map_singleton]
    exact (Trial.sequence_singleton v _).symm
  | cons q qs ih =>
    cases s with
    | right =>
      rw [chain, hj, ih q]
      rfl
    | left =>
      -- the first two parts are one part of the chain, and two of the list
      rw [chain, ih (join p q)]
      simp only [List.map_cons, Trial.sequence, hj, Trial.followIf_assoc]

theorem trial_ofList {nothing : Formula A} (hn : nothing.trial check = .settled v)
    (hj : ∀ p q, (join p q).trial check = (p.trial check).followIf v (q.trial check)) (s : Side)
    (ps : List (Formula A)) :
    (ofList nothing join s ps).trial check = Trial.sequence v (ps.map (trial check)) := by
  cases ps with
  | nil => exact hn
  | cons p ps => exact trial_chain hj s p ps

end Trials

mutual

/-- A formula with its lists chained has the same trial. -/
theorem trial_chained (check : A → Except φ Bool) (side : List Nat → Side) (place : List Nat) :
    ∀ p : Formula A, (p.chained side place).trial check = p.trial check
  | .atom _ => by rw [chained]
  | .allOf ps => by
    rw [chained, trial_ofList (v := true) (by simp only [trial, trialAll])
      (fun _ _ => by rw [trial]), trials_chainedList check side place 0 ps, trial_allOf]
  | .anyOf ps => by
    rw [chained, trial_ofList (v := false) (by simp only [trial, trialAny])
      (fun _ _ => by rw [trial]), trials_chainedList check side place 0 ps, trial_anyOf]
  | .and p q => by
    simp only [chained, trial, trial_chained check side _ p, trial_chained check side _ q]
  | .or p q => by
    simp only [chained, trial, trial_chained check side _ p, trial_chained check side _ q]
  | .not p => by simp only [chained, trial, trial_chained check side _ p]

theorem trials_chainedList (check : A → Except φ Bool) (side : List Nat → Side)
    (place : List Nat) (i : Nat) : ∀ ps : List (Formula A),
    (chainedList side place i ps).map (trial check) = ps.map (trial check)
  | [] => by rw [chainedList]
  | p :: ps => by
    rw [chainedList, List.map_cons, List.map_cons, trial_chained check side _ p,
      trials_chainedList check side place (i + 1) ps]

end

example (p q r : A) :
    (allOf [.atom p, .atom q, .anyOf [.atom r]]).chained (fun _ => .left) [] =
      .and (.and (.atom p) (.atom q)) (.atom r) := rfl

/-! ## Where the trial of a list ends -/

section Lists

variable {check : A → Except φ Bool} {v : Bool}

theorem sequence_map_of_forall {ps : List (Formula A)}
    (h : ∀ q ∈ ps, (q.trial check).result = .ok v) :
    Trial.sequence v (ps.map (trial check)) =
      ⟨ps.flatMap fun q => (q.trial check).events, .ok v⟩ := by
  rw [Trial.sequence_of_forall (List.forall_mem_map.2 h), List.flatMap_map]

theorem sequence_map_of_stops {before : List (Formula A)} {p : Formula A}
    (h : ∀ q ∈ before, (q.trial check).result = .ok v) (hp : (p.trial check).result ≠ .ok v)
    (after : List (Formula A)) :
    Trial.sequence v ((before ++ p :: after).map (trial check)) =
      ⟨before.flatMap (fun q => (q.trial check).events) ++ (p.trial check).events,
        (p.trial check).result⟩ := by
  rw [List.map_append, List.map_cons, Trial.sequence_of_stops (List.forall_mem_map.2 h) hp,
    List.flatMap_map]

end Lists

/-- Lists of parts and pairs of parts are two ways to write one evaluation. Checks that do not panic
give the truth of the formula; chaining the lists, to the right or to the left at each place, leaves
no list and changes no trial, whatever the checks do; the parts of a list are tried in their order,
and the first that settles it, or panics, is the last; so no part is tried behind a guard that
rejects. -/
theorem lists_as_pairs (check : A → Except φ Bool) :
    (∀ (f : A → Bool) (p : Formula A),
      (p.trial fun a => (.ok (f a) : Except φ Bool)).result = .ok (p.holds f)) ∧
    (∀ (side : List Nat → Side) (p : Formula A),
      (p.chained side []).isBinary = true ∧ (p.chained side []).trial check = p.trial check) ∧
    (∀ (before : List (Formula A)) (p : Formula A) (after : List (Formula A)),
      ((∀ q ∈ before, (q.trial check).result = .ok true) → (p.trial check).result ≠ .ok true →
        (allOf (before ++ p :: after)).trial check =
          ⟨before.flatMap (fun q => (q.trial check).events) ++ (p.trial check).events,
            (p.trial check).result⟩) ∧
      ((∀ q ∈ before, (q.trial check).result = .ok false) → (p.trial check).result ≠ .ok false →
        (anyOf (before ++ p :: after)).trial check =
          ⟨before.flatMap (fun q => (q.trial check).events) ++ (p.trial check).events,
            (p.trial check).result⟩)) ∧
    (∀ ps : List (Formula A),
      ((∀ q ∈ ps, (q.trial check).result = .ok true) →
        (allOf ps).trial check = ⟨ps.flatMap fun q => (q.trial check).events, .ok true⟩) ∧
      ((∀ q ∈ ps, (q.trial check).result = .ok false) →
        (anyOf ps).trial check = ⟨ps.flatMap fun q => (q.trial check).events, .ok false⟩)) ∧
    ∀ guard p : Formula A, (guard.trial check).result = .ok false →
      (allOf [guard, p]).trial check = guard.trial check := by
  refine ⟨result_trial_ok, fun side p => ?_, fun before p after => ⟨fun h hp => ?_, fun h hp => ?_⟩,
    fun ps => ⟨fun h => ?_, fun h => ?_⟩, fun guard p h => ?_⟩
  · exact ⟨isBinary_chained side [] p, trial_chained check side [] p⟩
  · rw [trial_allOf]
    exact sequence_map_of_stops h hp after
  · rw [trial_anyOf]
    exact sequence_map_of_stops h hp after
  · rw [trial_allOf]
    exact sequence_map_of_forall h
  · rw [trial_anyOf]
    exact sequence_map_of_forall h
  · have hg : (guard.trial check).result ≠ .ok true := by
      rw [h]
      exact fun c => Bool.noConfusion (Except.ok.inj c)
    have hnone : ∀ q ∈ ([] : List (Formula A)), (q.trial check).result = .ok true :=
      List.forall_mem_nil _
    rw [trial_allOf]
    exact sequence_map_of_stops hnone hg [p]

/-- Atoms that answer as they are named, or panic: a conjunction that ends in a panic, a disjunction
that ends before it, and a guard that keeps it from happening. -/
theorem lists_as_pairs_of_answers :
    let check : Option Bool → Except Unit Bool := fun a => a.elim (.error ()) .ok
    let yes : Formula (Option Bool) := .atom (some true)
    let no : Formula (Option Bool) := .atom (some false)
    let panic : Formula (Option Bool) := .atom none
    (allOf [yes, panic, no]).trial check = ⟨[some true, none], .error ()⟩ ∧
    (anyOf [no, yes, panic]).trial check = ⟨[some false, some true], .ok true⟩ ∧
    (allOf [yes, yes]).trial check = ⟨[some true, some true], .ok true⟩ ∧
    (allOf [.and no yes, panic]).trial check = ⟨[some false], .ok false⟩ := by
  intro check yes no panic
  obtain ⟨-, -, hstops, hall, hguard⟩ := lists_as_pairs check
  refine ⟨?_, ?_, ?_, ?_⟩
  · exact (hstops [yes] panic [no]).1 (List.forall_mem_singleton.2 rfl) nofun
  · exact (hstops [no] yes [panic]).2 (List.forall_mem_singleton.2 rfl) nofun
  · exact (hall [yes, yes]).1 (List.forall_mem_cons.2 ⟨rfl, List.forall_mem_singleton.2 rfl⟩)
  · exact hguard (.and no yes) panic rfl

end Refinement.Formula
