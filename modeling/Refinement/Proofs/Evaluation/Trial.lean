import Refinement.Formula
import Refinement.Log

/-!
# Checks that may panic

The truth of a formula whose atoms are checked by arbitrary functions, which answer or panic. A
`Trial` lists the atoms that were checked, in their order, and has the verdict, unless a check
panicked; then it ends there. Every connective stops at the first part that settles it.

* `Formula.trial`: the trial of a formula.
* `Trial.sequence_of_stops`, `Trial.sequence_of_forall`: where the trial of a list of parts ends.
* `Formula.record_agrees`: the recorded evaluation is the trial of checks that do not panic.
* `Formula.result_trial_ok`: such checks give the truth of the formula.
-/

namespace Refinement

/-- The atoms that were checked, in their order, and the verdict, or what a check panicked with. -/
abbrev Trial (φ A : Type) := Log A (Except φ Bool)

namespace Trial

variable {φ A : Type}

/-- A verdict without any check. -/
def settled (v : Bool) : Trial φ A := ⟨[], .ok v⟩

/-- Goes on with `next` after the verdict `v`, and stops at the other verdict or at a panic. -/
def followIf (v : Bool) (t next : Trial φ A) : Trial φ A :=
  t.andThen fun b => if b = v then next else settled b

/-- The trials of a list, one after another as long as the verdict is `v`. -/
def sequence (v : Bool) : List (Trial φ A) → Trial φ A
  | [] => settled v
  | t :: ts => t.followIf v (sequence v ts)

/-- The opposite verdict. -/
def negate (t : Trial φ A) : Trial φ A := t.andThen fun b => settled (!b)

@[simp] theorem events_settled (v : Bool) : (settled v : Trial φ A).events = [] := rfl

@[simp] theorem result_settled (v : Bool) : (settled v : Trial φ A).result = .ok v := rfl

variable {v : Bool} {t : Trial φ A}

theorem followIf_of_eq (h : t.result = .ok v) (next : Trial φ A) :
    t.followIf v next = ⟨t.events ++ next.events, next.result⟩ := by
  obtain ⟨events, result⟩ := t
  subst h
  apply Log.ext <;> simp [followIf, Log.andThen]

theorem followIf_of_ne (h : t.result ≠ .ok v) (next : Trial φ A) : t.followIf v next = t := by
  obtain ⟨events, result⟩ := t
  cases result with
  | error e => apply Log.ext <;> simp [followIf, Log.andThen]
  | ok b =>
    have hb : b ≠ v := fun hb => h (congrArg Except.ok hb)
    apply Log.ext <;> simp [followIf, Log.andThen, hb]

/-- To stop early does not depend on how the parts are grouped. -/
theorem followIf_assoc (v : Bool) (t u w : Trial φ A) :
    (t.followIf v u).followIf v w = t.followIf v (u.followIf v w) := by
  by_cases ht : t.result = .ok v
  · by_cases hu : u.result = .ok v
    · have hl : (t.followIf v u).result = .ok v := by rw [followIf_of_eq ht, hu]
      rw [followIf_of_eq hl, followIf_of_eq ht, followIf_of_eq ht, followIf_of_eq hu]
      simp
    · have hl : (t.followIf v u).result ≠ .ok v := by rw [followIf_of_eq ht]; exact hu
      rw [followIf_of_ne hl, followIf_of_ne hu]
  · rw [followIf_of_ne ht, followIf_of_ne ht, followIf_of_ne ht]

@[simp] theorem followIf_settled (v : Bool) (t : Trial φ A) : t.followIf v (settled v) = t := by
  by_cases ht : t.result = .ok v
  · rw [followIf_of_eq ht]
    exact Log.ext (List.append_nil _) ht.symm
  · exact followIf_of_ne ht _

@[simp] theorem sequence_singleton (v : Bool) (t : Trial φ A) : sequence v [t] = t :=
  followIf_settled v t

/-! ## Where a sequence ends -/

/-- If no trial has another verdict, all of them take place. -/
theorem sequence_of_forall {ts : List (Trial φ A)} (h : ∀ t ∈ ts, t.result = .ok v) :
    sequence v ts = ⟨ts.flatMap (·.events), .ok v⟩ := by
  induction ts with
  | nil => rfl
  | cons t ts ih =>
    have hts : ∀ u ∈ ts, u.result = .ok v := fun u hu => h u (List.mem_cons_of_mem t hu)
    rw [sequence, followIf_of_eq (h t List.mem_cons_self), ih hts, List.flatMap_cons]

/-- The first trial that has another verdict, or panics, is the last that takes place. -/
theorem sequence_of_stops {before : List (Trial φ A)} (h : ∀ u ∈ before, u.result = .ok v)
    (ht : t.result ≠ .ok v) (after : List (Trial φ A)) :
    sequence v (before ++ t :: after) = ⟨before.flatMap (·.events) ++ t.events, t.result⟩ := by
  induction before with
  | nil =>
    rw [List.nil_append, sequence, followIf_of_ne ht]
    rfl
  | cons u before ih =>
    have hb : ∀ w ∈ before, w.result = .ok v := fun w hw => h w (List.mem_cons_of_mem u hw)
    rw [List.cons_append, sequence, followIf_of_eq (h u List.mem_cons_self), ih hb,
      List.flatMap_cons, List.append_assoc]

end Trial

namespace Formula

variable {φ A : Type}

mutual

/-- The trial of a formula, given what the check of an atom answers or panics with. -/
def trial (check : A → Except φ Bool) : Formula A → Trial φ A
  | .atom a => .report a (check a)
  | .allOf ps => trialAll check ps
  | .anyOf ps => trialAny check ps
  | .and p q => (p.trial check).followIf true (q.trial check)
  | .or p q => (p.trial check).followIf false (q.trial check)
  | .not p => (p.trial check).negate

/-- The trial of a conjunction, from the left. -/
def trialAll (check : A → Except φ Bool) : List (Formula A) → Trial φ A
  | [] => .settled true
  | p :: ps => (p.trial check).followIf true (trialAll check ps)

/-- The trial of a disjunction, from the left. -/
def trialAny (check : A → Except φ Bool) : List (Formula A) → Trial φ A
  | [] => .settled false
  | p :: ps => (p.trial check).followIf false (trialAny check ps)

end

theorem trial_allOf (check : A → Except φ Bool) (ps : List (Formula A)) :
    (allOf ps).trial check = Trial.sequence true (ps.map (trial check)) := by
  rw [trial]
  induction ps with
  | nil => rfl
  | cons p ps ih => rw [trialAll, ih]; rfl

theorem trial_anyOf (check : A → Except φ Bool) (ps : List (Formula A)) :
    (anyOf ps).trial check = Trial.sequence false (ps.map (trial check)) := by
  rw [trial]
  induction ps with
  | nil => rfl
  | cons p ps ih => rw [trialAny, ih]; rfl

/-! ## Checks that do not panic -/

namespace Record

/-- The answers of comparators on record, in their order. -/
def answers (r : Record) : List (Option Ordering) :=
  r.steps.filterMap fun
    | .answered answer => some answer
    | .settled _ _ => none

theorem answers_settle (place : List Nat) (r : Record) : (r.settle place).answers = r.answers := by
  simp [answers, settle]

theorem answers_followIf (v : Bool) (r next : Record) :
    (r.followIf v next).answers =
      if r.verdict = v then r.answers ++ next.answers else r.answers := by
  unfold followIf
  split
  · simp [answers]
  · rfl

/-- A record has the verdict of a trial, and the answers that came with the checked atoms. -/
def Agrees (answersOf : A → List (Option Ordering)) (r : Record) (t : Trial φ A) : Prop :=
  r.answers = t.events.flatMap answersOf ∧ t.result = .ok r.verdict

variable {answersOf : A → List (Option Ordering)} {r s : Record} {t u : Trial φ A}

theorem Agrees.settle (h : r.Agrees answersOf t) (place : List Nat) :
    (r.settle place).Agrees answersOf t := by
  refine ⟨?_, h.2⟩
  rw [answers_settle, h.1]

theorem Agrees.followIf (hr : r.Agrees answersOf t) (hs : s.Agrees answersOf u) (v : Bool) :
    (r.followIf v s).Agrees answersOf (t.followIf v u) := by
  obtain ⟨hra, hrv⟩ := hr
  obtain ⟨hsa, hsv⟩ := hs
  unfold Agrees
  rw [answers_followIf]
  by_cases hv : r.verdict = v
  · have ht : t.result = .ok v := by rw [hrv, hv]
    rw [Trial.followIf_of_eq ht, if_pos hv, hra, hsa, List.flatMap_append]
    refine ⟨rfl, ?_⟩
    rw [hsv]
    simp [Record.followIf, hv]
  · have ht : t.result ≠ .ok v := by
      rw [hrv]
      exact fun h => hv (Except.ok.inj h)
    rw [Trial.followIf_of_ne ht, if_neg hv, hra, hrv]
    simp [Record.followIf, hv]

theorem Agrees.negate (h : r.Agrees answersOf t) :
    Agrees answersOf { r with verdict := !r.verdict } t.negate := by
  obtain ⟨ha, hv⟩ := h
  unfold Agrees Trial.negate Log.andThen
  simp only [Log.events_bind, Log.result_bind, hv]
  simpa [answers] using ha

end Record

section Recorded

variable (ask : A → List (Option Ordering) × Bool)

mutual

/-- The recorded evaluation is the trial of checks that do not panic. -/
theorem record_agrees (place : List Nat) : ∀ p : Formula A,
    (p.record ask place).Agrees (fun a => (ask a).1)
      (p.trial fun a => (.ok (ask a).2 : Except φ Bool))
  | .atom a => by
    simp only [record, trial]
    refine ⟨?_, rfl⟩
    rw [Record.answers, List.filterMap_map, Log.events_report, List.flatMap_singleton]
    exact List.filterMap_some
  | .allOf ps => by
    simp only [record, trial]
    exact recordAll_agrees place 0 ps
  | .anyOf ps => by
    simp only [record, trial]
    exact recordAny_agrees place 0 ps
  | .and p q => by
    simp only [record, trial]
    exact ((record_agrees _ p).settle _).followIf ((record_agrees _ q).settle _) true
  | .or p q => by
    simp only [record, trial]
    exact ((record_agrees _ p).settle _).followIf ((record_agrees _ q).settle _) false
  | .not p => by
    simp only [record, trial]
    exact ((record_agrees _ p).settle _).negate

theorem recordAll_agrees (place : List Nat) (i : Nat) : ∀ ps : List (Formula A),
    (recordAll ask place i ps).Agrees (fun a => (ask a).1)
      (trialAll (fun a => (.ok (ask a).2 : Except φ Bool)) ps)
  | [] => by
    simp only [recordAll, trialAll]
    exact ⟨rfl, rfl⟩
  | p :: ps => by
    simp only [recordAll, trialAll]
    exact ((record_agrees _ p).settle _).followIf (recordAll_agrees place (i + 1) ps) true

theorem recordAny_agrees (place : List Nat) (i : Nat) : ∀ ps : List (Formula A),
    (recordAny ask place i ps).Agrees (fun a => (ask a).1)
      (trialAny (fun a => (.ok (ask a).2 : Except φ Bool)) ps)
  | [] => by
    simp only [recordAny, trialAny]
    exact ⟨rfl, rfl⟩
  | p :: ps => by
    simp only [recordAny, trialAny]
    exact ((record_agrees _ p).settle _).followIf (recordAny_agrees place (i + 1) ps) false

end

end Recorded

/-- Checks that do not panic give the truth of the formula. -/
theorem result_trial_ok (f : A → Bool) (p : Formula A) :
    (p.trial fun a => (.ok (f a) : Except φ Bool)).result = .ok (p.holds f) := by
  have h := (record_agrees (φ := φ) (fun a => ([], f a)) [] p).2
  rwa [verdict_record] at h

end Formula

end Refinement
