import Mathlib.Data.Nat.Find
import Refinement.Proofs.Store.Sessions

/-!
# Chains of changes

A refined value is changed by several functions in turn, each applied to what the one before has left,
as long as all outcomes pass. The first outcome that does not pass is given back, and the functions
behind it are not applied.

* `Refined.tryMapAll`: changes in turn; `Refined.tryApplyAll`: the same for functions that may report
  something themselves, so that the report tells which of them were applied.
* `Refined.inTurn`, `Refined.inTurnLogged`: functions in turn without any test.
* `Refined.tryApplyAll_of_accepts`: a chain is one change, if all outcomes but the last pass.
* `Refined.tryApplyAll_of_stopsAt`: where a chain stops.
* `RefinedSession.run_tryMap`: chains of steps in a session.
* `Refined.chain_stops_at_first`: all of this.
-/

namespace Refinement

/-! ## The first outcome that does not pass -/

section First

variable {α : Type} {r : Requirement α} {w : Nat → α} {n k : Nat}

/-- Of the outcomes with the numbers from one to `n`, the one with the number `k` is the first that does
not pass. -/
structure Requirement.StopsAt (r : Requirement α) (w : Nat → α) (n k : Nat) : Prop where
  /-- Outcomes are counted from one. -/
  pos : 0 < k
  /-- It is one of them. -/
  le : k ≤ n
  /-- It does not pass. -/
  rejects : r.accepts (w k) = false
  /-- All outcomes before it pass. -/
  accepts : ∀ i, 0 < i → i < k → r.accepts (w i) = true

/-- If some outcome does not pass, there is a first one. -/
theorem Requirement.exists_stopsAt {i : Nat} (hpos : 0 < i) (hle : i ≤ n)
    (hi : r.accepts (w i) = false) : ∃ k, k ≤ i ∧ r.StopsAt w n k := by
  have hex : ∃ k, 0 < k ∧ r.accepts (w k) = false := ⟨i, hpos, hi⟩
  have hmin : Nat.find hex ≤ i := Nat.find_min' hex ⟨hpos, hi⟩
  obtain ⟨hk, hrejects⟩ := Nat.find_spec hex
  refine ⟨Nat.find hex, hmin, hk, Nat.le_trans hmin hle, hrejects, fun j hj hlt => ?_⟩
  have hnot := Nat.find_min hex hlt
  rw [not_and, Bool.not_eq_false] at hnot
  exact hnot hj

/-- What matters are the outcomes up to there. -/
theorem Requirement.StopsAt.congr {w' : Nat → α} {n' : Nat} (h : r.StopsAt w n k)
    (hw : ∀ i, i ≤ k → w' i = w i) (hk : k ≤ n') : r.StopsAt w' n' k where
  pos := h.pos
  le := hk
  rejects := by
    rw [hw k (Nat.le_refl k)]
    exact h.rejects
  accepts i hpos hlt := by
    rw [hw i (Nat.le_of_lt hlt)]
    exact h.accepts i hpos hlt

end First

namespace Refined

variable {α : Type} {r : Requirement α}

/-! ## Functions in turn -/

/-- What functions make of a value, each applied to what the one before has left. -/
def inTurn (fs : List (α → α)) (v : α) : α := fs.foldl (fun v f => f v) v

/-- What functions make of a value that may report something, with all that they report. -/
def inTurnLogged (gs : List (α → Logged α)) (v : α) : Logged α := gs.foldlM (fun v g => g v) v

/-- A function that reports nothing. -/
def quiet (f : α → α) : α → Logged α := fun v => pure (f v)

@[simp] theorem inTurnLogged_nil (v : α) : inTurnLogged [] v = pure v := rfl

@[simp] theorem inTurnLogged_cons (g : α → Logged α) (gs : List (α → Logged α)) (v : α) :
    inTurnLogged (g :: gs) v = g v >>= inTurnLogged gs := rfl

@[simp] theorem inTurnLogged_quiet (fs : List (α → α)) (v : α) :
    inTurnLogged (fs.map quiet) v = pure (inTurn fs v) := by
  induction fs generalizing v with
  | nil => rfl
  | cons f fs ih =>
    rw [List.map_cons, inTurnLogged_cons, quiet, pure_bind, ih]
    rfl

theorem inTurn_replicate_id (n : Nat) (v : α) : inTurn (List.replicate n id) v = v := by
  induction n with
  | zero => rfl
  | succ n ih => exact ih

/-! ## Chains -/

/-- Changes a value by functions in turn, up to the first whose outcome does not pass. -/
def tryMapAll (x : Refined r) : List (α → α) → Logged (Except (Violation α) (Refined r))
  | [] => pure (.ok x)
  | f :: fs => (x.tryMap f).andThen fun y => y.tryMapAll fs

/-- Applies a function that may report something to the value, and tests the outcome. -/
def tryApply (x : Refined r) (g : α → Logged α) : Logged (Except (Violation α) (Refined r)) :=
  g x.value >>= r.refine

/-- Changes a value by functions that may report something, up to the first whose outcome does not
pass. -/
def tryApplyAll (x : Refined r) : List (α → Logged α) → Logged (Except (Violation α) (Refined r))
  | [] => pure (.ok x)
  | g :: gs => (x.tryApply g).andThen fun y => y.tryApplyAll gs

variable {x : Refined r} {gs : List (α → Logged α)} {k : Nat}

@[simp] theorem tryApply_quiet (x : Refined r) (f : α → α) : x.tryApply (quiet f) = x.tryMap f :=
  pure_bind _ _

/-- Functions that report nothing make a chain of changes. -/
@[simp] theorem tryApplyAll_quiet (x : Refined r) (fs : List (α → α)) :
    x.tryApplyAll (fs.map quiet) = x.tryMapAll fs := by
  induction fs generalizing x with
  | nil => rfl
  | cons f fs ih => simp only [List.map_cons, tryApplyAll, tryMapAll, tryApply_quiet, ih]

/-- A longer chain goes on with what the shorter one has left. -/
theorem tryApplyAll_append (x : Refined r) (gs hs : List (α → Logged α)) :
    x.tryApplyAll (gs ++ hs) = (x.tryApplyAll gs).andThen fun y => y.tryApplyAll hs := by
  induction gs generalizing x with
  | nil => simp [tryApplyAll]
  | cons g gs ih => simp only [List.cons_append, tryApplyAll, ih, Log.andThen_assoc]

/-- After an outcome that passes, the chain goes on with it. -/
theorem tryApply_andThen {g : α → Logged α} (h : r.accepts (g x.value).result = true)
    (f : Refined r → Logged (Except (Violation α) (Refined r))) :
    (x.tryApply g).andThen f = g x.value >>= fun _ => f ⟨(g x.value).result, h⟩ := by
  have hrefine := Requirement.refine_of_accepts h
  unfold tryApply Log.andThen
  rw [bind_assoc]
  apply Log.ext <;> simp [hrefine]

/-- If all outcomes but the last pass, a chain is a single change by all its functions. -/
theorem tryApplyAll_of_accepts (h : ∀ i, 0 < i → i < gs.length →
    r.accepts (inTurnLogged (gs.take i) x.value).result = true) :
    x.tryApplyAll gs = x.tryApply (inTurnLogged gs) := by
  induction gs generalizing x with
  | nil => exact x.refine_value.symm.trans (pure_bind x.value r.refine).symm
  | cons g gs ih =>
    cases gs with
    | nil => simp [tryApplyAll, tryApply]
    | cons g' gs =>
      -- The first outcome passes; what follows is the chain that begins with it.
      have hfirst : r.accepts (g x.value).result = true := by
        simpa using h 1 Nat.one_pos (by simp)
      have hrest := ih (x := ⟨(g x.value).result, hfirst⟩) fun i hpos hlt => by
        simpa using h (i + 1) (Nat.succ_pos i) (by simpa using hlt)
      rw [tryApplyAll, tryApply_andThen hfirst, hrest]
      apply Log.ext <;> simp [tryApply]

/-- If all outcomes pass, all functions are applied. -/
theorem exists_tryApplyAll_eq (h : ∀ i, 0 < i → i ≤ gs.length →
    r.accepts (inTurnLogged (gs.take i) x.value).result = true) :
    ∃ y : Refined r, y.value = (inTurnLogged gs x.value).result ∧
      x.tryApplyAll gs = inTurnLogged gs x.value >>= fun _ => pure (.ok y) := by
  have hlast : r.accepts (inTurnLogged gs x.value).result = true := by
    cases gs with
    | nil => exact x.accepted
    | cons g gs => simpa using h (gs.length + 1) (Nat.succ_pos _) (Nat.le_refl _)
  refine ⟨⟨(inTurnLogged gs x.value).result, hlast⟩, rfl, ?_⟩
  rw [tryApplyAll_of_accepts fun i hpos hlt => h i hpos (Nat.le_of_lt hlt)]
  have hrefine := Requirement.refine_of_accepts hlast
  apply Log.ext <;> simp [tryApply, hrefine]

/-- A chain stops at the first outcome that does not pass: the functions up to there are applied. -/
theorem tryApplyAll_of_stopsAt
    (h : r.StopsAt (fun i => (inTurnLogged (gs.take i) x.value).result) gs.length k) :
    x.tryApplyAll gs = inTurnLogged (gs.take k) x.value >>= fun v =>
      .report r.rejection (.error (r.violation v)) := by
  have hlength : (gs.take k).length = k := List.length_take_of_le h.le
  have hshort : x.tryApplyAll (gs.take k) = inTurnLogged (gs.take k) x.value >>= fun v =>
      .report r.rejection (.error (r.violation v)) := by
    rw [tryApplyAll_of_accepts fun i hpos hlt => ?_]
    · have hrefine := Requirement.refine_of_rejects h.rejects
      apply Log.ext <;> simp [tryApply, hrefine]
    · rw [hlength] at hlt
      rw [List.take_take, Nat.min_eq_left (Nat.le_of_lt hlt)]
      exact h.accepts i hpos hlt
  calc x.tryApplyAll gs = (x.tryApplyAll (gs.take k)).andThen fun y => y.tryApplyAll (gs.drop k) := by
        rw [← tryApplyAll_append, List.take_append_drop]
    _ = inTurnLogged (gs.take k) x.value >>= fun v =>
        .report r.rejection (.error (r.violation v)) := by
      rw [hshort]
      apply Log.ext <;> simp [Log.andThen]

/-! ## Changes in turn -/

section Plain

variable {fs : List (α → α)}

theorem tryMapAll_of_accepts
    (h : ∀ i, 0 < i → i < fs.length → r.accepts (inTurn (fs.take i) x.value) = true) :
    x.tryMapAll fs = x.tryMap (inTurn fs) := by
  have hquiet : x.tryApplyAll (fs.map quiet) = _ := tryApplyAll_of_accepts fun i hpos hlt => by
    simpa [← List.map_take] using h i hpos (by simpa using hlt)
  rw [tryApplyAll_quiet] at hquiet
  simpa [tryApply, tryMap] using hquiet

theorem tryMapAll_of_stopsAt (h : r.StopsAt (fun i => inTurn (fs.take i) x.value) fs.length k) :
    x.tryMapAll fs = .report r.rejection (.error (r.violation (inTurn (fs.take k) x.value))) := by
  have hquiet : r.StopsAt (fun i => (inTurnLogged ((fs.map quiet).take i) x.value).result)
      (fs.map quiet).length k := by
    simpa [← List.map_take] using h
  have hstops := tryApplyAll_of_stopsAt hquiet
  rw [tryApplyAll_quiet] at hstops
  simpa [← List.map_take] using hstops

/-- Any other functions may stand behind the place where a chain stops. -/
theorem tryMapAll_take_append (h : r.StopsAt (fun i => inTurn (fs.take i) x.value) fs.length k)
    (hs : List (α → α)) : x.tryMapAll (fs.take k ++ hs) = x.tryMapAll fs := by
  have hle := h.le
  have htake (i : Nat) (hi : i ≤ k) : (fs.take k ++ hs).take i = fs.take i := by
    rw [List.take_append_of_le_length (by simp; omega), List.take_take, Nat.min_eq_left hi]
  have hother : r.StopsAt (fun i => inTurn ((fs.take k ++ hs).take i) x.value)
      (fs.take k ++ hs).length k :=
    h.congr (fun i hi => by rw [htake i hi]) (by simp; omega)
  rw [tryMapAll_of_stopsAt hother, tryMapAll_of_stopsAt h, htake k (Nat.le_refl k)]

/-- A chain is a single change if its first outcome that does not pass is the same as the last one, and
only then. -/
theorem tryMapAll_eq_tryMap_iff : x.tryMapAll fs = x.tryMap (inTurn fs) ↔
    ∀ k, r.StopsAt (fun i => inTurn (fs.take i) x.value) fs.length k →
      inTurn (fs.take k) x.value = inTurn fs x.value := by
  constructor
  · intro h k hk
    rw [tryMapAll_of_stopsAt hk] at h
    cases hlast : r.accepts (inTurn fs x.value) with
    | true =>
      have hsilent : x.tryMap (inTurn fs) = _ := Requirement.refine_of_accepts hlast
      rw [hsilent] at h
      exact absurd (congrArg Log.events h) (List.cons_ne_nil _ _)
    | false =>
      have hgiven : x.tryMap (inTurn fs) = _ := Requirement.refine_of_rejects hlast
      rw [hgiven] at h
      have hviolation := Except.error.inj (congrArg Log.result h)
      exact congrArg Violation.value hviolation
  · intro h
    by_cases hall : ∀ i, 0 < i → i < fs.length → r.accepts (inTurn (fs.take i) x.value) = true
    · exact tryMapAll_of_accepts hall
    · simp only [not_forall, Bool.not_eq_true] at hall
      obtain ⟨i, hpos, hlt, hi⟩ := hall
      obtain ⟨k, -, hk⟩ := Requirement.exists_stopsAt (w := fun j => inTurn (fs.take j) x.value)
        hpos (Nat.le_of_lt hlt) hi
      have hlast : r.accepts (inTurn fs x.value) = false := h k hk ▸ hk.rejects
      have hgiven : x.tryMap (inTurn fs) = _ := Requirement.refine_of_rejects hlast
      rw [tryMapAll_of_stopsAt hk, hgiven, h k hk]

/-- If all outcomes pass, the last one is left. -/
theorem exists_tryMapAll_eq
    (h : ∀ i, 0 < i → i ≤ fs.length → r.accepts (inTurn (fs.take i) x.value) = true) :
    ∃ y : Refined r, y.value = inTurn fs x.value ∧ x.tryMapAll fs = pure (.ok y) := by
  obtain ⟨y, hy, hchain⟩ : ∃ y : Refined r, _ ∧ x.tryApplyAll (fs.map quiet) = _ :=
    exists_tryApplyAll_eq fun i hpos hle => by
      simpa [← List.map_take] using h i hpos (by simpa using hle)
  rw [inTurnLogged_quiet] at hy hchain
  rw [tryApplyAll_quiet] at hchain
  exact ⟨y, hy, hchain⟩

/-- Functions that leave every value as it is change nothing. -/
theorem tryMapAll_replicate_id (x : Refined r) (n : Nat) :
    x.tryMapAll (List.replicate n id) = pure (.ok x) := by
  have hid (i : Nat) : inTurn ((List.replicate n id).take i) x.value = x.value := by
    rw [List.take_replicate, inTurn_replicate_id]
  have hpasses (i : Nat) : r.accepts (inTurn ((List.replicate n id).take i) x.value) = true :=
    (congrArg r.accepts (hid i)).trans x.accepted
  obtain ⟨y, hy, hchain⟩ := exists_tryMapAll_eq fun i _ _ => hpasses i
  rw [inTurn_replicate_id] at hy
  rw [hchain, ext hy]

end Plain

end Refined

/-! ## Sessions -/

namespace RefinedSession

variable {t : Ty} {p : Predicate} {s : RefinedSession t p} {a : Nat} {x : Refined (t.requirement p)}

theorem lt_of_slot (h : s.slot a = .refined x) : a < s.length := by
  refine lt_of_getD_ne (d := RefinedSlot.gone) fun hgone => ?_
  cases h.symm.trans hgone

theorem slot_set (h : a < s.length) (y : RefinedSlot t p) : slot (s.set a y) a = y := by
  unfold slot
  rw [List.getElem?_set_self h]
  rfl

theorem set_slot (h : s.slot a = .refined x) : s.set a (.refined x) = s := set_of_getD_eq h nofun

theorem step_tryMap (h : s.slot a = .refined x) (f : t.Val → t.Val) :
    s.step (.tryMap a f) = x.tryMap f >>= fun o => pure (.ofOutcome o, s.set a (.ofOutcome o)) := by
  show s.need (s.slot a).refined? _ = _
  rw [h]
  rfl

/-- A change needs a refined value. -/
theorem step_tryMap_violation {y : Violation t.Val} (h : s.slot a = .violation y)
    (f : t.Val → t.Val) : s.step (.tryMap a f) = pure (.missing .isViolation, s) := by
  show s.need (s.slot a).refined? _ = _
  rw [h]
  rfl

theorem run_cons (s : RefinedSession t p) (q : RefinedStep t) (qs : List (RefinedStep t)) :
    s.run (q :: qs) = (⟨(s.step q).events, (s.step q).result.1⟩ :: ((s.step q).result.2.run qs).1,
      ((s.step q).result.2.run qs).2) := rfl

theorem run_tryMap_violation {y : Violation t.Val} (h : s.slot a = .violation y)
    (fs : List (t.Val → t.Val)) : s.run (fs.map (.tryMap a)) =
      (fs.map fun _ => pure (.missing .isViolation), s) := by
  induction fs with
  | nil => rfl
  | cons f fs ih =>
    rw [List.map_cons, run_cons, step_tryMap_violation h, Log.result_pure, ih]
    rfl

/-- Changes in turn leave in the slot what comes of the chain, and report the same. -/
theorem run_tryMap (h : s.slot a = .refined x) (fs : List (t.Val → t.Val)) :
    (s.run (fs.map (.tryMap a))).2 = s.set a (.ofOutcome (x.tryMapAll fs).result) ∧
    (s.run (fs.map (.tryMap a))).1.flatMap Log.events = (x.tryMapAll fs).events := by
  induction fs generalizing s x with
  | nil => exact ⟨(set_slot h).symm, rfl⟩
  | cons f fs ih =>
    have ha := lt_of_slot h
    rw [List.map_cons, run_cons, step_tryMap h, Refined.tryMapAll]
    cases hf : (t.requirement p).accepts (f x.value) with
    | true =>
      have hpasses : x.tryMap f = _ := Requirement.refine_of_accepts hf
      obtain ⟨hsession, hevents⟩ := ih (slot_set ha (.refined ⟨f x.value, hf⟩))
      rw [List.set_set] at hsession
      simp only [hpasses, pure_bind, Log.pure_ok_andThen]
      exact ⟨hsession, hevents⟩
    | false =>
      have hfails : x.tryMap f = _ := Requirement.refine_of_rejects hf
      have hslot : slot (s.set a (.violation ((t.requirement p).violation (f x.value)))) a = _ :=
        slot_set ha _
      have hrest := run_tryMap_violation hslot fs
      simp only [hfails, Log.report_error_andThen, Log.result_bind, Log.events_bind, Log.result_report,
        Log.events_report, Log.result_pure, Log.events_pure, RefinedSlot.ofOutcome, hrest]
      simp

end RefinedSession

/-! ## Where chains stop -/

namespace Refined

variable {α : Type} {r : Requirement α}

/-- A chain of changes stops at the first outcome that does not pass. -/
structure Chained (x : Refined r) (fs : List (α → α)) : Prop where
  /-- If all outcomes pass, the last one is left, and nothing is reported. -/
  succeeds : (∀ i, 0 < i → i ≤ fs.length → r.accepts (inTurn (fs.take i) x.value) = true) →
    ∃ y : Refined r, y.value = inTurn fs x.value ∧ x.tryMapAll fs = pure (.ok y)
  /-- If one of them does not, the first such is given back, and that is the only event. Whatever stands
  behind it would not matter. -/
  fails : ∀ i, 0 < i → i ≤ fs.length → r.accepts (inTurn (fs.take i) x.value) = false →
    ∃ k, k ≤ i ∧ r.StopsAt (fun j => inTurn (fs.take j) x.value) fs.length k ∧
      x.tryMapAll fs = .report r.rejection (.error (r.violation (inTurn (fs.take k) x.value))) ∧
      ∀ hs, x.tryMapAll (fs.take k ++ hs) = x.tryMapAll fs
  /-- If all outcomes but the last pass, the chain is a single change by all functions. -/
  fused : (∀ i, 0 < i → i < fs.length → r.accepts (inTurn (fs.take i) x.value) = true) →
    x.tryMapAll fs = x.tryMap (inTurn fs)
  /-- Otherwise it is one just if the first outcome that does not pass is also what is left at the end. -/
  fused_iff : x.tryMapAll fs = x.tryMap (inTurn fs) ↔
    ∀ k, r.StopsAt (fun i => inTurn (fs.take i) x.value) fs.length k →
      inTurn (fs.take k) x.value = inTurn fs x.value

theorem chained (x : Refined r) (fs : List (α → α)) : Chained x fs where
  succeeds := exists_tryMapAll_eq
  fails i hpos hle hi := by
    obtain ⟨k, hki, hk⟩ := Requirement.exists_stopsAt (w := fun j => inTurn (fs.take j) x.value)
      hpos hle hi
    exact ⟨k, hki, hk, tryMapAll_of_stopsAt hk, tryMapAll_take_append hk⟩
  fused := tryMapAll_of_accepts
  fused_iff := tryMapAll_eq_tryMap_iff

/-- A chain of changes stops at the first outcome that does not pass, which is given back with one event;
functions that change nothing leave the value as it is, in silence. If the functions report something
themselves, the reports of those up to there are heard, and no others. In a session the slot holds what
comes of the chain. -/
theorem chain_stops_at_first :
    (∀ (α : Type) (r : Requirement α) (x : Refined r),
      (∀ fs, Chained x fs) ∧ ∀ n, x.tryMapAll (List.replicate n id) = pure (.ok x)) ∧
    (∀ (α : Type) (r : Requirement α) (x : Refined r) (gs : List (α → Logged α)),
      ((∀ i, 0 < i → i ≤ gs.length → r.accepts (inTurnLogged (gs.take i) x.value).result = true) →
        ∃ y : Refined r, y.value = (inTurnLogged gs x.value).result ∧
          x.tryApplyAll gs = ⟨(inTurnLogged gs x.value).events, .ok y⟩) ∧
      ∀ k, r.StopsAt (fun i => (inTurnLogged (gs.take i) x.value).result) gs.length k →
        x.tryApplyAll gs = ⟨(inTurnLogged (gs.take k) x.value).events ++ [r.rejection],
          .error (r.violation (inTurnLogged (gs.take k) x.value).result)⟩) ∧
    ∀ (t : Ty) (p : Predicate) (s : RefinedSession t p) (a : Nat) (x : Refined (t.requirement p))
      (fs : List (t.Val → t.Val)), s.slot a = .refined x →
      (s.run (fs.map (.tryMap a))).2 = s.set a (.ofOutcome (x.tryMapAll fs).result) ∧
      (s.run (fs.map (.tryMap a))).1.flatMap Log.events = (x.tryMapAll fs).events := by
  refine ⟨fun α r x => ⟨chained x, tryMapAll_replicate_id x⟩, fun α r x gs => ⟨fun h => ?_, fun k hk => ?_⟩,
    fun t p s a x fs h => RefinedSession.run_tryMap h fs⟩
  · obtain ⟨y, hy, hchain⟩ := exists_tryApplyAll_eq h
    exact ⟨y, hy, hchain.trans (Log.ext (List.append_nil _) rfl)⟩
  · exact tryApplyAll_of_stopsAt hk

/-- A truth value that has to be true is left as it is, made false and made true again: the chain stops
where it is false, although the three functions together leave it true. The last function is not
applied. -/
theorem chain_stops_at_first_truth :
    let p : Predicate := .atom (.compare .equal .natural (.bool true))
    let r : Requirement Bool := Ty.requirement .bool p
    let x : Refined r := ⟨true, rfl⟩
    let fs : List (Bool → Bool) := [id, not, not]
    let loud (n : String) (f : Bool → Bool) : Bool → Logged Bool :=
      fun v => .report (.emptySequence n) (f v)
    let s : RefinedSession .bool p := [.gone, .refined x]
    x.tryMapAll fs = .report r.rejection (.error (r.violation false)) ∧
      x.tryMapAll fs ≠ x.tryMap (inTurn fs) ∧
      (x.tryApplyAll [loud "a" id, loud "b" not, loud "c" not]).events =
        [.emptySequence "a", .emptySequence "b", r.rejection] ∧
      (s.run (fs.map (.tryMap 1))).2 = [.gone, .violation (r.violation false)] := by
  intro p r x fs loud s
  obtain ⟨plain, reporting, sessions⟩ := chain_stops_at_first
  have hstops : r.StopsAt (fun i => inTurn (fs.take i) x.value) fs.length 2 := by
    refine ⟨by decide, by decide, rfl, fun i hpos hlt => ?_⟩
    obtain rfl : i = 1 := by omega
    rfl
  have hplain := (plain Bool r x).1 fs
  obtain ⟨k, hle, hk, hchain, -⟩ := hplain.fails 2 (by decide) (by decide) rfl
  have hne : k ≠ 1 := by
    rintro rfl
    exact nomatch (show true = false from hk.rejects)
  obtain rfl : k = 2 := by
    have := hk.pos
    omega
  refine ⟨hchain, fun heq => ?_, ?_, ?_⟩
  · exact nomatch (show false = true from hplain.fused_iff.1 heq 2 hstops)
  · have hloud : r.StopsAt
        (fun i => (inTurnLogged ([loud "a" id, loud "b" not, loud "c" not].take i) x.value).result) 3 2 :=
      hstops.congr (fun i hi => match i, hi with | 0, _ | 1, _ | 2, _ => rfl) (by decide)
    exact congrArg Log.events ((reporting Bool r x _).2 2 hloud)
  · rw [(sessions .bool p s 1 x fs rfl).1]
    exact congrArg (fun o => s.set 1 (RefinedSlot.ofOutcome o.result)) hchain

end Refined

end Refinement
