import Refinement.Proofs.Reading.Simulation
import Refinement.Session.Store

/-!
# Refined values in stores

Whatever is done with a store, all refinements in its values are met, and its violations hold
values that were turned away. An operation that fails brings no value about and leaves all other
slots as they are.

* `Cell.Sound`: what holds of a slot in every reachable state.
* `Store.step_sound`, `Store.run_sound`: operations keep it.
* `Store.step_of_fails`: what an operation that fails leaves behind.
* `Store.refine_sound_complete`: all of this, and that every way in lets in what passes, nothing else.
-/

namespace Refinement

/-! ## Slots -/

/-- All refinements in a value are met; a violation gives back a value that does not pass. -/
def Cell.Sound : Cell → Prop
  | .live t v => t.Upholds v
  | .violation t x => ∃ p : Predicate,
    (t.requirement p).accepts x.value = false ∧ x = (t.requirement p).violation x.value
  | .gone => True

/-- Whether there is a value. -/
def Cell.isLive : Cell → Bool
  | .live .. => true
  | _ => false

/-- Whether an answer tells of a failure. -/
def Reply.fails : Reply → Bool
  | .rejected .. | .unreadable _ | .uninitialized .. | .absent _ | .missing => true
  | _ => false

theorem Cell.sound_live (t : Ty) (v : t.Val) : (Cell.live t v).Sound := t.upholds v

theorem Cell.sound_gone : Cell.gone.Sound := trivial

namespace Outcome

/-- All slots that come of an outcome. -/
def cells (o : Outcome) : List Cell := o.left.toList ++ o.added.toList

/-- All slots that come of an outcome are as they have to be. -/
def Sound (o : Outcome) : Prop := ∀ c ∈ o.cells, c.Sound

/-- If the outcome is a failure, nothing is added and no value is left. -/
def Barren (o : Outcome) : Prop :=
  o.reply.fails = true → o.added = none ∧ ∀ c ∈ o.left, c.isLive = false

variable {r : Reply} {c : Cell}

theorem sound_telling : (telling r).Sound := fun _ h => absurd h List.not_mem_nil

theorem sound_leaving (h : c.Sound) : (leaving r c).Sound := List.forall_mem_singleton.2 h

theorem sound_consuming (consume : Bool) (h : c.Sound) : (consuming consume r c).Sound := by
  cases consume with
  | false => exact sound_telling
  | true => exact sound_leaving h

theorem barren_telling : (telling r).Barren := fun _ => ⟨rfl, nofun⟩

theorem barren_of_not_fails {o : Outcome} (h : o.reply.fails = false) : o.Barren := by
  intro hf
  rw [h] at hf
  cases hf

theorem barren_leaving (h : c.isLive = false) : (leaving r c).Barren := by
  refine fun _ => ⟨rfl, fun d hd => ?_⟩
  cases hd
  exact h

theorem barren_consuming (consume : Bool) (h : r.fails = false ∨ c.isLive = false) :
    (consuming consume r c).Barren := by
  cases consume with
  | false => exact barren_telling
  | true =>
    rcases h with h | h
    · exact barren_of_not_fails h
    · exact barren_leaving h

section Refinement

variable {t : Ty} {p : Predicate}

/-- What a refinement leaves in the slot. -/
theorem sound_ofRefinement (v : t.Val) :
    (ofRefinement ((t.requirement p).refine v).result).Sound := by
  cases ha : (t.requirement p).accepts v with
  | true =>
    rw [Requirement.refine_of_accepts ha]
    exact sound_leaving (Cell.sound_live _ _)
  | false =>
    rw [Requirement.refine_of_rejects ha]
    exact sound_leaving ⟨p, ha, rfl⟩

/-- A refinement that fails leaves no value. -/
theorem barren_ofRefinement (x : Except (Violation t.Val) (Refined (t.requirement p))) :
    (ofRefinement x).Barren := by
  cases x with
  | ok x => exact barren_of_not_fails rfl
  | error x => exact barren_leaving rfl

end Refinement

end Outcome

/-! ## What is done with a slot -/

namespace Use

/-- What comes of a slot is as it has to be. -/
theorem act_sound (u : Use) {c : Cell} (hc : c.Sound) : (u.act c).result.Sound := by
  unfold act
  split
  · rw [Entrance.refine_eq]
    exact Outcome.sound_ofRefinement _
  · exact Outcome.sound_ofRefinement _
  · exact Outcome.sound_leaving (Cell.sound_live _ _)
  · exact Outcome.sound_leaving (Cell.sound_live _ _)
  · exact Outcome.sound_leaving (Cell.sound_live _ _)
  · exact Outcome.sound_leaving Cell.sound_gone
  · exact Outcome.sound_leaving (Cell.sound_live _ _)
  · split
    · exact Outcome.sound_leaving (Cell.sound_live _ _)
    · exact Outcome.sound_leaving Cell.sound_gone
  · exact List.forall_mem_cons.2 ⟨Cell.sound_live _ _, List.forall_mem_singleton.2 (Cell.sound_live _ _)⟩
  · exact Outcome.sound_leaving (Cell.sound_live _ _)
  · rw [Log.result_bind]
    split
    · exact Outcome.sound_consuming _ (Cell.sound_live _ _)
    · exact Outcome.sound_consuming _ Cell.sound_gone
  · exact Outcome.sound_consuming _ (Cell.sound_live _ _)
  · exact Outcome.sound_consuming _ (Cell.sound_live _ _)
  · exact Outcome.sound_telling
  · exact Outcome.sound_telling
  · exact List.forall_mem_singleton.2 hc
  · exact List.forall_mem_singleton.2 hc
  all_goals exact Outcome.sound_telling

/-- Nothing comes of a failure. -/
theorem act_barren (u : Use) (c : Cell) : (u.act c).result.Barren := by
  unfold act
  split
  · rw [Entrance.refine_eq]
    exact Outcome.barren_ofRefinement _
  · exact Outcome.barren_ofRefinement _
  · exact Outcome.barren_of_not_fails rfl
  · exact Outcome.barren_of_not_fails rfl
  · exact Outcome.barren_of_not_fails rfl
  · exact Outcome.barren_of_not_fails rfl
  · exact Outcome.barren_of_not_fails rfl
  · split
    · exact Outcome.barren_of_not_fails rfl
    · exact Outcome.barren_leaving rfl
  · exact Outcome.barren_of_not_fails rfl
  · exact Outcome.barren_of_not_fails rfl
  · rw [Log.result_bind]
    split
    · exact Outcome.barren_consuming _ (.inl rfl)
    · exact Outcome.barren_consuming _ (.inr rfl)
  · exact Outcome.barren_consuming _ (.inl rfl)
  · exact Outcome.barren_consuming _ (.inl rfl)
  · exact Outcome.barren_telling
  · exact Outcome.barren_telling
  · exact Outcome.barren_of_not_fails rfl
  · exact Outcome.barren_of_not_fails rfl
  all_goals exact Outcome.barren_telling

end Use

/-! ## Stores -/

namespace Store

/-- All slots are as they have to be. -/
def Sound (s : Store) : Prop := ∀ c ∈ s, c.Sound

variable {s : Store}

theorem Sound.slot (hs : s.Sound) (a : Nat) : (s.slot a).Sound := by
  unfold Store.slot
  cases h : s[a]? with
  | none => exact Cell.sound_gone
  | some c => exact hs c (List.mem_of_getElem? h)

theorem Sound.add (hs : s.Sound) {c : Cell} (hc : c.Sound) : Sound (s ++ [c]) := by
  intro d hd
  rcases List.mem_append.1 hd with hd | hd
  · exact hs d hd
  · rwa [List.mem_singleton.1 hd]

theorem Sound.put (hs : s.Sound) (a : Nat) {o : Outcome} (ho : o.Sound) : (s.put a o).Sound := by
  obtain ⟨r, left, added⟩ := o
  intro d hd
  rcases List.mem_append.1 hd with hd | hd
  · cases left with
    | none => exact hs d hd
    | some c =>
      rcases List.mem_or_eq_of_mem_set hd with hd | rfl
      · exact hs d hd
      · exact ho d List.mem_cons_self
  · exact ho d (List.mem_append_right _ hd)

/-- An operation keeps all slots as they have to be. -/
theorem step_sound (hs : s.Sound) (x : Operation) : (s.step x).result.2.Sound := by
  cases x with
  | bring t v => exact hs.add (Cell.sound_live t v)
  | read t text =>
    simp only [step, Log.result_bind]
    split
    · exact hs.add (Cell.sound_live _ _)
    · exact hs
  | fromPointer typeName p =>
    simp only [step]
    split
    · exact hs
    · exact hs
  | use a u => exact hs.put a (u.act_sound (hs.slot a))

/-- So does any number of operations. -/
theorem run_sound (hs : s.Sound) (xs : List Operation) : (s.run xs).result.2.Sound := by
  induction xs generalizing s with
  | nil => exact hs
  | cons x xs ih => exact ih (step_sound hs x)

/-! ## Failures -/

theorem slot_put_of_ne {a i : Nat} {o : Outcome} (ho : o.added = none) (hi : i ≠ a) :
    (s.put a o).slot i = s.slot i := by
  unfold put
  rw [ho, Option.toList_none, List.append_nil]
  cases o.left with
  | none => rfl
  | some c =>
    unfold slot
    rw [List.getElem?_set_ne hi.symm]

theorem length_put {a : Nat} {o : Outcome} (ho : o.added = none) :
    (s.put a o).length = s.length := by
  unfold put
  rw [ho, Option.toList_none, List.append_nil]
  cases o.left with
  | none => rfl
  | some c => exact List.length_set

/-- An operation that fails and is not about a slot changes nothing. -/
theorem step_eq_of_fails {x : Operation} (hx : ∀ a u, x ≠ .use a u)
    (hf : (s.step x).result.1.fails = true) : (s.step x).result.2 = s := by
  cases x with
  | bring t v => cases hf
  | read t text =>
    simp only [step, Log.result_bind] at hf ⊢
    split at hf
    · cases hf
    · rfl
  | fromPointer typeName p =>
    simp only [step] at hf ⊢
    split at hf
    · cases hf
    · rfl
  | use a u => exact absurd rfl (hx a u)

theorem isLive_slot_put {a : Nat} {o : Outcome} (ho : o.added = none)
    (hl : ∀ c ∈ o.left, c.isLive = false) :
    (s.put a o).slot a = s.slot a ∨ ((s.put a o).slot a).isLive = false := by
  unfold put
  rw [ho, Option.toList_none, List.append_nil]
  cases h : o.left with
  | none => exact .inl rfl
  | some c =>
    refine .inr ?_
    show (((s.set a c)[a]?).getD .gone).isLive = false
    rw [List.getElem?_set_self']
    cases s[a]? with
    | none => rfl
    | some d => exact hl c h

/-- An operation that fails adds nothing, and leaves all slots as they are; only the one that it is
about may be left without a value. -/
theorem step_of_fails {x : Operation} (hf : (s.step x).result.1.fails = true) :
    (s.step x).result.2.length = s.length ∧
    ∀ i, (s.step x).result.2.slot i = s.slot i ∨
      (∃ u, x = .use i u) ∧ ((s.step x).result.2.slot i).isLive = false := by
  by_cases hx : ∃ a u, x = .use a u
  · obtain ⟨a, u, rfl⟩ := hx
    obtain ⟨ho, hl⟩ := u.act_barren (s.slot a) hf
    refine ⟨length_put ho, fun i => ?_⟩
    by_cases hi : i = a
    · subst hi
      exact (isLive_slot_put ho hl).imp_right fun h => ⟨⟨u, rfl⟩, h⟩
    · exact .inl (slot_put_of_ne ho hi)
  · rw [step_eq_of_fails (fun a u h => hx ⟨a, u, h⟩) hf]
    exact ⟨rfl, fun _ => .inl rfl⟩

/-! ## Ways in -/

/-- What a store is left with, and what is answered, when `v` is refined into the slot `a`: the value
if it passes, and a violation that gives it back otherwise. -/
def settle (s : Store) (a : Nat) (t : Ty) (p : Predicate) (v : t.Val) : Reply × Store :=
  if h : (t.requirement p).accepts v = true then
    (.done, s.set a (.live (.refined t p) ⟨v, h⟩))
  else
    (.rejected t ((t.requirement p).violation v), s.set a (.violation t ((t.requirement p).violation v)))

theorem settle_eq (s : Store) (a : Nat) (t : Ty) (p : Predicate) (v : t.Val) :
    let o := Outcome.ofRefinement ((t.requirement p).refine v).result
    (o.reply, s.put a o) = s.settle a t p v := by
  unfold settle
  split
  · next h =>
    rw [Requirement.refine_of_accepts h]
    exact Prod.ext rfl (List.append_nil _)
  · next h =>
    rw [Requirement.refine_of_rejects (Bool.eq_false_iff.2 h)]
    exact Prod.ext rfl (List.append_nil _)

theorem step_refine {a : Nat} {t : Ty} {v : t.Val} (h : s.slot a = .live t v) (way : Entrance)
    (p : Predicate) : (s.step (.use a (.refine way p))).result = s.settle a t p v := by
  rw [← settle_eq]
  simp only [step, h, Use.act, Entrance.refine_eq]
  rfl

theorem step_tryMap {a : Nat} {t : Ty} {p : Predicate} {x : Refined (t.requirement p)}
    (h : s.slot a = .live (.refined t p) x) (f : Mapping) :
    (s.step (.use a (.tryMap f))).result = s.settle a t p (f t x.value) := by
  rw [← settle_eq]
  simp only [step, h, Use.act]
  rfl

/-- Soundness and completeness of refinement over whole runs. In every reachable store all
refinements are met; an operation that fails brings no value about and leaves all others as they
are; and every way in lets in exactly the values that pass, and gives back all others. -/
theorem refine_sound_complete :
    (∀ xs : List Operation, Sound (run [] xs).result.2) ∧
    (∀ (s : Store) (x : Operation), (s.step x).result.1.fails = true →
      (s.step x).result.2.length = s.length ∧
      ∀ i, (s.step x).result.2.slot i = s.slot i ∨
        (∃ u, x = .use i u) ∧ ((s.step x).result.2.slot i).isLive = false) ∧
    ∀ (s : Store) (a : Nat) (t : Ty) (p : Predicate) (v : t.Val),
      (s.slot a = .live t v → ∀ way, (s.step (.use a (.refine way p))).result = s.settle a t p v) ∧
      ∀ (x : Refined (t.requirement p)) (f : Mapping), s.slot a = .live (.refined t p) x →
        f t x.value = v → (s.step (.use a (.tryMap f))).result = s.settle a t p v := by
  refine ⟨run_sound fun c hc => absurd hc List.not_mem_nil, fun s x => step_of_fails, ?_⟩
  intro s a t p v
  refine ⟨fun h way => step_refine h way p, ?_⟩
  rintro x f h rfl
  exact step_tryMap h f

/-- Truth values that have to be true: one that passes, one that does not, and one that no longer
does once it is changed. -/
theorem refine_sound_complete_bools :
    let p : Predicate := .atom (.compare .equal .natural (.bool true))
    let s : Store := [.live .bool true, .live .bool false, .live (.refined .bool p) ⟨true, rfl⟩]
    let f : Mapping := fun t v => match t, v with
      | .bool, v => !v
      | _, v => v
    ((s.step (.use 1 (.refine .method p))).result.2.slot 0 = s.slot 0 ∨
      (∃ u, Operation.use 1 (.refine .method p) = .use 0 u) ∧
        ((s.step (.use 1 (.refine .method p))).result.2.slot 0).isLive = false) ∧
    (s.step (.use 0 (.refine .function p))).result = s.settle 0 .bool p true ∧
    (s.step (.use 2 (.tryMap f))).result = s.settle 2 .bool p false := by
  intro p s f
  obtain ⟨-, hfail, hsettle⟩ := refine_sound_complete
  exact ⟨(hfail s (.use 1 (.refine .method p)) rfl).2 0,
    (hsettle s 0 .bool p true).1 rfl .function,
    (hsettle s 2 .bool p false).2 ⟨true, rfl⟩ f rfl rfl⟩

end Store

end Refinement
