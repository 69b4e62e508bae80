import Refinement.Proofs.Reading.Judgement
import Refinement.Session.Store

/-!
# What is reported

The events of a run are those that its failures call for, in the order of the operations: a value
that is turned away, an empty sequence that a wrapper is built from, a value that is asked of a
wrapper that holds none. Everything else is silent.

* `Use.calls`: the events that an operation on a slot calls for.
* `Reply.calls`: the events that go with an answer.
* `Store.Entry.Told`: what one operation of a run has reported.
* `Store.run_reports`: the events of a run are those of its operations, and no others.
-/

namespace Refinement

open Json

/-! ## One slot -/

/-- The events that an operation on a slot calls for. -/
def Use.calls : Use → Cell → List Event
  | .refine _ p, .live t v =>
    if (t.requirement p).accepts v = true then [] else [.rejected p.name p.description]
  | .tryMap f, .live (.refined t p) x =>
    if (t.requirement p).accepts (f t (Refined.value x)) = true then []
    else [.rejected p.name p.description]
  | .takeFirst, .live (.list _ t) vs | .collect, .live (.list _ t) vs =>
    if List.isEmpty vs then [.emptySequence t.name] else []
  | .value _, .live (.present t) x =>
    if Present.isNone x then [.uninitializedRead t.name] else []
  | _, _ => []

/-- The events that go with an answer: a violation is reported with its own name and words, and what
is missing with the name of its type. -/
def Reply.calls : Reply → List Event
  | .rejected _ x => [.rejected x.predicate x.description]
  | .taken t none => [.emptySequence t.name]
  | .uninitialized t _ => [.uninitializedRead t.name]
  | _ => []

namespace Outcome

variable {t : Ty} {p : Predicate}

/-- A refinement reports what it answers. -/
theorem calls_ofRefinement (v : t.Val) :
    ((t.requirement p).refine v).events =
      (if (t.requirement p).accepts v = true then [] else [.rejected p.name p.description]) ∧
    ((t.requirement p).refine v).events =
      (ofRefinement ((t.requirement p).refine v).result).reply.calls := by
  cases ha : (t.requirement p).accepts v with
  | true =>
    rw [Requirement.refine_of_accepts ha]
    exact ⟨rfl, rfl⟩
  | false =>
    rw [Requirement.refine_of_rejects ha]
    exact ⟨rfl, rfl⟩

end Outcome

/-- What is done with a slot reports what it calls for, and what its answer tells. -/
theorem Use.act_events (u : Use) (c : Cell) :
    (u.act c).events = u.calls c ∧ (u.act c).events = (u.act c).result.reply.calls := by
  unfold act
  split
  · rw [Entrance.refine_eq, Log.events_map, Log.result_map]
    exact Outcome.calls_ofRefinement _
  · rw [Log.events_map, Log.result_map]
    exact Outcome.calls_ofRefinement _
  · exact ⟨rfl, rfl⟩
  · exact ⟨rfl, rfl⟩
  · exact ⟨rfl, rfl⟩
  · exact ⟨rfl, rfl⟩
  · exact ⟨rfl, rfl⟩
  · split
    · exact ⟨rfl, rfl⟩
    · exact ⟨rfl, rfl⟩
  · next vs =>
    rcases vs with _ | ⟨v, vs⟩
    · exact ⟨rfl, rfl⟩
    · exact ⟨rfl, rfl⟩
  · next vs =>
    rcases vs with _ | ⟨v, vs⟩
    · exact ⟨rfl, rfl⟩
    · exact ⟨rfl, rfl⟩
  · next consume t x =>
    rcases x with _ | v
    · cases consume <;> exact ⟨rfl, rfl⟩
    · cases consume <;> exact ⟨rfl, rfl⟩
  · next consume t x => cases consume <;> exact ⟨rfl, rfl⟩
  · next consume t x => cases consume <;> exact ⟨rfl, rfl⟩
  · exact ⟨rfl, rfl⟩
  · exact ⟨rfl, rfl⟩
  · exact ⟨rfl, rfl⟩
  · exact ⟨rfl, rfl⟩
  · exact ⟨rfl, rfl⟩
  · exact ⟨rfl, rfl⟩
  · exact ⟨rfl, rfl⟩
  · exact ⟨rfl, rfl⟩
  · exact ⟨rfl, rfl⟩
  · exact ⟨rfl, rfl⟩
  · exact ⟨rfl, rfl⟩
  · -- Where an operation does not find what it needs, it calls for nothing.
    refine ⟨?_, rfl⟩
    unfold calls
    split
    all_goals first | rfl | grind

/-! ## Whole runs -/

namespace Store

/-- One operation of a run: the store that it found, what it reported, and what it answered. -/
structure Entry where
  /-- The store before the operation. -/
  before : Store
  /-- The operation. -/
  operation : Operation
  /-- What was reported. -/
  events : List Event
  /-- What was answered. -/
  reply : Reply

/-- An operation has reported what it calls for. On a slot this is also what its answer tells; a
document tells it by its survey, up to the violation that ends reading. -/
def Entry.Told (e : Entry) : Prop :=
  match e.operation with
  | .bring .. => e.events = []
  | .fromPointer .. => e.events = []
  | .use a u => e.events = u.calls (e.before.slot a) ∧ e.events = e.reply.calls
  | .read t text => ∃ m, Narrates (t.surveyJson text).events e.events m ∧
    ∀ s, m = some s → e.reply = .unreadable (.data (.violation s))

/-- What an operation reports and answers in a store. -/
def entry (s : Store) (x : Operation) : Entry := ⟨s, x, (s.step x).events, (s.step x).result.1⟩

/-- The operations of a run, one after another. -/
def history (s : Store) : List Operation → List Entry
  | [] => []
  | x :: xs => s.entry x :: history (s.step x).result.2 xs

/-- Every operation reports what it calls for. -/
theorem entry_told (s : Store) (x : Operation) : (s.entry x).Told := by
  cases x with
  | bring t v => rfl
  | fromPointer typeName p =>
    show (s.step (.fromPointer typeName p)).events = []
    simp only [step]
    split
    · rfl
    · rfl
  | use a u =>
    obtain ⟨hc, hr⟩ := u.act_events (s.slot a)
    have he : (s.step (.use a u)).events = (u.act (s.slot a)).events := List.append_nil _
    exact ⟨he.trans hc, he.trans hr⟩
  | read t text =>
    obtain ⟨m, hm, hs, -⟩ := t.ofJson_judged text
    have he : (s.step (.read t text)).events = (t.ofJson text).events := by
      simp only [step, Log.events_bind]
      split
      · exact List.append_nil _
      · exact List.append_nil _
    refine ⟨m, ?_, fun message h => ?_⟩
    · rw [← he] at hm
      exact hm
    · show (s.step (.read t text)).result.1 = _
      simp only [step, Log.result_bind, hs message h]
      rfl

theorem run_eq_history (s : Store) (xs : List Operation) :
    (s.run xs).events = (s.history xs).flatMap Entry.events ∧
    (s.run xs).result.1 = (s.history xs).map Entry.reply := by
  induction xs generalizing s with
  | nil => exact ⟨rfl, rfl⟩
  | cons x xs ih =>
    obtain ⟨he, hr⟩ := ih (s.step x).result.2
    constructor
    · rw [history, List.flatMap_cons, ← he]
      show _ ++ (_ ++ []) = _
      rw [List.append_nil]
      rfl
    · rw [history, List.map_cons, ← hr]
      rfl

theorem told_of_mem_history {s : Store} {xs : List Operation} :
    ∀ e ∈ s.history xs, e.Told := by
  induction xs generalizing s with
  | nil => exact fun e he => absurd he List.not_mem_nil
  | cons x xs ih => exact List.forall_mem_cons.2 ⟨s.entry_told x, ih⟩

end Store

end Refinement
