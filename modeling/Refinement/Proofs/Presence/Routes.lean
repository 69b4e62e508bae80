import Mathlib.Data.List.Nodup
import Refinement.Proofs.Presence.Histories
import Refinement.Proofs.Store.Sessions

/-!
# Ways out of a wrapper and back in

What is inside a wrapper can be taken out as an optional value or one by one, and wrapped again. Both
states of the wrapper come back from there: a value is the same, and that there is none stays so, or it
is an error. In particular a wrapper that holds no value is never taken for one that holds an optional
value which is not there.

* `Present.Wraps`: what becomes of sources that may be absent; `Present.wraps_option`,
  `Present.wraps_pointer`, `Present.wraps_constPointer`: this holds of them all.
* `Present.Route`: the ways out of a wrapper and back in.
* `Present.Route.travel_holding`, `Present.Route.travel_uninitialized`: any number of them;
  `Present.Route.travel_injective`: the states of a wrapper stay apart.
* `Store.run_collect`, `Store.run_collect_copies`, `Store.run_fromNullable`: the same in a slot of a store.
* `PresentSession.step_fromNullable`, `PresentSession.step_fromPointer`, `PresentSession.step_roundTrip`:
  the same in a session.
* `Present.reentry_loses_nothing`: all of this.
-/

namespace Refinement

/-! ## Sources that may be absent -/

namespace Pointer

variable {α : Type}

theorem value?_eq_some_iff {p : Pointer α} {q : NonNull α} :
    Nullable.value? p = some q ↔ q.pointer = p := by
  by_cases hp : p.address = 0
  · have hnone : Nullable.value? p = (none : Option (NonNull α)) := dif_pos hp
    rw [hnone]
    refine ⟨nofun, fun h => ?_⟩
    subst h
    exact absurd hp q.address_ne_zero
  · have hsome : Nullable.value? p = some (⟨p, hp⟩ : NonNull α) := dif_neg hp
    rw [hsome, Option.some.injEq]
    refine ⟨fun h => h ▸ rfl, fun h => ?_⟩
    subst h
    rfl

theorem value?_eq_none_iff {p : Pointer α} :
    (Nullable.value? p : Option (NonNull α)) = none ↔ p = null := by
  obtain ⟨address⟩ := p
  by_cases hp : address = 0
  · subst hp
    exact ⟨fun _ => rfl, fun _ => rfl⟩
  · have hsome : Nullable.value? (Pointer.mk address) = some (⟨⟨address⟩, hp⟩ : NonNull α) := dif_neg hp
    rw [hsome]
    exact ⟨nofun, fun h => absurd (congrArg Pointer.address h) hp⟩

end Pointer

namespace Present

variable {α : Type} {n : String}

/-- Sources that may be absent are wrapped just if they are not. The wrapper keeps what was held, and the
error names the type of the values. -/
structure Wraps {source : Type} [Nullable source α] (n : String) (absent : source)
    (held : α → source) : Prop where
  /-- A source is wrapped just if it holds something, which is kept. -/
  ok_iff : ∀ (s : source) (p : Present α), ofNullable n s = .ok p ↔ ∃ v, held v = s ∧ p = .holding v
  /-- It is an error just if it is absent. -/
  error_iff : ∀ (s : source) (e : NullValueError), ofNullable n s = .error e ↔ s = absent ∧ e = ⟨n⟩

theorem wraps_of_value? {source : Type} [Nullable source α] {absent : source} {held : α → source}
    (hsome : ∀ s v, Nullable.value? s = some v ↔ held v = s)
    (hnone : ∀ s : source, Nullable.value? s = none ↔ s = absent) : Wraps n absent held where
  ok_iff s p := by
    simp only [← hsome]
    unfold ofNullable
    cases Nullable.value? s with
    | none => simp
    | some v => simp [eq_comm]
  error_iff s e := by
    rw [← hnone]
    unfold ofNullable
    cases Nullable.value? s with
    | none => simp [eq_comm]
    | some v => simp

theorem wraps_option (n : String) : Wraps n none (some : α → Option α) :=
  wraps_of_value? (fun _ _ => eq_comm) fun _ => Iff.rfl

theorem wraps_pointer (n : String) : Wraps n .null (Pointer.NonNull.pointer : _ → Pointer α) :=
  wraps_of_value? (fun _ _ => Pointer.value?_eq_some_iff) fun _ => Pointer.value?_eq_none_iff

theorem wraps_constPointer (n : String) :
    Wraps n .null fun q : Pointer.NonNull α => (⟨q.pointer.address⟩ : ConstPointer α) := by
  refine wraps_of_value? (fun s q => ?_) fun s => ?_
  · refine Pointer.value?_eq_some_iff.trans ⟨fun h => ?_, fun h => ?_⟩
    · rw [h]
      rfl
    · rw [← h]
      rfl
  · refine Pointer.value?_eq_none_iff.trans ⟨fun h => ?_, fun h => ?_⟩
    · exact congrArg ConstPointer.mk (congrArg Pointer.address h)
    · exact congrArg ConstPointer.toPointer h

/-! ## Routes -/

/-- The ways out of a wrapper and back in. -/
inductive Route where
  /-- The values inside are taken one by one and collected. -/
  | collected
  /-- The optional value is taken for a sequence, of which the first element is wrapped. -/
  | first
  /-- The optional value is wrapped, if it is there. -/
  | nullable
deriving DecidableEq

namespace Route

/-- Takes a wrapper out and back in. -/
def take (n : String) (p : Present α) : Route → Logged (Except NullValueError (Present α))
  | .collected => .ok <$> ofFirst n p.toList
  | .first => .ok <$> ofFirst n p.toOption.toList
  | .nullable => pure (ofNullable n p.toOption)

/-- Takes a wrapper out and back in several times. -/
def travel (n : String) : List Route → Present α → Logged (Except NullValueError (Present α))
  | [], p => pure (.ok p)
  | way :: ways, p => (way.take n p).andThen (travel n ways)

/-- A value comes back in silence. -/
theorem take_holding (way : Route) (v : α) : way.take n (.holding v) = pure (.ok (.holding v)) := by
  cases way <;> rfl

/-- That there is none is reported, and comes back unless a value is required. -/
theorem take_uninitialized (way : Route) : way.take n (.uninitialized : Present α) =
    if way = .nullable then pure (.error ⟨n⟩) else .report (.emptySequence n) (.ok .uninitialized) := by
  cases way <;> rfl

theorem travel_holding (ways : List Route) (v : α) :
    travel n ways (.holding v) = pure (.ok (.holding v)) := by
  induction ways with
  | nil => rfl
  | cons way ways ih => rw [travel, take_holding, Log.pure_ok_andThen, ih]

theorem travel_uninitialized (ways : List Route) : travel n ways (.uninitialized : Present α) =
    ⟨(ways.takeWhile (· ≠ .nullable)).map fun _ => .emptySequence n,
      if .nullable ∈ ways then .error ⟨n⟩ else .ok .uninitialized⟩ := by
  induction ways with
  | nil => rfl
  | cons way ways ih =>
    rw [travel, take_uninitialized]
    by_cases hway : way = .nullable
    · subst hway
      rw [if_pos rfl, Log.pure_error_andThen]
      apply Log.ext <;> simp
    · have hne : ¬ Route.nullable = way := fun h => hway h.symm
      rw [if_neg hway, List.takeWhile_cons_of_pos (by simpa using hway)]
      apply Log.ext <;> simp [Log.andThen, ih, hne]

/-- Wrappers in different states do not become the same. -/
theorem travel_injective (n : String) (ways : List Route) :
    Function.Injective fun p : Present α => (travel n ways p).result := by
  intro p q h
  simp only at h
  cases p with
  | uninitialized =>
    cases q with
    | uninitialized => rfl
    | holding w =>
      rw [travel_uninitialized, travel_holding] at h
      split at h <;> cases h
  | holding v =>
    cases q with
    | uninitialized =>
      rw [travel_uninitialized, travel_holding] at h
      split at h <;> cases h
    | holding w =>
      rw [travel_holding, travel_holding] at h
      exact Except.ok.inj h

theorem travel_singleton (n : String) (way : Route) (p : Present α) :
    travel n [way] p = way.take n p :=
  Log.andThen_ok _

theorem take_injective (n : String) (way : Route) :
    Function.Injective fun p : Present α => (way.take n p).result := by
  have h := travel_injective (α := α) n [way]
  simpa only [travel_singleton] using h

/-- None at all, an optional value that is not there and one that is stay apart. -/
theorem take_nodup (n : String) (way : Route) (v : α) :
    ([.uninitialized, .holding none, .holding (some v)].map fun p => (way.take n p).result).Nodup := by
  refine List.Nodup.map (take_injective n way) ?_
  simp

end Route

/-- What comes of a wrapper on the ways out and back in. -/
structure Returns (n : String) (p : Present α) : Prop where
  /-- The values inside are collected. -/
  collected : ofFirst n p.toList = ⟨if p.isSome then [] else [.emptySequence n], p⟩
  /-- The first one of the optional value is wrapped. -/
  first : ofFirst n p.toOption.toList = ⟨if p.isSome then [] else [.emptySequence n], p⟩
  /-- The optional value is wrapped, if it is there. -/
  nullable : ofNullable n p.toOption = if p.isSome then .ok p else .error ⟨n⟩

theorem returns (n : String) (p : Present α) : p.Returns n := by
  cases p with
  | uninitialized => exact ⟨rfl, rfl, rfl⟩
  | holding v => exact ⟨rfl, rfl, rfl⟩

/-- What is wrapped is the optional value of the wrapper. -/
theorem toOption_of_ofNullable {o : Option α} {p : Present α} (h : ofNullable n o = .ok p) :
    p.toOption = o := by
  obtain ⟨v, rfl, rfl⟩ := ((wraps_option n).ok_iff o p).1 h
  rfl

end Present

/-! ## Slots -/

namespace Store

variable {s : Store} {a : Nat} {t : Ty} {x : Present t.Val}

/-- The values inside a wrapper are collected into the same wrapper. -/
theorem act_collect_toList (kind : ListKind) (x : Present t.Val) :
    Use.collect.act (.live (.list kind t) x.toList) =
      ⟨if x.isSome then [] else [.emptySequence t.name],
        .leaving (.taken t x.toOption) (.live (.present t) x)⟩ := by
  cases x <;> rfl

/-- They are taken out of the slot and collected there. -/
theorem run_collect (h : s.slot a = .live (.present t) x) :
    s.run [.use a (.items true), .use a .collect] =
      ⟨if x.isSome then [] else [.emptySequence t.name], ([.items t x.toList, .taken t x.toOption], s)⟩ := by
  have hrun := run_leaving_leaving (u := .items true) h nofun rfl (act_collect_toList .vector x)
  rwa [set_slot h nofun] at hrun

/-- Copies of them are collected in a new slot. -/
theorem run_collect_copies (h : s.slot a = .live (.present t) x) (kind : ListKind) :
    s.run [.use a (.items false), .bring (.list kind t) x.toList, .use s.length .collect] =
      ⟨if x.isSome then [] else [.emptySequence t.name],
        ([.items t x.toList, .done, .taken t x.toOption], s ++ [.live (.present t) x])⟩ := by
  have hitems : s.step (.use a (.items false)) = ⟨[], (.items t x.toList, s)⟩ := by
    rw [step_use h]
    exact Log.ext rfl (congrArg (Prod.mk _) (put_telling _))
  have hbring : s.step (.bring (.list kind t) x.toList) =
      ⟨[], (.done, s ++ [.live (.list kind t) x.toList])⟩ := rfl
  have hcollect := step_leaving (slot_append s _) (act_collect_toList kind x)
  rw [set_append] at hcollect
  have hrest := run_cons hcollect (show run (s ++ [.live (.present t) x]) [] = ⟨[], ([], _)⟩ from rfl)
  rw [List.append_nil] at hrest
  exact run_cons hitems (run_cons hbring hrest)

/-- The optional value is taken out of the slot and wrapped there, if it is there. -/
theorem run_fromNullable (h : s.slot a = .live (.present t) x) :
    s.run [.use a (.option true), .use a .fromNullable] =
      pure (if x.isSome then ([.option t x.toOption, .done], s)
        else ([.option t x.toOption, .absent ⟨t.name⟩], s.set a .gone)) := by
  cases x with
  | uninitialized => exact run_leaving_leaving (u := .option true) h nofun rfl rfl
  | holding v =>
    have hrun := run_leaving_leaving (u := .option true) (w := .fromNullable) h nofun rfl rfl
    rwa [set_slot h nofun] at hrun

end Store

/-! ## Sessions -/

namespace PresentSession

variable {t : Ty}

theorem step_fromNullable (s : PresentSession t) (o : Option t.Val) :
    s.step (.fromNullable o) =
      pure (match o with
        | some v => (.done, s.add (.holding v))
        | none => (.absent ⟨t.name⟩, s)) := by
  cases o <;> rfl

theorem step_fromPointer (s : PresentSession t) (o : Option t.Val) :
    s.step (.fromPointer o) =
      pure (match o with
        | some v => (.pointer true v, s)
        | none => (.absentPointer ⟨pointerName t⟩, s)) := by
  cases o <;> rfl

theorem need_of_slot {s : PresentSession t} {a : Nat} {x : Present t.Val} (h : s.slot? a = some x)
    (f : Present t.Val → Logged (PresentReply t × PresentSession t)) : s.need a f = f x := by
  unfold need
  rw [h]

theorem step_roundTrip {s : PresentSession t} {a : Nat} {x : Present t.Val} (h : s.slot? a = some x) :
    s.step (.roundTrip a) =
      pure (if x.isSome then (.done, s) else (.absent ⟨t.name⟩, s.set a none)) := by
  refine (need_of_slot h _).trans ?_
  cases x with
  | uninitialized => rfl
  | holding v =>
    have hset : s.set a (some (.holding v)) = s := Present.Slots.set_of_get? h
    exact congrArg (fun s' => pure (PresentReply.done, s')) hset

end PresentSession

namespace Present

/-- On the ways out of a wrapper and back in nothing is lost. Values of all types come back as they were,
and so does that there is none, unless a value is required. What may be absent is wrapped just if it is
not. None at all is not taken for an optional value that is not there. In a store and in a session it is
the same: the slot holds what it held before. -/
theorem reentry_loses_nothing :
    (∀ (α : Type) (n : String) (p : Present α), p.Returns n) ∧
    (∀ (α : Type) (n : String), Wraps n none (some : α → Option α) ∧
      Wraps n .null (Pointer.NonNull.pointer : Pointer.NonNull α → Pointer α) ∧
      Wraps n .null fun q : Pointer.NonNull α => (⟨q.pointer.address⟩ : ConstPointer α)) ∧
    (∀ (α : Type) (n : String) (o : Option α) (p : Present α),
      ofNullable n o = .ok p → p.toOption = o) ∧
    (∀ (α : Type) (n : String) (ways : List Route),
      Function.Injective (fun p : Present α => (Route.travel n ways p).result) ∧
      (∀ v : α, Route.travel n ways (.holding v) = pure (.ok (.holding v))) ∧
      Route.travel n ways (.uninitialized : Present α) =
        ⟨(ways.takeWhile (· ≠ .nullable)).map fun _ => .emptySequence n,
          if .nullable ∈ ways then .error ⟨n⟩ else .ok .uninitialized⟩) ∧
    (∀ (β : Type) (n : String) (way : Route),
      (∀ b : β, ([.uninitialized, .holding none, .holding (some b)].map fun p =>
        (way.take n p).result).Nodup) ∧
      ∀ b c : β, b ≠ c →
        (way.take n (.holding (some b))).result ≠ (way.take n (.holding (some c))).result) ∧
    (∀ (s : Store) (a : Nat) (t : Ty) (x : Present t.Val), s.slot a = .live (.present t) x →
      s.run [.use a (.items true), .use a .collect] =
        ⟨if x.isSome then [] else [.emptySequence t.name],
          ([.items t x.toList, .taken t x.toOption], s)⟩ ∧
      (∀ kind, s.run [.use a (.items false), .bring (.list kind t) x.toList, .use s.length .collect] =
        ⟨if x.isSome then [] else [.emptySequence t.name],
          ([.items t x.toList, .done, .taken t x.toOption], s ++ [.live (.present t) x])⟩) ∧
      s.run [.use a (.option true), .use a .fromNullable] =
        pure (if x.isSome then ([.option t x.toOption, .done], s)
          else ([.option t x.toOption, .absent ⟨t.name⟩], s.set a .gone))) ∧
    ∀ (t : Ty) (s : PresentSession t),
      (∀ o, s.step (.fromNullable o) = pure (match o with
        | some v => (.done, s.add (.holding v))
        | none => (.absent ⟨t.name⟩, s))) ∧
      (∀ o, s.step (.fromPointer o) = pure (match o with
        | some v => (.pointer true v, s)
        | none => (.absentPointer ⟨PresentSession.pointerName t⟩, s))) ∧
      ∀ a x, s.slot? a = some x → s.step (.roundTrip a) =
        pure (if x.isSome then (.done, s) else (.absent ⟨t.name⟩, s.set a none)) := by
  refine ⟨fun α n p => returns n p, ?_, ?_, ?_, ?_, ?_, ?_⟩
  · intro α n
    exact ⟨wraps_option n, wraps_pointer n, wraps_constPointer n⟩
  · intro α n o p h
    exact toOption_of_ofNullable h
  · intro α n ways
    exact ⟨Route.travel_injective n ways, Route.travel_holding ways, Route.travel_uninitialized ways⟩
  · intro β n way
    refine ⟨Route.take_nodup n way, fun b c hne h => ?_⟩
    have heq := Route.take_injective n way h
    simp only [holding.injEq, Option.some.injEq] at heq
    exact hne heq
  · intro s a t x h
    exact ⟨Store.run_collect h, Store.run_collect_copies h, Store.run_fromNullable h⟩
  · intro t s
    refine ⟨s.step_fromNullable, s.step_fromPointer, fun a x h => ?_⟩
    exact PresentSession.step_roundTrip h

/-- An optional value that is not there comes back on all ways. None at all is reported where the values
are collected, and where a value is required the slot is empty afterwards. -/
theorem reentry_loses_nothing_option :
    let t : Ty := .option .bool
    let s : Store := [.live (.present t) (Present.holding none), .live (.present t) Present.uninitialized]
    let session : PresentSession t := [some (.holding none), some .uninitialized]
    ofNullable t.name (some none : Option t.Val) = .ok (.holding none) ∧
      (holding (none : t.Val)).toOption = some none ∧
      (Route.first.take t.name (.holding (some true))).result ≠
        (Route.first.take t.name (.holding (some false))).result ∧
      s.run [.use 0 (.option true), .use 0 .fromNullable] = pure ([.option t (some none), .done], s) ∧
      s.run [.use 1 (.items true), .use 1 .collect] =
        ⟨[.emptySequence "core::option::Option<bool>"], ([.items t [], .taken t none], s)⟩ ∧
      session.step (.roundTrip 1) =
        pure (.absent ⟨"core::option::Option<bool>"⟩, [some (.holding none), none]) := by
  intro t s session
  obtain ⟨-, -, back, -, apart, slots, sessions⟩ := reentry_loses_nothing
  have hname : t.name = "core::option::Option<bool>" := by decide
  have hheld : s.slot 0 = .live (.present t) (Present.holding none) := rfl
  have hnone : s.slot 1 = .live (.present t) Present.uninitialized := rfl
  obtain ⟨hcollect, -, -⟩ := slots s 1 t .uninitialized hnone
  obtain ⟨-, -, hwrap⟩ := slots s 0 t (.holding none) hheld
  obtain ⟨-, -, hturn⟩ := sessions t session
  rw [← hname]
  exact ⟨rfl, back t.Val t.name (some none) (.holding none) rfl, (apart Bool t.name .first).2 true false nofun,
    hwrap, hcollect, hturn 1 .uninitialized rfl⟩

end Present

end Refinement
