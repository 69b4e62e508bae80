import Mathlib.Data.List.Induction
import Refinement.Proofs.Presence.Reading
import Refinement.Session.Present

/-!
# Where uninitialized wrappers come from

Wrappers of values of any type are built, copied, looked at and taken out again, in any order. A
wrapper stays what it was built as, so it is uninitialized only if it goes back to a sequence
without elements, and all views of it say the same at all times.

* `Present.Source`: what a wrapper is built from; `Source.IsEmpty`: a sequence without elements.
* `Present.View`: the ways to look at a wrapper; `View.told`: what they say of an optional value.
* `Present.Slots.step`: what is done with wrappers in slots, and `Slots.step_effect`: all it can do.
* `Present.Slots.Origin`: the source that a wrapper in a slot goes back to.
* `Present.Slots.uninitialized_only_if_empty`: all that is kept in a run.
* `PresentSession.run_slots`: sessions are such runs.
-/

namespace Refinement

namespace Present

open Json (Reader readPresent readWhole)
open Json.Grammar (ArrayText Blank)

variable {α : Type} {n : String} {read : Reader Event α} {x y : Present α} {a : Nat}

/-! ## Sources -/

/-- What a wrapper is built from. -/
inductive Source (α : Type) : Type 1 where
  /-- A value. -/
  | value (v : α)
  /-- An optional value, a pointer, or whatever else may be absent. -/
  | nullable {source : Type} [Nullable source α] (s : source)
  /-- Several values, of which the first is taken. -/
  | sequence (vs : List α)
  /-- A JSON text. -/
  | text (json : String)
  /-- The beginning of a longer JSON text. -/
  | part (cs : List Char)

/-- Why there is no wrapper. -/
inductive Failure where
  /-- The value is absent. -/
  | absent (e : NullValueError)
  /-- The text could not be read. -/
  | unreadable (e : Json.Fault)

namespace Source

/-- Builds a wrapper of a value, which `read` reads from texts. -/
def build (n : String) (read : Reader Event α) : Source α → Logged (Except Failure (Present α))
  | .value v => pure (.ok (.holding v))
  | @nullable _ _ _ s => pure ((ofNullable n s).mapError .absent)
  | .sequence vs => .ok <$> ofFirst n vs
  | .text json => Except.mapError .unreadable <$> readWhole (readPresent n read) json
  | .part cs => (fun x => (x.map Prod.fst).mapError .unreadable) <$> readPresent n read cs

/-- Whether it is a sequence without elements, be it in a text. -/
def IsEmpty : Source α → Prop
  | .value _ => False
  | @nullable .. => False
  | .sequence vs => vs = []
  | .text json => ∃ w u, json.toList = w ++ u ∧ Blank u ∧ ArrayText none w
  | .part cs => ∃ w r, cs = w ++ r ∧ ArrayText none w

theorem mapError_eq_ok_iff {ε ε' β : Type} {f : ε → ε'} {x : Except ε β} {v : β} :
    x.mapError f = .ok v ↔ x = .ok v := by
  cases x with
  | error e => exact ⟨nofun, nofun⟩
  | ok w => exact ⟨fun h => congrArg _ (Except.ok.inj h), fun h => congrArg _ (Except.ok.inj h)⟩

/-- An uninitialized wrapper is built from what is empty, and from nothing else. -/
theorem build_eq_uninitialized_iff (n : String) (read : Reader Event α) (c : Source α) :
    (c.build n read).result = .ok .uninitialized ↔ c.IsEmpty := by
  cases c with
  | value v => exact ⟨nofun, nofun⟩
  | nullable s =>
    refine mapError_eq_ok_iff.trans ⟨fun h => ?_, nofun⟩
    unfold ofNullable at h
    split at h
    · cases h
    · cases h
  | sequence vs =>
    cases vs with
    | nil => exact ⟨fun _ => rfl, fun _ => rfl⟩
    | cons v vs => exact ⟨nofun, nofun⟩
  | text json =>
    refine mapError_eq_ok_iff.trans (Json.readWhole_ok_iff.trans ⟨?_, ?_⟩)
    · rintro ⟨u, hread, hu⟩
      obtain ⟨w, hw, harray⟩ := Json.readPresent_uninitialized_iff.1 hread
      exact ⟨w, u, hw, hu, harray⟩
    · rintro ⟨w, u, hw, hu, harray⟩
      exact ⟨u, Json.readPresent_uninitialized_iff.2 ⟨w, hw, harray⟩, hu⟩
  | part cs =>
    refine mapError_eq_ok_iff.trans ⟨fun h => ?_, ?_⟩
    · cases hread : (readPresent n read cs).result with
      | error e =>
        rw [hread] at h
        cases h
      | ok x =>
        obtain ⟨x, r⟩ := x
        rw [hread] at h
        cases h
        obtain ⟨w, hw, harray⟩ := Json.readPresent_uninitialized_iff.1 hread
        exact ⟨w, r, hw, harray⟩
    · rintro ⟨w, r, hw, harray⟩
      rw [Json.readPresent_uninitialized_iff.2 ⟨w, hw, harray⟩]
      rfl

theorem isSome_build {c : Source α} (h : (c.build n read).result = .ok x) :
    x.isSome = false ↔ c.IsEmpty := by
  rw [← c.build_eq_uninitialized_iff n read, h]
  cases x with
  | uninitialized => exact ⟨fun _ => rfl, fun _ => rfl⟩
  | holding v => exact ⟨nofun, nofun⟩

end Source

/-! ## Views -/

/-- The ways to look at a wrapper. -/
inductive View where
  /-- Whether there is a value. -/
  | isSome
  /-- Whether there is no value. -/
  | isNone
  /-- The value. -/
  | value
  /-- The optional value. -/
  | option
  /-- The values inside, one by one. -/
  | items

/-- What a view says. -/
inductive Answer (α : Type) where
  /-- A verdict. -/
  | verdict (b : Bool)
  /-- The value, or that there is none. -/
  | value (v : Except UninitializedAccessError α)
  /-- An optional value. -/
  | option (v : Option α)
  /-- Several values. -/
  | items (vs : List α)

namespace View

/-- Looks at a wrapper. -/
def ask (n : String) (x : Present α) : View → Logged (Answer α)
  | .isSome => pure (.verdict x.isSome)
  | .isNone => pure (.verdict x.isNone)
  | .value => .value <$> x.value n
  | .option => pure (.option x.toOption)
  | .items => pure (.items x.toList)

/-- What the views say together if there is a value, and if there is none. -/
def told (n : String) : Option α → View → Logged (Answer α)
  | some _, .isSome => pure (.verdict true)
  | some _, .isNone => pure (.verdict false)
  | some v, .value => pure (.value (.ok v))
  | some v, .option => pure (.option (some v))
  | some v, .items => pure (.items [v])
  | none, .isSome => pure (.verdict false)
  | none, .isNone => pure (.verdict true)
  | none, .value => .report (.uninitializedRead n) (.value (.error ⟨n⟩))
  | none, .option => pure (.option none)
  | none, .items => pure (.items [])

/-- All views of a wrapper agree. -/
theorem ask_eq (n : String) (x : Present α) (view : View) :
    view.ask n x = view.told n x.toOption := by
  cases x with
  | uninitialized => cases view <;> rfl
  | holding v => cases view <;> rfl

end View

/-! ## Slots -/

/-- What is done with wrappers in slots. -/
inductive Move (α : Type) : Type 1 where
  /-- Builds a wrapper in a new slot. -/
  | build (c : Source α)
  /-- Copies a wrapper into a new slot. -/
  | copy (a : Nat)
  /-- Looks at a wrapper, and takes it out if `consume` says so. -/
  | look (consume : Bool) (view : View) (a : Nat)
  /-- Turns a wrapper into its optional value and back. -/
  | turn (a : Nat)

/-- What is answered to that. -/
inductive Response (α : Type) where
  /-- It was done. -/
  | done
  /-- A wrapper could not be built. -/
  | failed (e : Failure)
  /-- What a view says. -/
  | answer (x : Answer α)
  /-- There is nothing in the slot. -/
  | gone

/-- Whether a wrapper may be taken out of a slot. -/
def Move.Takes (a : Nat) : Move α → Prop
  | .look true _ b => b = a
  | .turn b => b = a
  | _ => False

/-- Wrappers in slots; `none` is a slot whose wrapper was taken out. -/
abbrev Slots (α : Type) := List (Option (Present α))

namespace Slots

variable {s s' : Slots α} {q : Move α} {xs : List (Move α)} {c : Source α}
  {y' : Option (Present α)}

/-- What is in a slot. There is nothing beyond the last. -/
def get? (s : Slots α) (a : Nat) : Option (Present α) := s[a]?.join

/-- Goes on with the wrapper in a slot, or answers that there is none and changes nothing. -/
def need (s : Slots α) (a : Nat) (f : Present α → Logged (Response α × Slots α)) :
    Logged (Response α × Slots α) :=
  match s.get? a with
  | some x => f x
  | none => pure (.gone, s)

/-- What is done with the slots, and what is answered. -/
def step (n : String) (read : Reader Event α) (s : Slots α) : Move α → Logged (Response α × Slots α)
  | .build c => do
    match ← c.build n read with
    | .ok x => return (.done, s ++ [some x])
    | .error e => return (.failed e, s)
  | .copy a => s.need a fun x => return (.done, s ++ [some x])
  | .look consume view a => s.need a fun x => do
    return (.answer (← view.ask n x), if consume then s.set a none else s)
  | .turn a => s.need a fun x => match ofNullable n x.toOption with
    | .ok y => return (.done, s.set a (some y))
    | .error e => return (.failed (.absent e), s.set a none)

/-- The slots after a step. -/
def next (n : String) (read : Reader Event α) (s : Slots α) (q : Move α) : Slots α :=
  (s.step n read q).result.2

/-- The slots after several steps, of which there are none at first. -/
def run (n : String) (read : Reader Event α) (xs : List (Move α)) : Slots α :=
  xs.foldl (next n read) []

theorem lt_of_get? (h : s.get? a = some x) : a < s.length := by
  refine Nat.lt_of_not_le fun hle => ?_
  unfold get? at h
  rw [List.getElem?_eq_none hle] at h
  cases h

theorem get?_append (h : a < s.length) (y : Option (Present α)) : get? (s ++ [y]) a = s.get? a := by
  unfold get?
  rw [List.getElem?_append_left h]

theorem get?_length (s : Slots α) (y : Option (Present α)) : get? (s ++ [y]) s.length = y := by
  unfold get?
  rw [List.getElem?_concat_length]
  rfl

theorem get?_set_self (s : Slots α) (a : Nat) : get? (s.set a none) a = none := by
  unfold get?
  rw [List.getElem?_set_self']
  cases s[a]? with
  | none => rfl
  | some y => rfl

theorem get?_set_ne {b : Nat} (h : b ≠ a) (s : Slots α) : get? (s.set b none) a = s.get? a := by
  unfold get?
  rw [List.getElem?_set_ne h]

/-! ## What a step can do -/

/-- What a step makes of the slots: nothing else, or one more wrapper, or one less. -/
inductive Effect (n : String) (read : Reader Event α) (s : Slots α) : Move α → Slots α → Prop where
  | none {q : Move α} : Effect n read s q s
  | built {c : Source α} {x : Present α} : (c.build n read).result = .ok x →
    Effect n read s (.build c) (s ++ [some x])
  | copied {a : Nat} {x : Present α} : s.get? a = some x → Effect n read s (.copy a) (s ++ [some x])
  | taken {q : Move α} {a : Nat} : q.Takes a → Effect n read s q (s.set a .none)

theorem need_of_get? (h : s.get? a = some x) (f : Present α → Logged (Response α × Slots α)) :
    s.need a f = f x := by
  unfold need
  rw [h]

theorem effect_need {f : Present α → Logged (Response α × Slots α)}
    (h : ∀ x, s.get? a = some x → Effect n read s q (f x).result.2) :
    Effect n read s q (s.need a f).result.2 := by
  unfold need
  cases hs : s.get? a with
  | none => exact .none
  | some x => exact h x hs

theorem next_build (h : (c.build n read).result = .ok x) :
    s.next n read (.build c) = s ++ [some x] := by
  unfold next step
  rw [Log.result_bind, h]
  rfl

theorem next_copy (h : s.get? a = some x) : s.next n read (.copy a) = s ++ [some x] :=
  congrArg (·.result.2) (need_of_get? h _)

/-- A wrapper is given back by its optional value. -/
theorem set_of_get? {v : α} (h : s.get? a = some (.holding v)) :
    s.set a (some (.holding v)) = s := by
  obtain ⟨ha, hget⟩ := List.getElem?_eq_some_iff.1 (Option.join_eq_some_iff.1 h)
  rw [← hget, List.set_getElem_self]

/-- That is all a step can do. -/
theorem step_effect (n : String) (read : Reader Event α) (s : Slots α) (q : Move α) :
    Effect n read s q (s.next n read q) := by
  cases q with
  | build c =>
    cases h : (c.build n read).result with
    | error e =>
      unfold next step
      rw [Log.result_bind, h]
      exact .none
    | ok x => exact next_build h ▸ .built h
  | copy a => exact effect_need fun x h => .copied h
  | look consume view a =>
    refine effect_need fun x h => ?_
    cases consume with
    | false => exact .none
    | true => exact .taken rfl
  | turn a =>
    refine effect_need fun x h => ?_
    cases x with
    | uninitialized => exact .taken rfl
    | holding v =>
      show Effect n read s _ (s.set a (some (.holding v)))
      rw [set_of_get? h]
      exact .none

/-! ## What stays -/

/-- A wrapper stays as it is, unless it is taken out. -/
theorem Effect.stays_or_taken (h : Effect n read s q s') (hx : s.get? a = some x) :
    s'.get? a = some x ∨ (q.Takes a ∧ s'.get? a = .none) := by
  cases h with
  | none => exact .inl hx
  | built _ => exact .inl ((get?_append (lt_of_get? hx) _).trans hx)
  | copied _ => exact .inl ((get?_append (lt_of_get? hx) _).trans hx)
  | @taken _ b hq =>
    by_cases hb : b = a
    · subst hb
      exact .inr ⟨hq, get?_set_self s b⟩
    · exact .inl ((get?_set_ne hb s).trans hx)

/-- Nothing is changed in the slots; they may be emptied, and new ones may be added. -/
structure Extends (s s' : Slots α) : Prop where
  /-- No slot is given up. -/
  length : s.length ≤ s'.length
  /-- What is in a slot was there before. -/
  get? : ∀ {a x}, a < s.length → s'.get? a = some x → s.get? a = some x

theorem Extends.refl (s : Slots α) : s.Extends s := ⟨Nat.le_refl _, fun _ h => h⟩

theorem Extends.trans {s'' : Slots α} (h : s.Extends s') (h' : s'.Extends s'') : s.Extends s'' where
  length := Nat.le_trans h.length h'.length
  get? ha hx := h.get? ha (h'.get? (Nat.lt_of_lt_of_le ha h.length) hx)

theorem extends_append (s : Slots α) (y : Option (Present α)) : s.Extends (s ++ [y]) where
  length := by
    rw [List.length_append]
    exact Nat.le_add_right _ _
  get? ha hx := (get?_append ha y).symm.trans hx

theorem extends_set (s : Slots α) (b : Nat) : s.Extends (s.set b none) where
  length := Nat.le_of_eq List.length_set.symm
  get? := by
    intro a x _ hx
    by_cases hb : b = a
    · subst hb
      rw [get?_set_self] at hx
      cases hx
    · rwa [get?_set_ne hb] at hx

theorem Effect.extends (h : Effect n read s q s') : s.Extends s' := by
  cases h with
  | none => exact .refl s
  | built _ => exact extends_append s _
  | copied _ => exact extends_append s _
  | taken _ => exact extends_set s _

theorem run_concat (n : String) (read : Reader Event α) (xs : List (Move α)) (q : Move α) :
    run n read (xs ++ [q]) = (run n read xs).next n read q :=
  List.foldl_append

theorem run_effect (n : String) (read : Reader Event α) (xs : List (Move α)) (q : Move α) :
    Effect n read (run n read xs) q (run n read (xs ++ [q])) :=
  run_concat n read xs q ▸ step_effect n read (run n read xs) q

/-- Over a whole run, nothing is changed either. -/
theorem run_extends (n : String) (read : Reader Event α) (xs ys : List (Move α)) :
    (run n read xs).Extends (run n read (xs ++ ys)) := by
  induction ys using List.reverseRecOn with
  | nil =>
    rw [List.append_nil]
    exact .refl _
  | append_singleton ys q ih =>
    rw [← List.append_assoc]
    exact ih.trans (run_effect n read (xs ++ ys) q).extends

/-! ## Where wrappers come from -/

/-- The source that the wrapper in a slot was built from, or the one that it is a copy of. -/
inductive Origin (n : String) (read : Reader Event α) : List (Move α) → Nat → Source α → Prop where
  | built {xs : List (Move α)} {c : Source α} {x : Present α} : (c.build n read).result = .ok x →
    Origin n read (xs ++ [.build c]) (run n read xs).length c
  | copied {xs : List (Move α)} {a : Nat} {x : Present α} {c : Source α} :
    (run n read xs).get? a = some x → Origin n read xs a c →
    Origin n read (xs ++ [.copy a]) (run n read xs).length c
  | earlier {xs : List (Move α)} {a : Nat} {c : Source α} {q : Move α} : Origin n read xs a c →
    Origin n read (xs ++ [q]) a c

theorem Origin.mem (h : Origin n read xs a c) : .build c ∈ xs := by
  induction h with
  | built _ => exact List.mem_append_right _ (List.mem_singleton.2 rfl)
  | copied _ _ ih => exact List.mem_append_left _ ih
  | earlier _ ih => exact List.mem_append_left _ ih

theorem Origin.lt (h : Origin n read xs a c) : a < (run n read xs).length := by
  induction h with
  | built h =>
    rw [run_concat, next_build h, List.length_append]
    exact Nat.lt_succ_self _
  | copied h _ _ =>
    rw [run_concat, next_copy h, List.length_append]
    exact Nat.lt_succ_self _
  | @earlier xs _ _ q _ ih => exact Nat.lt_of_lt_of_le ih (run_extends n read xs [q]).length

/-- A wrapper is what was built from its source. -/
theorem Origin.build_eq (h : Origin n read xs a c) (hx : (run n read xs).get? a = some x) :
    (c.build n read).result = .ok x := by
  -- Along the origin: what is in the slot was put there by the step that made it, and has stayed.
  induction h generalizing x with
  | built h =>
    rw [run_concat, next_build h, get?_length] at hx
    cases hx
    exact h
  | copied h _ ih =>
    rw [run_concat, next_copy h, get?_length] at hx
    cases hx
    exact ih h
  | @earlier xs _ _ q h ih => exact ih ((run_extends n read xs [q]).get? h.lt hx)

/-- What is new behind all slots is the wrapper that was added. -/
theorem eq_of_get?_append (h : get? (s ++ [y']) a = some x) (ha : ¬ a < s.length) :
    a = s.length ∧ y' = some x := by
  have hlast := lt_of_get? h
  rw [List.length_append] at hlast
  have heq : a = s.length := Nat.le_antisymm (Nat.le_of_lt_succ hlast) (Nat.le_of_not_lt ha)
  subst heq
  exact ⟨rfl, (get?_length s y').symm.trans h⟩

/-- Every wrapper has one. -/
theorem exists_origin (h : (run n read xs).get? a = some x) : ∃ c, Origin n read xs a c := by
  induction xs using List.reverseRecOn generalizing a x with
  | nil => cases h
  | append_singleton xs q ih =>
    have heffect := run_effect n read xs q
    -- A slot that was there before has an origin; one that is new is what the step added.
    by_cases ha : a < (run n read xs).length
    · obtain ⟨c, hc⟩ := ih (heffect.extends.get? ha h)
      exact ⟨c, .earlier hc⟩
    · generalize run n read (xs ++ [q]) = s' at h heffect
      cases heffect with
      | none => exact absurd (lt_of_get? h) ha
      | built hc =>
        obtain ⟨rfl, -⟩ := eq_of_get?_append h ha
        exact ⟨_, .built hc⟩
      | copied hx =>
        obtain ⟨rfl, -⟩ := eq_of_get?_append h ha
        obtain ⟨c, hc⟩ := ih hx
        exact ⟨c, .copied hx hc⟩
      | taken _ => exact absurd (List.length_set ▸ lt_of_get? h) ha

/-! ## All that is kept -/

theorem step_look (h : s.get? a = some x) (consume : Bool) (view : View) :
    Prod.fst <$> s.step n read (.look consume view a) = .answer <$> view.told n x.toOption := by
  show Prod.fst <$> s.need a _ = _
  rw [need_of_get? h, ← View.ask_eq]
  refine Log.ext ?_ rfl
  rw [Log.events_map, Log.events_map]
  exact List.append_nil _

/-- In a run, wrappers are uninitialized only if they go back to a sequence without elements. -/
structure Faithful (n : String) (read : Reader Event α) (xs : List (Move α)) : Prop where
  /-- What is built is found in a new slot, and it is uninitialized just if there was nothing in
  the source. -/
  built : ∀ c, ((c.build n read).result = .ok .uninitialized ↔ c.IsEmpty) ∧
    ∀ x, (c.build n read).result = .ok x →
      (run n read (xs ++ [.build c])).get? (run n read xs).length = some x ∧
      Origin n read (xs ++ [.build c]) (run n read xs).length c
  /-- So is a copy, which goes back to the same source. -/
  copied : ∀ a x c, (run n read xs).get? a = some x → Origin n read xs a c →
    (run n read (xs ++ [.copy a])).get? (run n read xs).length = some x ∧
      Origin n read (xs ++ [.copy a]) (run n read xs).length c
  /-- Every wrapper goes back to a source. -/
  origin : ∀ a x, (run n read xs).get? a = some x → ∃ c, Origin n read xs a c
  /-- A wrapper was built from that in the run, and it is uninitialized if and only if there was
  nothing in it. -/
  uninitialized_iff : ∀ a x c, (run n read xs).get? a = some x → Origin n read xs a c →
    .build c ∈ xs ∧ (c.build n read).result = .ok x ∧ (x.isSome = false ↔ c.IsEmpty)
  /-- A step leaves a wrapper as it is, unless it is there to take it out. -/
  stays_or_taken : ∀ q a x, (run n read xs).get? a = some x →
    (run n read (xs ++ [q])).get? a = some x ∨
      (q.Takes a ∧ (run n read (xs ++ [q])).get? a = none)
  /-- Whatever is done, a wrapper is the same as long as it is there, and its views say what they
  said in the first place, which is that there is one value or that there is none. -/
  views : ∀ ys a x y, (run n read xs).get? a = some x → (run n read (xs ++ ys)).get? a = some y →
    y = x ∧ ∀ consume view, Prod.fst <$> (run n read (xs ++ ys)).step n read (.look consume view a) =
      .answer <$> view.told n x.toOption
  /-- If there was no sequence without elements, every wrapper gives its value. -/
  value_ok : (∀ c, .build c ∈ xs → ¬ c.IsEmpty) → ∀ a x, (run n read xs).get? a = some x →
    ∃ v, x = .holding v ∧ ∀ consume, Prod.fst <$> (run n read xs).step n read
      (.look consume .value a) = pure (.answer (.value (.ok v)))

theorem uninitialized_only_if_empty (n : String) (read : Reader Event α) (xs : List (Move α)) :
    Faithful n read xs where
  built c := by
    refine ⟨c.build_eq_uninitialized_iff n read, fun x h => ⟨?_, .built h⟩⟩
    rw [run_concat, next_build h, get?_length]
  copied a x c h hc := by
    refine ⟨?_, .copied h hc⟩
    rw [run_concat, next_copy h, get?_length]
  origin _ _ h := exists_origin h
  uninitialized_iff a x c h hc := ⟨hc.mem, hc.build_eq h, Source.isSome_build (hc.build_eq h)⟩
  stays_or_taken q a x h := (run_effect n read xs q).stays_or_taken h
  views ys a x y h hy := by
    obtain rfl : x = y := Option.some.inj (h.symm.trans
      ((run_extends n read xs ys).get? (lt_of_get? h) hy))
    exact ⟨rfl, step_look hy⟩
  value_ok hxs a x h := by
    obtain ⟨c, hc⟩ := exists_origin h
    have hsome := Source.isSome_build (hc.build_eq h)
    cases x with
    | uninitialized => exact absurd (hsome.1 rfl) (hxs c hc.mem)
    | holding v => exact ⟨v, rfl, fun consume => step_look h consume .value⟩

/-- A value that is no value itself is held like any other, and taken out as such. From a sequence
without elements there is none, nor in a copy of what it made. -/
theorem uninitialized_only_if_empty_option :
    let t : Ty := .option .bool
    let wraps : List (Move t.Val) := [.build (.value none), .build (.text "[null]")]
    let lacks : List (Move t.Val) := [.build (.sequence []), .copy 0, .look true .value 0]
    (∀ a x, (run t.name t.read wraps).get? a = some x → ∃ v, x = .holding v) ∧
      (run t.name t.read wraps).get? 1 = some (.holding none) ∧
      (∃ c, Origin t.name t.read lacks 1 c ∧ c.IsEmpty) ∧
      Prod.fst <$> (run t.name t.read lacks).step t.name t.read (.look false .items 1) =
        pure (.answer (.items [])) := by
  intro t wraps lacks
  have hwraps : ∀ c, .build c ∈ wraps → ¬ c.IsEmpty := by
    intro c hc hempty
    have hbuild := (c.build_eq_uninitialized_iff t.name t.read).2 hempty
    simp only [wraps, List.mem_cons, Move.build.injEq, List.not_mem_nil, or_false] at hc
    obtain rfl | rfl := hc
    · cases hbuild
    · cases hbuild
  have hlacks : (run t.name t.read lacks).get? 1 = some .uninitialized := rfl
  have hfaithful := uninitialized_only_if_empty t.name t.read lacks
  refine ⟨fun a x h => ?_, rfl, ?_, ?_⟩
  · obtain ⟨v, hv, -⟩ := (uninitialized_only_if_empty t.name t.read wraps).value_ok hwraps a x h
    exact ⟨v, hv⟩
  · obtain ⟨c, hc⟩ := hfaithful.origin 1 _ hlacks
    exact ⟨c, hc, (hfaithful.uninitialized_iff 1 _ c hlacks hc).2.2.1 rfl⟩
  · exact (hfaithful.views [] 1 _ _ hlacks hlacks).2 false .items

end Slots

end Present

/-! ## Sessions -/

namespace PresentSession

open Present (Move Slots)

variable {t : Ty}

/-- What a step does with the slots, if it does anything with them. -/
def move? : PresentStep t → Option (Move t.Val)
  | .wrap v => some (.build (.value v))
  | .fromNullable v => some (.build (.nullable v))
  | .takeFirst vs => some (.build (.sequence vs))
  | .read json => some (.build (.text json))
  | .copy a => some (.copy a)
  | .value consume a => some (.look consume .value a)
  | .option consume a => some (.look consume .option a)
  | .isSome a => some (.look false .isSome a)
  | .isNone a => some (.look false .isNone a)
  | .roundTrip a => some (.turn a)
  | .fromPointer _ | .write _ | .format .. | .compare .. => none

theorem need_slots (s : PresentSession t) (a : Nat)
    {f : Present t.Val → Logged (PresentReply t × PresentSession t)}
    {g : Present t.Val → Logged (Present.Response t.Val × Slots t.Val)}
    (h : ∀ x, (f x).result.2 = (g x).result.2) :
    (s.need a f).result.2 = (Slots.need s a g).result.2 := by
  have hget : Slots.get? s a = s.slot? a := rfl
  unfold need Slots.need
  rw [hget]
  cases s.slot? a with
  | none => rfl
  | some x => exact h x

/-- A step that only looks leaves the slots. -/
theorem need_left {s : PresentSession t} {a : Nat}
    {f : Present t.Val → Logged (PresentReply t × PresentSession t)}
    (h : ∀ x, (f x).result.2 = s) : (s.need a f).result.2 = s := by
  unfold need
  cases s.slot? a with
  | none => rfl
  | some x => exact h x

/-- A step of a session does with the slots what is done with wrappers of any type. -/
theorem step_slots (s : PresentSession t) (q : PresentStep t) :
    (s.step q).result.2 = (move? q).elim s (Slots.next t.name t.read s) := by
  cases q with
  | wrap v => rfl
  | fromNullable v =>
    cases v with
    | none => rfl
    | some v => rfl
  | fromPointer v => rfl
  | takeFirst vs => rfl
  | read json =>
    have hbuild : (Present.Source.build t.name t.read (.text json)).result =
        ((Ty.present t).ofJson json).result.mapError .unreadable := rfl
    show _ = Slots.next t.name t.read s (.build (.text json))
    unfold step Slots.next Slots.step
    rw [Log.result_bind, Log.result_bind, hbuild]
    cases ((Ty.present t).ofJson json).result with
    | error e => rfl
    | ok x => rfl
  | copy a => exact need_slots s a fun x => rfl
  | value consume a =>
    refine need_slots s a fun x => ?_
    cases x with
    | uninitialized => rfl
    | holding v => rfl
  | option consume a => exact need_slots s a fun x => rfl
  | isSome a => exact need_slots s a fun x => rfl
  | isNone a => exact need_slots s a fun x => rfl
  | roundTrip a =>
    refine need_slots s a fun x => ?_
    cases x with
    | uninitialized => rfl
    | holding v => rfl
  | write a => exact need_left fun x => rfl
  | format a spec => exact need_left fun x => rfl
  | compare a b => exact need_left fun x => need_left fun y => rfl

/-- The slots after the steps of a session. -/
theorem run_slots (qs : List (PresentStep t)) :
    qs.foldl (fun (s : PresentSession t) q => (s.step q).result.2) [] =
      Slots.run t.name t.read (qs.filterMap move?) := by
  unfold Slots.run
  rw [List.foldl_filterMap]
  congr 1
  funext s q
  rw [step_slots]
  cases move? q with
  | none => rfl
  | some m => rfl

/-- In a session, too, a wrapper is uninitialized only if it was built from a sequence without
elements. -/
theorem uninitialized_iff {qs : List (PresentStep t)} {a : Nat} {x : Present t.Val}
    (h : slot? (qs.foldl (fun (s : PresentSession t) q => (s.step q).result.2) []) a = some x) :
    ∃ c, .build c ∈ qs.filterMap move? ∧ (c.build t.name t.read).result = .ok x ∧
      (x.isSome = false ↔ c.IsEmpty) := by
  rw [run_slots] at h
  obtain ⟨c, hc⟩ := Slots.exists_origin h
  have hbuild := hc.build_eq h
  exact ⟨c, hc.mem, hbuild, Present.Source.isSome_build hbuild⟩

end PresentSession

end Refinement
