import Refinement.Proofs.Store.Sessions

/-!
# One element at a time

A wrapper takes one element from a sequence and leaves the others where they are. So wrappers that take
from the same sequence one after the other get its elements in their order, until there are none; from
then on each of them is empty, which is reported each time.

* `Present.takeFirst_eq`: what one wrapper takes.
* `Present.takeFirsts`: several wrappers in a row, and `Present.takeFirsts_eq`: what each of them takes.
* `Present.ofFirst_append`: the first element of two sequences, one after the other.
* `Store.step_takeFirst`, `Store.step_collect`: the same in a slot of a store, and
  `Store.run_takeFirst`: several times.
* `Present.takes_one_each`: all of this.
-/

namespace Refinement

namespace Present

variable {α : Type} {n : String}

/-! ## One wrapper -/

/-- What is reported where one element is taken. -/
def shortfall (n : String) (vs : List α) : List Event :=
  if vs.isEmpty then [.emptySequence n] else []

theorem takeFirst_eq (n : String) (vs : List α) :
    takeFirst n vs = ⟨shortfall n vs, (ofOption vs.head?, vs.tail)⟩ := by
  cases vs <;> rfl

theorem ofFirst_eq (n : String) (vs : List α) : ofFirst n vs = ⟨shortfall n vs, ofOption vs.head?⟩ := by
  cases vs <;> rfl

/-- The first element of two sequences is that of the first one, if it has any. -/
theorem ofFirst_append (n : String) (vs ws : List α) :
    ofFirst n (vs ++ ws) = if (ofFirst n vs).result.isSome then ofFirst n vs else ofFirst n ws := by
  cases vs <;> rfl

/-! ## Several wrappers -/

/-- Takes one element several times from the same sequence: the wrappers, and what is left. -/
def takeFirsts (n : String) : Nat → List α → Logged (List (Present α) × List α)
  | 0, vs => pure ([], vs)
  | k + 1, vs => do
    let (x, rest) ← takeFirst n vs
    let (xs, rest) ← takeFirsts n k rest
    return (x :: xs, rest)

/-- The first elements of a sequence, and nothing where there are no more. -/
def firsts (k : Nat) (vs : List α) : List (Option α) :=
  (vs.take k).map some ++ List.replicate (k - vs.length) none

theorem firsts_zero (vs : List α) : firsts 0 vs = [] := by
  simp [firsts]

theorem firsts_succ (k : Nat) (vs : List α) : firsts (k + 1) vs = vs.head? :: firsts k vs.tail := by
  cases vs with
  | nil => simp [firsts, List.replicate_succ]
  | cons v vs => simp [firsts]

/-- One report for each wrapper after the last element. -/
theorem replicate_succ_shortfall (n : String) (k : Nat) (vs : List α) :
    List.replicate (k + 1 - vs.length) (Event.emptySequence n) =
      shortfall n vs ++ List.replicate (k - vs.tail.length) (.emptySequence n) := by
  cases vs with
  | nil => simp [shortfall, List.replicate_succ]
  | cons v vs => simp [shortfall]

theorem takeFirsts_eq (n : String) (k : Nat) (vs : List α) :
    takeFirsts n k vs =
      ⟨List.replicate (k - vs.length) (.emptySequence n), ((firsts k vs).map ofOption, vs.drop k)⟩ := by
  induction k generalizing vs with
  | zero =>
    rw [Nat.zero_sub, firsts_zero]
    rfl
  | succ k ih =>
    rw [replicate_succ_shortfall, firsts_succ, ← List.drop_tail]
    apply Log.ext
    · simp [takeFirsts, takeFirst_eq, ih]
    · simp [takeFirsts, takeFirst_eq, ih]

theorem toOption_comp_ofOption : (toOption ∘ ofOption : Option α → Option α) = id :=
  funext toOption_ofOption

/-- What wrappers that take from a sequence in a row leave of it, and what they report. -/
structure OneEach (n : String) (k : Nat) (vs : List α) (r : Logged (List (Present α) × List α)) :
    Prop where
  /-- They hold the elements in their order, and nothing where there are no more. -/
  views : r.result.1.map toOption = (vs.take k).map some ++ List.replicate (k - vs.length) none
  /-- The other elements are left. -/
  rest : r.result.2 = vs.drop k
  /-- With those that were taken they are the whole sequence. -/
  whole : r.result.1.filterMap toOption ++ r.result.2 = vs
  /-- Those that found nothing are reported, and no others. -/
  events : r.events = List.replicate (k - vs.length) (.emptySequence n)
  /-- The reports are warnings. -/
  warnings : ∀ e ∈ r.events, e.level = .warning

theorem oneEach (n : String) (k : Nat) (vs : List α) : OneEach n k vs (takeFirsts n k vs) where
  views := by
    rw [takeFirsts_eq]
    simp only [List.map_map, toOption_comp_ofOption, List.map_id]
    rfl
  rest := by rw [takeFirsts_eq]
  whole := by
    rw [takeFirsts_eq]
    simp only [List.filterMap_map, toOption_comp_ofOption, firsts, List.filterMap_append]
    simp
  events := by rw [takeFirsts_eq]
  warnings e he := by
    rw [takeFirsts_eq] at he
    rw [List.eq_of_mem_replicate he]
    rfl

end Present

/-! ## Slots -/

/-- A wrapper in a slot. -/
def Cell.wrapped (t : Ty) (v : Option t.Val) : Cell := .live (.present t) (Present.ofOption v)

namespace Store

open Present (firsts shortfall)

variable {s : Store} {a : Nat} {kind : ListKind} {t : Ty} {vs : List t.Val}

/-- The first value of the sequence is put into a new slot, and the others are left. -/
theorem step_takeFirst (h : s.slot a = .live (.list kind t) vs) :
    s.step (.use a .takeFirst) = ⟨shortfall t.name vs, (.taken t vs.head?,
      s.set a (.live (.list kind t) vs.tail) ++ [.wrapped t vs.head?])⟩ := by
  rw [step_use h]
  cases vs with
  | nil => rfl
  | cons v vs => rfl

/-- Where the sequence is collected, the same is reported, and the wrapper is the same. -/
theorem step_collect (h : s.slot a = .live (.list kind t) vs) :
    s.step (.use a .collect) = ⟨shortfall t.name vs, (.taken t vs.head?,
      s.set a (.wrapped t vs.head?))⟩ := by
  refine step_leaving h ?_
  cases vs with
  | nil => rfl
  | cons v vs => rfl

/-- Several times: the values are put into new slots in their order. -/
theorem run_takeFirst (h : s.slot a = .live (.list kind t) vs) (k : Nat) :
    s.run (List.replicate k (.use a .takeFirst)) =
      ⟨List.replicate (k - vs.length) (.emptySequence t.name), ((firsts k vs).map (.taken t),
        s.set a (.live (.list kind t) (vs.drop k)) ++ (firsts k vs).map (.wrapped t))⟩ := by
  induction k generalizing s vs with
  | zero =>
    rw [Nat.zero_sub, Present.firsts_zero, List.drop_zero, set_slot h nofun]
    rw [List.map_nil, List.map_nil, List.append_nil]
    rfl
  | succ k ih =>
    have ha : s.slot a ≠ .gone := ne_gone_of_live h
    have hlt : a < (s.set a (.live (.list kind t) vs.tail)).length := by
      rw [List.length_set]
      exact lt_of_slot ha
    have hrest := slot_set ha (.live (.list kind t) vs.tail)
    -- the new slot comes behind the others, so the sequence is still found in its place
    have hslot := (slot_append_left (ne_gone_of_live hrest) [.wrapped t vs.head?]).trans hrest
    have hrun := run_cons (step_takeFirst h) (ih hslot)
    rw [List.set_append_left _ _ hlt, List.set_set, List.drop_tail] at hrun
    rw [List.replicate_succ, Present.replicate_succ_shortfall, Present.firsts_succ, hrun]
    simp

end Store

/-! ## Sessions -/

namespace PresentSession

/-- No more than one value is taken. -/
theorem step_takeFirst {t : Ty} (s : PresentSession t) (vs : List t.Val) :
    s.step (.takeFirst vs) = ⟨Present.shortfall t.name vs,
      (.taken (min 1 vs.length), s.add (Present.ofOption vs.head?))⟩ := by
  cases vs with
  | nil => rfl
  | cons v vs =>
    have htaken : (v :: vs).length - vs.length = min 1 (v :: vs).length := by
      simp only [List.length_cons]
      omega
    rw [← htaken]
    rfl

end PresentSession

namespace Present

/-- Each wrapper takes one element and leaves the others, also in a slot of a store; of two sequences one
after the other, it takes the second one's if the first one has none. Where a sequence is collected, the
wrapper and what is reported are the same. -/
theorem takes_one_each :
    (∀ (α : Type) (n : String) (k : Nat) (vs : List α), OneEach n k vs (takeFirsts n k vs)) ∧
    (∀ (α : Type) (n : String) (vs ws : List α),
      ofFirst n (vs ++ ws) = if (ofFirst n vs).result.isSome then ofFirst n vs else ofFirst n ws) ∧
    (∀ (s : Store) (a : Nat) (kind : ListKind) (t : Ty) (vs : List t.Val),
      s.slot a = .live (.list kind t) vs →
      (∀ k, s.run (List.replicate k (.use a .takeFirst)) =
        ⟨List.replicate (k - vs.length) (.emptySequence t.name), ((firsts k vs).map (.taken t),
          s.set a (.live (.list kind t) (vs.drop k)) ++ (firsts k vs).map (.wrapped t))⟩) ∧
      let x := ofFirst t.name vs
      s.step (.use a .takeFirst) = ⟨x.events, (.taken t x.result.toOption,
        s.set a (.live (.list kind t) vs.tail) ++ [.live (.present t) x.result])⟩ ∧
      s.step (.use a .collect) = ⟨x.events, (.taken t x.result.toOption,
        s.set a (.live (.present t) x.result))⟩) ∧
    ∀ (t : Ty) (s : PresentSession t) (vs : List t.Val),
      s.step (.takeFirst vs) = ⟨(ofFirst t.name vs).events,
        (.taken (min 1 vs.length), s.add (ofFirst t.name vs).result)⟩ := by
  refine ⟨fun α => oneEach, fun α => ofFirst_append, ?_, ?_⟩
  · intro s a kind t vs h
    refine ⟨Store.run_takeFirst h, ?_⟩
    simp only [ofFirst_eq, toOption_ofOption]
    exact ⟨Store.step_takeFirst h, Store.step_collect h⟩
  · intro t s vs
    rw [ofFirst_eq]
    exact s.step_takeFirst vs

/-- Three wrappers take from two values: the third one is empty, and a warning is given for it. -/
theorem takes_one_each_bools :
    let s : Store := [.live (.list .vector .bool) [true, false]]
    s.run (List.replicate 3 (.use 0 .takeFirst)) =
        ⟨[.emptySequence "bool"], ([.taken .bool (some true), .taken .bool (some false), .taken .bool none],
          [.live (.list .vector .bool) [], .live (.present .bool) (holding true),
            .live (.present .bool) (holding false), .live (.present .bool) uninitialized])⟩ ∧
      s.step (.use 0 .collect) =
        pure (.taken .bool (some true), [.live (.present .bool) (holding true)]) := by
  intro s
  obtain ⟨-, -, slots, -⟩ := takes_one_each
  obtain ⟨hrun, -, hcollect⟩ := slots s 0 .vector .bool [true, false] rfl
  exact ⟨hrun 3, hcollect⟩

end Present

end Refinement
