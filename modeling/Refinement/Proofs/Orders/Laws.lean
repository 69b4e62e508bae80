import Refinement.Present

/-!
# The laws of comparators

A lawful comparator answers the other way around when it is asked the other way around, is
transitive, also where some values cannot be compared, and finds two values equal exactly when
they are. Comparators that are built from lawful ones are lawful.

* `Comparator.Lawful`: the laws, relative to an equality.
* `Comparator.Lawful.reversed`, `Comparator.Lawful.lexicographic`, `Comparator.Lawful.pair`,
  `Comparator.Lawful.ofOption`, `Comparator.Lawful.present`: what is built from lawful comparators.
* `Order.comparator_nested`: an even number of reversals changes nothing, an odd one amounts to one.
-/

namespace Refinement

namespace Comparator

variable {α β : Type}

/-- The first is not above the second, according to an answer. -/
abbrev IsLE (r : Option Ordering) : Prop := Relation.lessOrEqual.admits r = true

/-- The laws of a comparator of values with an equality. Of three values in ascending order, the
first and the last compare as the first two that differ; so one strict step makes the whole
strict. -/
structure Lawful (o : Comparator α) (equal : α → α → Bool) : Prop where
  swap : ∀ a b, o b a = (o a b).map Ordering.swap
  trans : ∀ a b c, IsLE (o a b) → IsLE (o b c) → o a c = andThen (o a b) (o b c)
  eq_iff : ∀ a b, o a b = some .eq ↔ equal a b = true

/-! ## Answers -/

section Answers

variable {r s : Option Ordering}

theorem isLE_iff : IsLE r ↔ r = some .lt ∨ r = some .eq := by
  rcases r with _ | _ | _ | _ <;> simp [IsLE, Relation.admits]

theorem andThen_lt (s : Option Ordering) : andThen (some .lt) s = some .lt := rfl

theorem andThen_eq (s : Option Ordering) : andThen (some .eq) s = s := rfl

theorem isLE_andThen_iff : IsLE (andThen r s) ↔ r = some .lt ∨ r = some .eq ∧ IsLE s := by
  rcases r with _ | _ | _ | _ <;> simp [andThen, IsLE, Relation.admits]

theorem andThen_eq_some_eq_iff : andThen r s = some .eq ↔ r = some .eq ∧ s = some .eq := by
  rcases r with _ | _ | _ | _ <;> simp [andThen]

theorem andThen_comm (hr : IsLE r) (hs : IsLE s) : andThen r s = andThen s r := by
  rcases isLE_iff.1 hr with rfl | rfl <;> rcases isLE_iff.1 hs with rfl | rfl <;> rfl

theorem isLE_andThen (hr : IsLE r) (hs : IsLE s) : IsLE (andThen r s) := by
  rcases isLE_iff.1 hr with rfl | rfl
  · rfl
  · exact hs

theorem andThen_map_swap (r s : Option Ordering) :
    (andThen r s).map Ordering.swap = andThen (r.map Ordering.swap) (s.map Ordering.swap) := by
  rcases r with _ | _ | _ | _ <;> rfl

/-- Transitivity goes through comparisons by a first part and then by a second. -/
theorem andThen_trans {r₁ r₂ r₃ s₁ s₂ s₃ : Option Ordering}
    (hr : IsLE r₁ → IsLE r₂ → r₃ = andThen r₁ r₂) (hs : IsLE s₁ → IsLE s₂ → s₃ = andThen s₁ s₂)
    (h₁ : IsLE (andThen r₁ s₁)) (h₂ : IsLE (andThen r₂ s₂)) :
    andThen r₃ s₃ = andThen (andThen r₁ s₁) (andThen r₂ s₂) := by
  rcases isLE_andThen_iff.1 h₁ with rfl | ⟨rfl, hs₁⟩ <;>
    rcases isLE_andThen_iff.1 h₂ with rfl | ⟨rfl, hs₂⟩
  · rw [hr rfl rfl]; rfl
  · rw [hr rfl rfl]; rfl
  · rw [hr rfl rfl]
    simp only [andThen_eq, andThen_lt]
    rcases isLE_iff.1 hs₁ with rfl | rfl <;> rfl
  · rw [hr rfl rfl]
    simp only [andThen_eq]
    exact hs hs₁ hs₂

end Answers

/-- Optional values compare as their wrappers. -/
theorem ofOption_eq_on (o : Comparator α) :
    ofOption o = (Present.natural o).on Present.ofOption := by
  funext a b
  cases a <;> cases b <;> rfl

/-! ## Lawful comparators -/

namespace Lawful

variable {o : Comparator α} {p : Comparator β} {equal : α → α → Bool} {equal' : β → β → Bool}

/-- A reversed comparator answers as the comparator does for the exchanged values. -/
theorem reversed_apply (h : o.Lawful equal) (a b : α) : o.reversed a b = o b a := (h.swap a b).symm

theorem eq_none_iff (h : o.Lawful equal) (a b : α) : o b a = none ↔ o a b = none := by
  rw [h.swap a b, Option.map_eq_none_iff]

theorem isLE_trans (h : o.Lawful equal) {a b c : α} (hab : IsLE (o a b)) (hbc : IsLE (o b c)) :
    IsLE (o a c) := by
  rw [h.trans a b c hab hbc]
  exact isLE_andThen hab hbc

/-- One strict step makes the whole strict. -/
theorem lt_trans (h : o.Lawful equal) {a b c : α} (hab : IsLE (o a b)) (hbc : IsLE (o b c))
    (hlt : o a b = some .lt ∨ o b c = some .lt) : o a c = some .lt := by
  rw [h.trans a b c hab hbc]
  rcases hlt with hlt | hlt
  · rw [hlt, andThen_lt]
  · rw [andThen_comm hab hbc, hlt, andThen_lt]

protected theorem reversed (h : o.Lawful equal) : o.reversed.Lawful equal where
  swap a b := by rw [h.reversed_apply, h.reversed_apply, h.swap]
  trans a b c hab hbc := by
    rw [h.reversed_apply] at hab hbc ⊢
    rw [h.reversed_apply, h.reversed_apply, h.trans c b a hbc hab, andThen_comm hbc hab]
  eq_iff a b := by
    rw [← h.eq_iff a b]
    rcases hab : o a b with _ | _ | _ | _ <;> simp [Comparator.reversed, hab]

protected theorem on (f : β → α) (h : o.Lawful equal) :
    (o.on f).Lawful fun a b => equal (f a) (f b) where
  swap a b := h.swap (f a) (f b)
  trans a b c := h.trans (f a) (f b) (f c)
  eq_iff a b := h.eq_iff (f a) (f b)

protected theorem pair (h : o.Lawful equal) (h' : p.Lawful equal') :
    (o.pair p).Lawful fun a b => equal a.1 b.1 && equal' a.2 b.2 where
  swap a b := by
    simp only [Comparator.pair]
    rw [andThen_map_swap, h.swap, h'.swap]
  trans a b c := andThen_trans (h.trans a.1 b.1 c.1) (h'.trans a.2 b.2 c.2)
  eq_iff a b := by
    simp only [Comparator.pair]
    rw [andThen_eq_some_eq_iff, h.eq_iff, h'.eq_iff, Bool.and_eq_true]

theorem lexicographic_swap (h : o.Lawful equal) (as bs : List α) :
    Comparator.lexicographic o bs as = (Comparator.lexicographic o as bs).map Ordering.swap := by
  induction as generalizing bs with
  | nil => cases bs <;> rfl
  | cons a as ih =>
    cases bs with
    | nil => rfl
    | cons b bs =>
      simp only [Comparator.lexicographic]
      rw [andThen_map_swap, h.swap a b, ih bs]

/-- The comparison of lists is transitive, wherever the first items that differ stand. -/
theorem lexicographic_trans (h : o.Lawful equal) (as bs cs : List α)
    (hab : IsLE (Comparator.lexicographic o as bs))
    (hbc : IsLE (Comparator.lexicographic o bs cs)) :
    Comparator.lexicographic o as cs =
      andThen (Comparator.lexicographic o as bs) (Comparator.lexicographic o bs cs) := by
  induction as generalizing bs cs with
  | nil =>
    cases bs with
    | nil => rfl
    | cons b bs =>
      cases cs with
      | nil => exact absurd hbc (by simp [Comparator.lexicographic, IsLE, Relation.admits])
      | cons c cs => rfl
  | cons a as ih =>
    cases bs with
    | nil => exact absurd hab (by simp [Comparator.lexicographic, IsLE, Relation.admits])
    | cons b bs =>
      cases cs with
      | nil => exact absurd hbc (by simp [Comparator.lexicographic, IsLE, Relation.admits])
      | cons c cs => exact andThen_trans (h.trans a b c) (ih bs cs) hab hbc

theorem lexicographic_eq_iff (h : o.Lawful equal) (as bs : List α) :
    Comparator.lexicographic o as bs = some .eq ↔ List.isEqv as bs equal = true := by
  induction as generalizing bs with
  | nil => cases bs <;> simp [Comparator.lexicographic, List.isEqv]
  | cons a as ih =>
    cases bs with
    | nil => simp [Comparator.lexicographic, List.isEqv]
    | cons b bs =>
      simp only [Comparator.lexicographic, List.isEqv]
      rw [andThen_eq_some_eq_iff, h.eq_iff, ih, Bool.and_eq_true]

protected theorem lexicographic (h : o.Lawful equal) :
    (Comparator.lexicographic o).Lawful fun as bs => List.isEqv as bs equal :=
  ⟨h.lexicographic_swap, h.lexicographic_trans, h.lexicographic_eq_iff⟩

protected theorem present (h : o.Lawful equal) :
    (Present.natural o).Lawful (Present.equal equal) where
  swap x y := by
    cases x with
    | uninitialized => cases y <;> rfl
    | holding a =>
      cases y with
      | uninitialized => rfl
      | holding b => exact h.swap a b
  trans x y z hxy hyz := by
    cases y with
    | uninitialized =>
      cases x with
      | holding a => exact absurd hxy (by simp [Present.natural, IsLE, Relation.admits])
      | uninitialized => cases z <;> rfl
    | holding b =>
      cases z with
      | uninitialized => exact absurd hyz (by simp [Present.natural, IsLE, Relation.admits])
      | holding c =>
        cases x with
        | uninitialized => rfl
        | holding a => exact h.trans a b c hxy hyz
  eq_iff x y := by
    cases x with
    | uninitialized => cases y <;> simp [Present.natural, Present.equal]
    | holding a =>
      cases y with
      | uninitialized => simp [Present.natural, Present.equal]
      | holding b => exact h.eq_iff a b

protected theorem ofOption (h : o.Lawful equal) : (Comparator.ofOption o).Lawful fun a b =>
    Present.equal equal (Present.ofOption a) (Present.ofOption b) := by
  rw [ofOption_eq_on]
  exact h.present.on Present.ofOption

end Lawful

/-! ## Total comparators -/

/-- Any two values can be compared. -/
def IsTotal (o : Comparator α) : Prop := ∀ a b, o a b ≠ none

namespace IsTotal

variable {o : Comparator α} {p : Comparator β}

theorem andThen_ne_none {r s : Option Ordering} (hr : r ≠ none) (hs : s ≠ none) :
    andThen r s ≠ none := by
  rcases r with _ | _ | _ | _
  · exact absurd rfl hr
  · exact hr
  · exact hs
  · exact hr

protected theorem ofTotal (c : α → α → Ordering) : (Comparator.ofTotal c).IsTotal :=
  fun _ _ => Option.some_ne_none _

protected theorem reversed (h : o.IsTotal) : o.reversed.IsTotal := by
  intro a b
  rw [Comparator.reversed, ne_eq, Option.map_eq_none_iff]
  exact h a b

protected theorem on (f : β → α) (h : o.IsTotal) : (o.on f).IsTotal := fun a b => h (f a) (f b)

protected theorem pair (h : o.IsTotal) (h' : p.IsTotal) : (o.pair p).IsTotal :=
  fun a b => andThen_ne_none (h a.1 b.1) (h' a.2 b.2)

protected theorem lexicographic (h : o.IsTotal) : (Comparator.lexicographic o).IsTotal := by
  intro as bs
  induction as generalizing bs with
  | nil => cases bs <;> exact Option.some_ne_none _
  | cons a as ih =>
    cases bs with
    | nil => exact Option.some_ne_none _
    | cons b bs => exact andThen_ne_none (h a b) (ih bs)

protected theorem present (h : o.IsTotal) : (Present.natural o).IsTotal := by
  intro x y
  cases x with
  | uninitialized => cases y <;> exact Option.some_ne_none _
  | holding a =>
    cases y with
    | uninitialized => exact Option.some_ne_none _
    | holding b => exact h a b

protected theorem ofOption (h : o.IsTotal) : (Comparator.ofOption o).IsTotal := by
  rw [Comparator.ofOption_eq_on]
  exact h.present.on Present.ofOption

end IsTotal

end Comparator

/-! ## Reversals -/

namespace Order

variable {α B : Type} {asks : B → Comparator α}

/-- A basic order reversed so many times. -/
def nested (b : B) : Nat → Order B
  | 0 => .base b
  | k + 1 => .reversed (nested b k)

/-- Pairs of reversals cancel out. -/
theorem comparator_nested (b : B) (k : Nat) :
    (nested b k).comparator asks = if k % 2 = 0 then asks b else (asks b).reversed := by
  induction k with
  | zero => rfl
  | succ k ih =>
    rw [nested, comparator_reversed, ih]
    rcases Nat.mod_two_eq_zero_or_one k with hk | hk
    · rw [if_pos hk, if_neg (by omega)]
    · rw [if_neg (by omega), if_pos (by omega), Comparator.reversed_reversed]

/-- What holds of a comparator and of its reverse holds of all its reversals. -/
theorem nested_induction {motive : Comparator α → Prop} (b : B) (base : motive (asks b))
    (reversed : motive (asks b).reversed) (k : Nat) : motive ((nested b k).comparator asks) := by
  rw [comparator_nested]
  split
  · exact base
  · exact reversed

end Order

end Refinement
