/-!
# Total orders

A `TotalOrder` compares any two values of a type, and only a value itself compares equal to it.
Sets, and maps by their keys, stand in such an order.

* `TotalOrder.on`: the order of the images under a function that keeps different values apart.
* `TotalOrder.list`, `TotalOrder.pair`, `TotalOrder.option`: the orders of composed values, the
  first parts that differ deciding.
-/

namespace Refinement

/-- A total order of the values of a type. -/
structure TotalOrder (α : Type) where
  /-- How two values compare. -/
  compare : α → α → Ordering
  /-- The order is transitive. -/
  trans : Std.TransCmp compare
  /-- Only equal values compare equal. -/
  lawful : Std.LawfulEqCmp compare

namespace TotalOrder

variable {α β : Type}

attribute [instance] TotalOrder.trans TotalOrder.lawful

/-- The order of a type that has one of its own. -/
def ofOrd (α : Type) [Ord α] [Std.TransOrd α] [Std.LawfulEqOrd α] : TotalOrder α :=
  ⟨Ord.compare, inferInstance, inferInstance⟩

/-- Values in the order of their images under a function that keeps different values apart. -/
def on (o : TotalOrder β) (f : α → β) (injective : ∀ {a b}, f a = f b → a = b) : TotalOrder α where
  compare a b := o.compare (f a) (f b)
  trans :=
    { eq_swap := Std.OrientedCmp.eq_swap
      isLE_trans := Std.TransCmp.isLE_trans }
  lawful :=
    { compare_self := Std.ReflCmp.compare_self
      eq_of_compare := fun h => injective (Std.LawfulEqCmp.eq_of_compare h) }

/-- Lists by their first elements that differ; a list that runs out first is less. -/
def list (o : TotalOrder α) : TotalOrder (List α) :=
  ⟨List.compareLex o.compare, inferInstance, inferInstance⟩

/-- Pairs by the first part, and by the second where the first parts are equal. -/
def pair (o : TotalOrder α) (p : TotalOrder β) : TotalOrder (α × β) :=
  let _ : Ord α := ⟨o.compare⟩
  let _ : Ord β := ⟨p.compare⟩
  have : Std.TransOrd α := o.trans
  have : Std.TransOrd β := p.trans
  have : Std.LawfulEqOrd α := o.lawful
  have : Std.LawfulEqOrd β := p.lawful
  let _ := lexOrd (α := α) (β := β)
  ofOrd (α × β)

/-- An absent value comes before every other. -/
def option (o : TotalOrder α) : TotalOrder (Option α) :=
  let _ : Ord α := ⟨o.compare⟩
  have : Std.TransOrd α := o.trans
  have : Std.LawfulEqOrd α := o.lawful
  ofOrd (Option α)

/-- The order of a type with one value. -/
def unit : TotalOrder Unit where
  compare _ _ := .eq
  trans :=
    { eq_swap := rfl
      isLE_trans := fun _ _ => rfl }
  lawful :=
    { compare_self := rfl
      eq_of_compare := fun _ => rfl }

variable (o : TotalOrder α)

theorem compare_pair (p : TotalOrder β) (a b : α × β) :
    (o.pair p).compare a b = (o.compare a.1 b.1).then (p.compare a.2 b.2) := rfl

theorem compare_self (a : α) : o.compare a a = .eq := Std.ReflCmp.compare_self

theorem eq_of_compare {a b : α} (h : o.compare a b = .eq) : a = b :=
  Std.LawfulEqCmp.eq_of_compare h

section Images

variable {o} {p : TotalOrder β} {f : α → β}

theorem compare_list_map (h : ∀ a b, p.compare (f a) (f b) = o.compare a b) (as bs : List α) :
    p.list.compare (as.map f) (bs.map f) = o.list.compare as bs := by
  induction as generalizing bs with
  | nil => cases bs <;> rfl
  | cons a as ih =>
    cases bs with
    | nil => rfl
    | cons b bs =>
      show List.compareLex p.compare (f a :: as.map f) (f b :: bs.map f) =
        List.compareLex o.compare (a :: as) (b :: bs)
      rw [List.compareLex_cons_cons, List.compareLex_cons_cons, h]
      exact congrArg _ (ih bs)

theorem compare_option_map (h : ∀ a b, p.compare (f a) (f b) = o.compare a b) (a b : Option α) :
    p.option.compare (a.map f) (b.map f) = o.option.compare a b := by
  cases a <;> cases b <;> first | rfl | exact h _ _

theorem compare_pair_map {γ δ : Type} {q : TotalOrder γ} {r : TotalOrder δ} {g : γ → δ}
    (h : ∀ a b, p.compare (f a) (f b) = o.compare a b)
    (h' : ∀ a b, r.compare (g a) (g b) = q.compare a b) (a b : α × γ) :
    (p.pair r).compare (Prod.map f g a) (Prod.map f g b) = (o.pair q).compare a b := by
  rw [compare_pair, compare_pair, Prod.map_fst, Prod.map_fst, Prod.map_snd, Prod.map_snd, h, h']

end Images

/-- Values that the order cannot tell apart under a function are the same. -/
theorem injective_of_compare {o : TotalOrder α} {p : TotalOrder β} {f : α → β}
    (h : ∀ a b, p.compare (f a) (f b) = o.compare a b) {a b : α} (hab : f a = f b) : a = b := by
  apply o.eq_of_compare
  rw [← h, hab, p.compare_self]

end TotalOrder

end Refinement
