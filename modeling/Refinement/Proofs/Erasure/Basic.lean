import Refinement.Json.Writer

/-!
# Erasure

The erasure of a type is the type without its refinements: every refined type in it, at any depth,
is replaced by the type that it refines. Its values are erased in the same way. Erasure keeps the
order of the values, so that nothing is lost where they are put into sets and maps.

* `Ty.erased`, `Ty.erase`: the erasure of types and values.
* `Ty.compare_erase`: erased values compare as the values do.
* `Ty.erase_injective`: different values have different erasures.
* `Ty.erase_insert`: erasure goes through the insertion of entries.
-/

namespace Refinement

mutual

/-- The type without its refinements. -/
def Ty.erased : Ty → Ty
  | .scalar s => .scalar s
  | .list kind t => .list kind t.erased
  | .array t n => .array t.erased n
  | .set t => .set t.erased
  | .map k t => .map k.erased t.erased
  | .option t => .option t.erased
  | .refined t _ => t.erased
  | .present t => .present t.erased
  | .tuple r => .tuple r.erased
  | .record place name r => .record place name r.erased

/-- The parts without their refinements. -/
def Row.erased : Row → Row
  | .nil => .nil
  | .cons label t r => .cons label t.erased r.erased

end

mutual

/-- The value without its refinements. -/
def Ty.erase : (t : Ty) → t.Val → t.erased.Val
  | .scalar _, v => v
  | .list _ t, vs => List.map t.erase vs
  | .array t _, vs => ⟨vs.val.map t.erase, by rw [List.length_map, vs.property]⟩
  | .set t, m => SortedMap.convert t.erase id m
  | .map k t, m => SortedMap.convert k.erase t.erase m
  | .option t, v => Option.map t.erase v
  | .refined t _, x => t.erase x.value
  | .present t, x => Present.ofOption ((Present.toOption x).map t.erase)
  | .tuple r, v => r.erase v
  | .record _ _ r, v => r.erase v

/-- The values of the parts without their refinements. -/
def Row.erase : (r : Row) → r.Val → r.erased.Val
  | .nil, _ => ()
  | .cons _ t r, v => (t.erase v.1, r.erase v.2)

end

/-! ## Order -/

mutual

/-- Erased values compare as the values do. -/
theorem Ty.compare_erase : ∀ (t : Ty) (a b : t.Val),
    t.erased.order.compare (t.erase a) (t.erase b) = t.order.compare a b
  | .scalar _, _, _ => rfl
  | .list _ t, a, b => TotalOrder.compare_list_map t.compare_erase a b
  | .array t _, a, b => TotalOrder.compare_list_map t.compare_erase a.val b.val
  | .set t, a, b => SortedMap.compare_convert t.compare_erase (fun _ _ => rfl) a b
  | .map k t, a, b => SortedMap.compare_convert k.compare_erase t.compare_erase a b
  | .option t, a, b => TotalOrder.compare_option_map t.compare_erase a b
  | .refined t _, a, b => t.compare_erase a.value b.value
  | .present t, a, b => by
    show t.erased.order.option.compare (Present.toOption (Present.ofOption _))
      (Present.toOption (Present.ofOption _)) = _
    rw [Present.toOption_ofOption, Present.toOption_ofOption]
    exact TotalOrder.compare_option_map t.compare_erase a.toOption b.toOption
  | .tuple r, a, b => r.compare_erase a b
  | .record _ _ r, a, b => r.compare_erase a b

/-- The same of the values of parts. -/
theorem Row.compare_erase : ∀ (r : Row) (a b : r.Val),
    r.erased.model.order.compare (r.erase a) (r.erase b) = r.model.order.compare a b
  | .nil, _, _ => rfl
  | .cons _ t r, a, b => TotalOrder.compare_pair_map t.compare_erase r.compare_erase a b

end

namespace Ty

variable (t : Ty)

/-- Different values have different erasures. -/
theorem erase_injective {a b : t.Val} (h : t.erase a = t.erase b) : a = b :=
  TotalOrder.injective_of_compare t.compare_erase h

/-! ## Sets and maps -/

theorem entries_erase_set (m : SortedMap t.order Unit) :
    SortedMap.entries ((Ty.set t).erase m) = m.entries.map (Prod.map t.erase id) :=
  SortedMap.entries_convert id t.compare_erase m

theorem entries_erase_map (k : Ty) (m : SortedMap k.order t.Val) :
    SortedMap.entries ((Ty.map k t).erase m) = m.entries.map (Prod.map k.erase t.erase) :=
  SortedMap.entries_convert t.erase k.compare_erase m

/-- Erasure goes through the insertion of an entry into a map. -/
theorem erase_insert (k : Ty) (m : SortedMap k.order t.Val) (key : k.Val) (v : t.Val) :
    (Ty.map k t).erase (m.insert key v) =
      SortedMap.insert ((Ty.map k t).erase m) (k.erase key) (t.erase v) :=
  SortedMap.convert_insert t.erase k.compare_erase m key v

/-- Erasure goes through the building of a set from a list. -/
theorem erase_ofList (vs : List t.Val) :
    (Ty.set t).erase (SortedMap.ofList (vs.map fun v => (v, ()))) =
      SortedMap.ofList ((vs.map t.erase).map fun v => (v, ())) := by
  refine (SortedMap.convert_ofList id t.compare_erase _).trans ?_
  rw [List.map_map, List.map_map]
  rfl

end Ty

/-! ## Names and sizes -/

@[simp] theorem Row.size_erased (r : Row) : r.erased.size = r.size := by
  induction r with
  | nil => rfl
  | cons label t r ih => exact congrArg (· + 1) ih

end Refinement
