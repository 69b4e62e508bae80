import Refinement.Proofs.Erasure.Basic

/-!
# Refinements leave no trace in JSON

A value is written as its erasure is, at any type and whatever is refined inside.

* `Ty.write_erase`: the text of a value is that of its erasure.
* `Ty.json?_erase`: the same for the JSON form, which the erasure has if the value has it.
-/

namespace Refinement

/-! ## Names -/

theorem Ty.writeName_erase : ∀ (t : Ty) (v : t.Val), t.erased.writeName (t.erase v) = t.writeName v
  | .scalar _, _ => rfl
  | .list .., _ => rfl
  | .array .., _ => rfl
  | .set _, _ => rfl
  | .map .., _ => rfl
  | .option _, none => rfl
  | .option t, some v => t.writeName_erase v
  | .refined t _, x => t.writeName_erase x.value
  | .present _, _ => rfl
  | .tuple _, _ => rfl
  | .record .., _ => rfl

/-- A value is a name if its erasure is one. -/
theorem Ty.hasName_erase : ∀ (t : Ty) (v : t.Val), t.erased.hasName (t.erase v) = t.hasName v
  | .scalar _, _ => rfl
  | .list .., _ => rfl
  | .array .., _ => rfl
  | .set _, _ => rfl
  | .map .., _ => rfl
  | .option _, none => rfl
  | .option t, some v => t.hasName_erase v
  | .refined t _, x => t.hasName_erase x.value
  | .present _, _ => rfl
  | .tuple _, _ => rfl
  | .record .., _ => rfl

/-! ## Values -/

/-- What is made of items that were changed may be made of them directly. -/
theorem map_map_of_forall {α β γ : Type} {f : α → β} {g : β → γ} {k : α → γ}
    (h : ∀ v, g (f v) = k v) (vs : List α) : (vs.map f).map g = vs.map k := by
  rw [List.map_map]
  exact List.map_congr_left fun v _ => h v

/-- What all items that were changed are asked may be asked of them directly. -/
theorem all_map_of_forall {α β : Type} {f : α → β} {p : β → Bool} {q : α → Bool}
    (h : ∀ v, p (f v) = q v) (vs : List α) : (vs.map f).all p = vs.all q := by
  rw [List.all_map]
  exact List.all_congr rfl fun v => h v

mutual

/-- The text of a value is that of its erasure. -/
theorem Ty.write_erase : ∀ (t : Ty) (v : t.Val), t.erased.write (t.erase v) = t.write v
  | .scalar _, _ => rfl
  | .list _ t, vs => congrArg Json.writeArray (map_map_of_forall t.write_erase vs)
  | .array t _, vs => congrArg Json.writeArray (map_map_of_forall t.write_erase vs.val)
  | .set t, m => by
    show Json.writeArray (((SortedMap.entries ((Ty.set t).erase m)).map (·.1)).map t.erased.write) =
      Json.writeArray (((SortedMap.entries m).map (·.1)).map t.write)
    rw [t.entries_erase_set m, List.map_map, List.map_map, List.map_map]
    exact congrArg Json.writeArray (List.map_congr_left fun e _ => t.write_erase e.1)
  | .map k t, m => by
    have hentry : ∀ e : k.Val × t.Val, (k.erased.writeName (k.erase e.1), t.erased.write (t.erase e.2)) =
        (k.writeName e.1, t.write e.2) := by
      intro e
      rw [k.writeName_erase, t.write_erase]
    show Json.writeObject ((SortedMap.entries ((Ty.map k t).erase m)).map
      fun e => (k.erased.writeName e.1, t.erased.write e.2)) = _
    rw [t.entries_erase_map k m]
    exact congrArg Json.writeObject (map_map_of_forall hentry m.entries)
  | .option _, none => rfl
  | .option t, some v => t.write_erase v
  | .refined t _, x => t.write_erase x.value
  | .present _, .uninitialized => rfl
  | .present t, .holding v => congrArg (fun w => Json.writeArray [w]) (t.write_erase v)
  | .tuple r, v => by
    show Json.writeTuple ((r.erased.writeParts (r.erase v)).map (·.2)) = _
    rw [r.writeParts_erase v]
    rfl
  | .record _ _ r, v => congrArg Json.writeObject (r.writeParts_erase v)

/-- The texts of the parts are those of their erasures. -/
theorem Row.writeParts_erase : ∀ (r : Row) (v : r.Val),
    r.erased.writeParts (r.erase v) = r.writeParts v
  | .nil, _ => rfl
  | .cons label t r, v => by
    show (_, t.erased.write (t.erase v.1)) :: r.erased.writeParts (r.erase v.2) = _
    rw [t.write_erase v.1, r.writeParts_erase v.2]
    rfl

end

mutual

/-- The values of a type have a JSON form if those of its erasure do. -/
theorem Ty.hasForm_erased : ∀ t : Ty, t.erased.hasForm = t.hasForm
  | .scalar _ => rfl
  | .list _ t => t.hasForm_erased
  | .array t _ => t.hasForm_erased
  | .set t => t.hasForm_erased
  | .map k t => by
    show (k.erased.hasForm && t.erased.hasForm) = (k.hasForm && t.hasForm)
    rw [k.hasForm_erased, t.hasForm_erased]
  | .option t => t.hasForm_erased
  | .refined t _ => t.hasForm_erased
  | .present t => t.hasForm_erased
  | .tuple r => r.hasForm_erased
  | .record _ _ r => r.hasForm_erased

/-- The same of parts. -/
theorem Row.hasForm_erased : ∀ r : Row, r.erased.hasForm = r.hasForm
  | .nil => rfl
  | .cons _ t r => by
    show (t.erased.hasForm && r.erased.hasForm) = (t.hasForm && r.hasForm)
    rw [t.hasForm_erased, r.hasForm_erased]

end

mutual

/-- The keys in a value can be names if those in its erasure can. -/
theorem Ty.isWritable_erase : ∀ (t : Ty) (v : t.Val),
    t.erased.isWritable (t.erase v) = t.isWritable v
  | .scalar _, _ => rfl
  | .list _ t, vs => all_map_of_forall t.isWritable_erase vs
  | .array t _, vs => all_map_of_forall t.isWritable_erase vs.val
  | .set t, m => by
    show ((SortedMap.entries ((Ty.set t).erase m)).map (·.1)).all t.erased.isWritable =
      ((SortedMap.entries m).map (·.1)).all t.isWritable
    rw [t.entries_erase_set m, List.map_map, List.all_map, List.all_map]
    exact List.all_congr rfl fun e => t.isWritable_erase e.1
  | .map k t, m => by
    show (SortedMap.entries ((Ty.map k t).erase m)).all
      (fun e => k.erased.hasName e.1 && t.erased.isWritable e.2) = _
    rw [t.entries_erase_map k m]
    refine all_map_of_forall (fun e => ?_) m.entries
    show (k.erased.hasName (k.erase e.1) && t.erased.isWritable (t.erase e.2)) = _
    rw [k.hasName_erase, t.isWritable_erase]
  | .option _, none => rfl
  | .option t, some v => congrArg (· && true) (t.isWritable_erase v)
  | .refined t _, x => t.isWritable_erase x.value
  | .present _, .uninitialized => rfl
  | .present t, .holding v => congrArg (· && true) (t.isWritable_erase v)
  | .tuple r, v => r.isWritable_erase v
  | .record _ _ r, v => r.isWritable_erase v

/-- The same of parts. -/
theorem Row.isWritable_erase : ∀ (r : Row) (v : r.Val),
    r.erased.isWritable (r.erase v) = r.isWritable v
  | .nil, _ => rfl
  | .cons _ t r, v => by
    show (t.erased.isWritable (t.erase v.1) && r.erased.isWritable (r.erase v.2)) = _
    rw [t.isWritable_erase v.1, r.isWritable_erase v.2]
    rfl

end

/-- The JSON form of a value is that of its erasure. -/
theorem Ty.json?_erase (t : Ty) (v : t.Val) : t.erased.json? (t.erase v) = t.json? v := by
  unfold Ty.json?
  rw [t.hasForm_erased, t.isWritable_erase v, t.write_erase v]

end Refinement
