import Refinement.Proofs.Erasure.Writing
import Refinement.Proofs.RoundTrip.Values

/-!
# The round trip through JSON

A value of a faithful type is what its JSON form is read as. So different values have different
forms, and a wrapper that holds nothing is not taken for one that holds null or an empty wrapper.

* `Ty.ofJson_json`: the round trip, and the form of a value without its refinements.
-/

namespace Refinement

open Json

mutual

/-- The values of faithful types have a JSON form. -/
theorem Ty.hasForm_of_isFaithful : ∀ t : Ty, t.isFaithful = true → t.hasForm = true
  | .scalar (.key _), _ => rfl
  | .list _ t, h => t.hasForm_of_isFaithful h
  | .array t _, h => t.hasForm_of_isFaithful h
  | .set t, h => t.hasForm_of_isFaithful h
  | .map k t, h => by
    obtain ⟨hk, ht⟩ := (Bool.and_eq_true _ _).mp h
    exact (Bool.and_eq_true _ _).mpr ⟨k.hasForm_of_isName hk, t.hasForm_of_isFaithful ht⟩
  | .option t, h => by
    obtain ⟨-, ht⟩ := (Bool.and_eq_true _ _).mp h
    exact t.hasForm_of_isFaithful ht
  | .refined t _, h => t.hasForm_of_isFaithful h
  | .present t, h => t.hasForm_of_isFaithful h
  | .tuple r, h => r.hasForm_of_isFaithful h
  | .record _ _ r, h => by
    obtain ⟨-, hr⟩ := (Bool.and_eq_true _ _).mp h
    exact r.hasForm_of_isFaithful hr

/-- The same of parts. -/
theorem Row.hasForm_of_isFaithful : ∀ r : Row, r.isFaithful = true → r.hasForm = true
  | .nil, _ => rfl
  | .cons _ t r, h => by
    obtain ⟨ht, hr⟩ := (Bool.and_eq_true _ _).mp h
    exact (Bool.and_eq_true _ _).mpr ⟨t.hasForm_of_isFaithful ht, r.hasForm_of_isFaithful hr⟩

end

mutual

/-- All keys in the values of faithful types are names. -/
theorem Ty.isWritable_of_isFaithful : ∀ t : Ty, t.isFaithful = true → ∀ v : t.Val,
    t.isWritable v = true
  | .scalar _, _, _ => rfl
  | .list _ t, h, vs => List.all_eq_true.2 fun v _ => t.isWritable_of_isFaithful h v
  | .array t _, h, vs => List.all_eq_true.2 fun v _ => t.isWritable_of_isFaithful h v
  | .set t, h, m => List.all_eq_true.2 fun v _ => t.isWritable_of_isFaithful h v
  | .map k t, h, m => by
    obtain ⟨hk, ht⟩ := (Bool.and_eq_true _ _).mp h
    exact List.all_eq_true.2 fun e _ => (Bool.and_eq_true _ _).mpr
      ⟨k.hasName_of_isName hk e.1, t.isWritable_of_isFaithful ht e.2⟩
  | .option t, h, v => by
    obtain ⟨-, ht⟩ := (Bool.and_eq_true _ _).mp h
    exact List.all_eq_true.2 fun v _ => t.isWritable_of_isFaithful ht v
  | .refined t _, h, x => t.isWritable_of_isFaithful h x.value
  | .present t, h, x => List.all_eq_true.2 fun v _ => t.isWritable_of_isFaithful h v
  | .tuple r, h, v => r.isWritable_of_isFaithful h v
  | .record _ _ r, h, v => by
    obtain ⟨-, hr⟩ := (Bool.and_eq_true _ _).mp h
    exact r.isWritable_of_isFaithful hr v

/-- The same of parts. -/
theorem Row.isWritable_of_isFaithful : ∀ r : Row, r.isFaithful = true → ∀ v : r.Val,
    r.isWritable v = true
  | .nil, _, _ => rfl
  | .cons _ t r, h, v => by
    obtain ⟨ht, hr⟩ := (Bool.and_eq_true _ _).mp h
    exact (Bool.and_eq_true _ _).mpr
      ⟨t.isWritable_of_isFaithful ht v.1, r.isWritable_of_isFaithful hr v.2⟩

end

/-- A text that a reader takes as a whole is read as what the reader comes to. -/
theorem Json.readWhole_ofList {ε α : Type} {read : Reader ε α} {w : List Char} {v : α}
    (h : Yields (read w) v []) : (readWhole read (String.ofList w)).result = .ok v := by
  unfold readWhole
  rw [String.toList_ofList]
  generalize read w = x at h
  obtain ⟨l, x⟩ := x
  cases (h : x = .ok (v, []))
  rfl

namespace Ty

variable {t : Ty}

/-- The JSON form of a value of a faithful type is its text. -/
theorem json?_eq (h : t.isFaithful = true) (v : t.Val) :
    t.json? v = some (String.ofList (t.write v)) :=
  if_pos ((Bool.and_eq_true _ _).mpr ⟨t.hasForm_of_isFaithful h, t.isWritable_of_isFaithful h v⟩)

/-- A value of a faithful type is read back from its JSON form. -/
theorem ofJson_write (h : t.isFaithful = true) (v : t.Val) :
    t.json? v = some (String.ofList (t.write v)) ∧
      (t.ofJson (String.ofList (t.write v))).result = .ok v := by
  have hread := t.read_write h v [] .nil
  rw [List.append_nil] at hread
  exact ⟨json?_eq h v, readWhole_ofList hread⟩

/-- Different values of a faithful type have different JSON forms. -/
theorem json?_injective (h : t.isFaithful = true) {v w : t.Val} (e : t.json? v = t.json? w) :
    v = w := by
  obtain ⟨hv, hreadv⟩ := ofJson_write h v
  obtain ⟨hw, hreadw⟩ := ofJson_write h w
  rw [hv, hw] at e
  rw [Option.some.inj e, hreadw] at hreadv
  exact (Except.ok.inj hreadv).symm

/-- A value of a faithful type has a JSON form, and the form is read as the value. It is the form of
the value without its refinements. Different values have different forms; in particular, only the
form of an uninitialized wrapper is the empty array. -/
theorem ofJson_json (h : t.isFaithful = true) :
    (∀ v : t.Val, ∃ text, t.json? v = some text ∧ (t.ofJson text).result = .ok v ∧
      t.erased.json? (t.erase v) = some text) ∧
    (∀ v w : t.Val, t.json? v = t.json? w → v = w) ∧
    ∀ x : (Ty.present t).Val,
      (Ty.present t).json? x = some "[]" ↔ x = Present.uninitialized := by
  refine ⟨?_, fun v w => json?_injective h, ?_⟩
  · intro v
    obtain ⟨hjson, hread⟩ := ofJson_write h v
    exact ⟨_, hjson, hread, (t.json?_erase v).trans hjson⟩
  · intro x
    have hp : (Ty.present t).isFaithful = true := h
    have hempty : (Ty.present t).json? Present.uninitialized = some "[]" := json?_eq hp _
    constructor
    · intro hx
      exact json?_injective hp (hx.trans hempty.symm)
    · rintro rfl
      exact hempty

/-- A wrapper that holds an empty wrapper, or no integer where one is optional, has not the form of
an empty one; a wrapper of a letter has the form of a wrapper of a character. -/
theorem ofJson_json_wrappers :
    let inner : Ty := .present (.int .i32)
    let maybe : Ty := .option (.int .i32)
    let letter : Ty := .refined .char (.atom (.charClass .letter))
    let x : (Ty.present inner).Val := Present.holding Present.uninitialized
    let y : (Ty.present maybe).Val := Present.holding none
    let z : (Ty.present letter).Val := Present.holding ⟨'q', rfl⟩
    (Ty.present inner).json? x ≠ some "[]" ∧ (Ty.present maybe).json? y ≠ some "[]" ∧
      ∃ text, (Ty.present letter).json? z = some text ∧
        ((Ty.present letter).ofJson text).result = .ok z ∧
        (Ty.present .char).json? (Present.holding 'q') = some text := by
  intro inner maybe letter x y z
  obtain ⟨-, -, hinner⟩ := ofJson_json (t := inner) rfl
  obtain ⟨-, -, hmaybe⟩ := ofJson_json (t := maybe) rfl
  obtain ⟨hletter, -⟩ := ofJson_json (t := .present letter) rfl
  refine ⟨?_, ?_, hletter z⟩
  · intro h
    have hx : Present.holding Present.uninitialized = Present.uninitialized := (hinner x).1 h
    cases hx
  · intro h
    have hy : Present.holding none = Present.uninitialized := (hmaybe y).1 h
    cases hy

end Ty

end Refinement
