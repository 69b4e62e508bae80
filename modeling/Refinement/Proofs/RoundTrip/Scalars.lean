import Refinement.Proofs.RoundTrip.Numbers

/-!
# Written scalars are read back

Keys are read back as values, and as the names of members, where numbers and truth values stand
between quotation marks.

* `readKey_write`: a key as a value.
* `readScalarName_writeName`: a key as a name. Its quotation mark ends it, so that anything may
  stand behind it.
* `Key.write_eq_cons`: how the text of a key begins.
-/

namespace Refinement

namespace Json

theorem readBool_writeBool (b : Bool) (r : List Char) :
    readBool (writeBool b ++ r) = .ok (b, r) := by
  cases b with
  | true =>
    show (fun x => (true, x.2)) <$> literal ['r', 'u', 'e'] (['r', 'u', 'e'] ++ r) = _
    rw [literal_append]
    rfl
  | false =>
    show (fun x => (false, x.2)) <$> literal ['a', 'l', 's', 'e'] (['a', 'l', 's', 'e'] ++ r) = _
    rw [literal_append]
    rfl

theorem readString_writeText (expected : String) (s r : List Char) :
    readString expected (writeText s ++ r) = .ok (s, r) := by
  have hw : writeText s ++ r = '"' :: (s.flatMap escape ++ '"' :: r) := by
    unfold writeText
    rw [List.cons_append, List.cons_append, List.append_assoc]
    rfl
  rw [hw]
  show readText (s.flatMap escape ++ '"' :: r) = _
  exact readText_escape s r

theorem readChar_writeText (c : Char) (r : List Char) :
    readChar (writeText [c] ++ r) = .ok (c, r) := by
  unfold readChar
  rw [readString_writeText]
  rfl

/-- A key is read back as a value. -/
theorem readKey_write : ∀ (k : Key) (v : k.Val) {r : List Char}, Delimits r →
    readKey k (k.write v ++ r) = .ok (v, r)
  | .int _, v, _, hr => readInteger_writeInt v hr
  | .bool, b, r, _ => readBool_writeBool b r
  | .char, c, r, _ => readChar_writeText c r
  | .text, s, r, _ => by
    show (fun x => (String.ofList x.1, x.2)) <$>
      readString "a string" (writeText (String.toList s) ++ r) = _
    rw [readString_writeText]
    show Except.ok (String.ofList (String.toList s), r) = _
    rw [String.ofList_toList]

/-! ## Names -/

/-- A number is read back from between quotation marks. -/
theorem readNumberName_writeInt {k : IntKind} (v : k.Val) (r : List Char) :
    readNumberName (readInteger k) ('"' :: writeInt v.toInt ++ ['"'] ++ r) = .ok (v, r) := by
  have hread := readInteger_writeInt v (.quote r)
  obtain ⟨c, cs, hw, hc⟩ : ∃ c cs, writeInt v.toInt = c :: cs ∧ (c.isDigit || c = '-') = true := by
    rcases writeInt_cases v.toInt with ⟨-, hw⟩ | ⟨-, hw⟩
    · obtain ⟨c, ds, hds, hc⟩ := toDigits_eq_cons_digit v.toInt.natAbs
      exact ⟨c, ds, hw.trans hds, by rw [hc, Bool.true_or]⟩
    · exact ⟨'-', _, hw, rfl⟩
  rw [hw] at hread ⊢
  rw [List.append_assoc, List.cons_append, List.cons_append]
  rw [List.cons_append] at hread
  show (if (c.isDigit || c = '-') = true then readInteger k (c :: (cs ++ '"' :: r)) >>= _ else _) = _
  rw [if_pos hc, hread]
  rfl

theorem readBoolName_writeBool (b : Bool) (r : List Char) :
    readBoolName ('"' :: writeBool b ++ ['"'] ++ r) = .ok (b, r) := by
  cases b with
  | true =>
    show (fun x => (true, x.2)) <$> literal ['r', 'u', 'e', '"'] (['r', 'u', 'e', '"'] ++ r) = _
    rw [literal_append]
    rfl
  | false =>
    show (fun x => (false, x.2)) <$>
      literal ['a', 'l', 's', 'e', '"'] (['a', 'l', 's', 'e', '"'] ++ r) = _
    rw [literal_append]
    rfl

/-- A key is read back as the name of a member. -/
theorem readScalarName_writeName : ∀ (k : Key) (v : k.Val) (r : List Char),
    readScalarName (.key k) (k.writeName v ++ r) = .ok (v, r)
  | .int _, v, r => readNumberName_writeInt v r
  | .bool, b, r => readBoolName_writeBool b r
  | .char, c, r => readChar_writeText c r
  | .text, s, r => by
    show (fun x => (String.ofList x.1, x.2)) <$>
      readString "a string" (writeText (String.toList s) ++ r) = _
    rw [readString_writeText]
    show Except.ok (String.ofList (String.toList s), r) = _
    rw [String.ofList_toList]

end Json

namespace Key

open Json

/-- The text of a key begins neither with a blank, nor as the end of an array, nor as null. -/
theorem write_eq_cons : ∀ (k : Key) (v : k.Val),
    ∃ c cs, k.write v = c :: cs ∧ isBlank c = false ∧ c ≠ ']' ∧ c ≠ 'n'
  | .int _, v => by
    rcases writeInt_cases (IntKind.Val.toInt v) with ⟨-, hw⟩ | ⟨-, hw⟩
    · obtain ⟨c, ds, hds, hc⟩ := toDigits_eq_cons_digit (IntKind.Val.toInt v).natAbs
      refine ⟨c, ds, hw.trans hds, isBlank_of_isDigit hc, ?_, ?_⟩
      · rintro rfl
        exact absurd hc (by decide)
      · rintro rfl
        exact absurd hc (by decide)
    · exact ⟨'-', _, hw, rfl, by decide, by decide⟩
  | .bool, true => ⟨'t', ['r', 'u', 'e'], rfl, rfl, by decide, by decide⟩
  | .bool, false => ⟨'f', ['a', 'l', 's', 'e'], rfl, rfl, by decide, by decide⟩
  | .char, _ => ⟨'"', _, rfl, rfl, by decide, by decide⟩
  | .text, _ => ⟨'"', _, rfl, rfl, by decide, by decide⟩

/-- As a name every key begins with a quotation mark. -/
theorem writeName_eq_cons : ∀ (k : Key) (v : k.Val), ∃ cs, k.writeName v = '"' :: cs
  | .int _, _ => ⟨_, rfl⟩
  | .bool, _ => ⟨_, rfl⟩
  | .char, _ => ⟨_, rfl⟩
  | .text, _ => ⟨_, rfl⟩

end Key

end Refinement
