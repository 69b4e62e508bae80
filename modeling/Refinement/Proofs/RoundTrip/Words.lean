import Refinement.Json.Writer
import Refinement.Json.Lexical

/-!
# Written words are read back

Blanks, literals and texts. Whatever stands behind a text, reading it from its opening quotation
mark on gives its characters back and leaves what stands behind.

* `skipBlanks_of_not_blank`: nothing is skipped in front of a word.
* `readTextItem_escape`: a character is read back from its escape.
* `readText_escape`: a text is read back from its written form.
-/

namespace Refinement.Json

/-! ## Blanks and literals -/

theorem skipBlanks_of_not_blank {c : Char} (h : isBlank c = false) (r : List Char) :
    skipBlanks (c :: r) = c :: r := by
  unfold skipBlanks
  rw [List.dropWhile_cons_of_neg (by simp [h])]

theorem literal_append (w r : List Char) : literal w (w ++ r) = .ok ((), r) := by
  induction w with
  | nil => rfl
  | cons c w ih =>
    rw [List.cons_append]
    unfold literal
    rw [if_pos rfl]
    exact ih

/-! ## Texts -/

/-- The two digits of a control character in base sixteen. -/
theorem hexValue?_control :
    ∀ n < 32, Text.hexValue? ['0', '0', Nat.digitChar (n / 16), Nat.digitChar (n % 16)] = some n := by
  decide

theorem readCodePoint_control {c : Char} (h : c.toNat < 32) (r : List Char) :
    readCodePoint ('0' :: '0' :: Nat.digitChar (c.toNat / 16) :: Nat.digitChar (c.toNat % 16) :: r) =
      .ok (c, r) := by
  have low : isLowSurrogate c.toNat = false := by
    unfold isLowSurrogate
    simp only [Bool.and_eq_false_iff, decide_eq_false_iff_not]
    omega
  have high : isHighSurrogate c.toNat = false := by
    unfold isHighSurrogate
    simp only [Bool.and_eq_false_iff, decide_eq_false_iff_not]
    omega
  unfold readCodePoint
  simp only [fourHexDigits, hexValue?_control _ h]
  simp only [bind, Except.bind, low, high, Bool.false_eq_true, if_false, Char.ofNat_toNat]

/-- A character that stands for itself. -/
theorem readTextItem_of_plain {c : Char} (hq : c ≠ '"') (hb : c ≠ '\\') (hc : ¬ c.toNat < 32)
    (r : List Char) : readTextItem (c :: r) = .ok (some c, r) := by
  unfold readTextItem
  split
  · simp_all
  · simp_all
  · simp_all
  · simp_all
  · simp_all
  · simp_all

/-- A character is read back from its escape. -/
theorem readTextItem_escape (c : Char) (r : List Char) :
    readTextItem (escape c ++ r) = .ok (some c, r) := by
  unfold escape
  split
  · next h => subst h; rfl
  split
  · next h => subst h; rfl
  split
  · next h => subst h; rfl
  split
  · next h => subst h; rfl
  split
  · next h => subst h; rfl
  split
  · next h => subst h; rfl
  split
  · next h => subst h; rfl
  split
  · next h =>
    show (fun x => (some x.1, x.2)) <$> readCodePoint ('0' :: '0' :: _ :: _ :: r) = _
    rw [readCodePoint_control h]
    rfl
  · next hq hb _ _ _ _ _ hc => exact readTextItem_of_plain hq hb hc r

theorem readTextItems_escape (s r : List Char) (fuel : Nat) (h : s.length < fuel) :
    readTextItems fuel (s.flatMap escape ++ '"' :: r) = .ok (s, r) := by
  induction s generalizing fuel with
  | nil =>
    obtain ⟨fuel, rfl⟩ : ∃ k, fuel = k + 1 := ⟨fuel - 1, by simp at h; omega⟩
    rfl
  | cons c s ih =>
    obtain ⟨fuel, rfl⟩ : ∃ k, fuel = k + 1 := ⟨fuel - 1, by omega⟩
    rw [List.flatMap_cons, List.append_assoc]
    unfold readTextItems
    rw [readTextItem_escape]
    show (fun x => (c :: x.1, x.2)) <$> readTextItems fuel _ = _
    rw [ih fuel (by simpa using h)]
    rfl

theorem length_escape (c : Char) : 0 < (escape c).length := by
  unfold escape
  repeat' split
  all_goals exact Nat.succ_pos _

theorem length_le_flatMap_escape (s : List Char) : s.length ≤ (s.flatMap escape).length := by
  induction s with
  | nil => exact Nat.le_refl 0
  | cons c s ih =>
    have := length_escape c
    rw [List.flatMap_cons, List.length_append, List.length_cons]
    omega

/-- A text is read back from behind its opening quotation mark. -/
theorem readText_escape (s r : List Char) :
    readText (s.flatMap escape ++ '"' :: r) = .ok (s, r) := by
  apply readTextItems_escape
  have := length_le_flatMap_escape s
  rw [List.length_append]
  omega

end Refinement.Json
