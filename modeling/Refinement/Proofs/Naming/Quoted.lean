import Refinement.Text.Quoted

/-!
# Quoted characters are told apart

A quoted character shows where it ends, whatever the character is and whatever stands behind it: the
quotation mark and the backslash are escaped, and the braces around a code point hold digits alone.

* `Text.append_inj_of_stops`: words end where the first mark stands.
* `Text.hexDigits_injective`: numbers are told apart by their digits in base sixteen.
* `Text.quoteChar_append_inj`: quoted characters are told apart in front of any text.
-/

namespace Refinement.Text

/-- Words without marks end where the first mark stands. -/
theorem append_inj_of_stops {marks w w' r s : List Char} (hw : ∀ c ∈ w, c ∉ marks)
    (hw' : ∀ c ∈ w', c ∉ marks) (hr : ∀ c ∈ r.head?, c ∈ marks) (hs : ∀ c ∈ s.head?, c ∈ marks)
    (h : w ++ r = w' ++ s) : w = w' ∧ r = s := by
  induction w generalizing w' with
  | nil =>
    cases w' with
    | nil => exact ⟨rfl, h⟩
    | cons d w' =>
      have hd : d ∈ marks := hr d (by rw [List.nil_append] at h; rw [h]; rfl)
      exact absurd hd (hw' d List.mem_cons_self)
  | cons c w ih =>
    cases w' with
    | nil =>
      have hc : c ∈ marks := hs c (by rw [List.nil_append] at h; rw [← h]; rfl)
      exact absurd hc (hw c List.mem_cons_self)
    | cons d w' =>
      obtain ⟨hcd, hrest⟩ := List.cons.inj h
      obtain ⟨hww, hrs⟩ := ih (fun x hx => hw x (List.mem_cons_of_mem c hx))
        (fun x hx => hw' x (List.mem_cons_of_mem d hx)) hrest
      exact ⟨by rw [hcd, hww], hrs⟩

/-! ## Digits -/

/-- Numbers are told apart by their decimal digits. -/
theorem toDigits_ten_injective {m n : Nat} (h : Nat.toDigits 10 m = Nat.toDigits 10 n) : m = n :=
  calc m = Nat.ofDigitChars 10 (Nat.toDigits 10 m) 0 := Nat.ofDigitChars_ten_toDigits.symm
    _ = Nat.ofDigitChars 10 (Nat.toDigits 10 n) 0 := by rw [h]
    _ = n := Nat.ofDigitChars_ten_toDigits

/-- The text of an integer is its digits, behind a minus sign if it is negative. -/
theorem toList_toString_int (n : Int) :
    (toString n).toList =
      if 0 ≤ n then Nat.toDigits 10 n.toNat else '-' :: Nat.toDigits 10 (-n).toNat := by
  rw [Int.toString_eq_repr, Int.repr_eq_if]
  split <;> simp

theorem isDigit_of_mem_toString_int {n : Int} {c : Char} (h : c ∈ (toString n).toList) :
    c.isDigit = true ∨ c = '-' := by
  have hdigit (k : Nat) : c ∈ Nat.toDigits 10 k → c.isDigit = true :=
    Nat.isDigit_of_mem_toDigits (by decide) (by decide)
  rw [toList_toString_int] at h
  split at h
  · exact .inl (hdigit _ h)
  · exact (List.mem_cons.1 h).symm.imp_left (hdigit _)

/-- Integers are told apart by their texts. -/
theorem toString_int_injective {m n : Int} (h : toString m = toString n) : m = n := by
  have hsign (k : Nat) (l : List Char) : Nat.toDigits 10 k ≠ '-' :: l := fun hk =>
    absurd (Nat.isDigit_of_mem_toDigits (n := k) (by decide) (by decide) (hk ▸ List.mem_cons_self))
      (by decide)
  have hletters := congrArg String.toList h
  rw [toList_toString_int, toList_toString_int] at hletters
  split at hletters <;> split at hletters
  · have := toDigits_ten_injective hletters
    omega
  · exact absurd hletters (hsign _ _)
  · exact absurd hletters.symm (hsign _ _)
  · have := toDigits_ten_injective (List.cons.inj hletters).2
    omega

theorem digitChar_inj :
    ∀ m < 16, ∀ n < 16, Nat.digitChar m = Nat.digitChar n → m = n := by decide

theorem hexDigits_of_lt {n : Nat} (h : n < 16) : hexDigits n = [Nat.digitChar n] :=
  Nat.toDigits_of_lt_base h

theorem hexDigits_of_le {n : Nat} (h : 16 ≤ n) :
    hexDigits n = hexDigits (n / 16) ++ [Nat.digitChar (n % 16)] :=
  Nat.toDigits_of_base_le (by decide) h

/-- Numbers are told apart by their digits in base sixteen. -/
theorem hexDigits_injective {m n : Nat} (h : hexDigits m = hexDigits n) : m = n := by
  induction m using Nat.strongRecOn generalizing n with
  | ind m ih =>
    by_cases hm : m < 16
    · by_cases hn : n < 16
      · rw [hexDigits_of_lt hm, hexDigits_of_lt hn] at h
        exact digitChar_inj m hm n hn (List.cons.inj h).1
      · rw [hexDigits_of_lt hm, hexDigits_of_le (Nat.not_lt.1 hn)] at h
        have hempty := (List.append_inj' ((List.nil_append _).trans h) rfl).1
        exact absurd hempty.symm Nat.toDigits_ne_nil
    · by_cases hn : n < 16
      · rw [hexDigits_of_lt hn, hexDigits_of_le (Nat.not_lt.1 hm)] at h
        have hempty := (List.append_inj' (h.trans (List.nil_append _).symm) rfl).1
        exact absurd hempty Nat.toDigits_ne_nil
      · rw [hexDigits_of_le (Nat.not_lt.1 hm), hexDigits_of_le (Nat.not_lt.1 hn)] at h
        obtain ⟨hquotient, hremainder⟩ := List.append_inj' h rfl
        have hq : m / 16 = n / 16 := ih (m / 16) (by omega) hquotient
        have hr : m % 16 = n % 16 :=
          digitChar_inj _ (Nat.mod_lt m (by decide)) _ (Nat.mod_lt n (by decide))
            (List.cons.inj hremainder).1
        omega

theorem digitChar_ne_brace : ∀ n < 16, Nat.digitChar n ≠ '\x7d' := by decide

theorem ne_brace_of_mem_hexDigits {n : Nat} {c : Char} (h : c ∈ hexDigits n) : c ≠ '\x7d' := by
  induction n using Nat.strongRecOn generalizing c with
  | ind n ih =>
    by_cases hn : n < 16
    · rw [hexDigits_of_lt hn, List.mem_singleton] at h
      rw [h]
      exact digitChar_ne_brace n hn
    · rw [hexDigits_of_le (Nat.not_lt.1 hn), List.mem_append, List.mem_singleton] at h
      rcases h with h | rfl
      · exact ih (n / 16) (by omega) h
      · exact digitChar_ne_brace _ (Nat.mod_lt n (by decide))

/-! ## Escapes -/

/-- The character that a letter behind a backslash stands for. -/
def letterMeaning : Char → Char
  | '0' => Char.ofNat 0
  | 't' => '\t'
  | 'n' => '\n'
  | 'r' => '\r'
  | l => l

/-- The three ways in which a character stands between single quotation marks. -/
inductive Escaped (c : Char) : List Char → Prop where
  | itself (h : c ≠ '\\') : Escaped c [c]
  | letter (l : Char) (h : l ≠ 'u') (h' : letterMeaning l = c) : Escaped c ['\\', l]
  | code : Escaped c ('\\' :: 'u' :: '\x7b' :: (hexDigits c.toNat ++ ['\x7d']))

theorem escaped_escape (c : Char) : Escaped c (escape '\'' c) := by
  unfold escape
  split
  · next h => exact .letter '0' (by decide) h.symm
  split
  · next h => exact .letter 't' (by decide) h.symm
  split
  · next h => exact .letter 'n' (by decide) h.symm
  split
  · next h => exact .letter 'r' (by decide) h.symm
  split
  · next h =>
    have hc : c = '\\' ∨ c = '\'' := by simpa using h
    rcases hc with rfl | rfl
    · exact .letter _ (by decide) rfl
    · exact .letter _ (by decide) rfl
  split
  · exact .code
  · next h _ =>
    have hc : c ≠ '\\' := fun hc => h (by simp [hc])
    exact .itself hc

/-- The forms of two characters are told apart in front of any text. -/
theorem Escaped.append_inj {c d : Char} {w w' r s : List Char} (hc : Escaped c w)
    (hd : Escaped d w') (h : w ++ r = w' ++ s) : c = d ∧ r = s := by
  cases hc with
  | itself hc =>
    cases hd with
    | itself hd => exact List.cons.inj h
    | letter l hl hld => exact absurd (List.cons.inj h).1 hc
    | code => exact absurd (List.cons.inj h).1 hc
  | letter l hl hlc =>
    cases hd with
    | itself hd => exact absurd (List.cons.inj h).1.symm hd
    | letter l' hl' hld =>
      obtain ⟨hll, hrs⟩ := List.cons.inj (List.cons.inj h).2
      exact ⟨by rw [← hlc, ← hld, hll], hrs⟩
    | code => exact absurd (List.cons.inj (List.cons.inj h).2).1 hl
  | code =>
    cases hd with
    | itself hd => exact absurd (List.cons.inj h).1.symm hd
    | letter l hl hld => exact absurd (List.cons.inj (List.cons.inj h).2).1.symm hl
    | code =>
      have hdigits (n : Nat) : ∀ x ∈ hexDigits n, x ∉ ['\x7d'] := fun x hx => by
        simpa using ne_brace_of_mem_hexDigits hx
      have hletters : hexDigits c.toNat ++ '\x7d' :: r = hexDigits d.toNat ++ '\x7d' :: s := by
        simpa using h
      obtain ⟨hcd, hrs⟩ :=
        append_inj_of_stops (hdigits _) (hdigits _) (by simp) (by simp) hletters
      exact ⟨Char.toNat_inj.1 (hexDigits_injective hcd), (List.cons.inj hrs).2⟩

/-- Quoted characters are told apart in front of any text. -/
theorem quoteChar_append_inj {c d : Char} {r s : List Char}
    (h : quoteChar c ++ r = quoteChar d ++ s) : c = d ∧ r = s := by
  simp only [quoteChar, List.cons_append, List.append_assoc] at h
  obtain ⟨hcd, hrs⟩ := (escaped_escape c).append_inj (escaped_escape d) (List.cons.inj h).2
  exact ⟨hcd, (List.cons.inj hrs).2⟩

end Refinement.Text
