import Refinement.Json.Reader
import Refinement.Proofs.RoundTrip.Words

/-!
# Written integers are read back

An integer is written as its decimal digits behind its sign. Reading takes them all and stops at
what stands behind, which has to be something that continues no number.

* `Delimits`: what may stand behind a number.
* `readNumber_toDigits`, `readDigits_toDigits`: the digits are read back by both scanners.
* `readInteger_writeInt`: an integer of every width is read back.
-/

namespace Refinement.Json

/-- What may stand behind a number: nothing, or a character that does not continue it. -/
def Delimits (r : List Char) : Prop :=
  ∀ c ∈ r.head?, c = ',' ∨ c = ']' ∨ c = '\x7d' ∨ c = '"'

namespace Delimits

variable {r : List Char}

theorem nil : Delimits [] := nofun

theorem comma (r : List Char) : Delimits (',' :: r) := by rintro c ⟨⟩; exact .inl rfl

theorem bracket (r : List Char) : Delimits (']' :: r) := by rintro c ⟨⟩; exact .inr (.inl rfl)

theorem brace (r : List Char) : Delimits ('\x7d' :: r) := by
  rintro c ⟨⟩
  exact .inr (.inr (.inl rfl))

theorem quote (r : List Char) : Delimits ('"' :: r) := by
  rintro c ⟨⟩
  exact .inr (.inr (.inr rfl))

theorem startsWithDigit_eq (h : Delimits r) : startsWithDigit r = false := by
  cases r with
  | nil => rfl
  | cons c r => rcases h c rfl with rfl | rfl | rfl | rfl <;> rfl

theorem finishWhole_eq (h : Delimits r) (negative : Bool) (m : Nat) :
    finishWhole negative m r = .ok (wholeNumber negative m, r) := by
  cases r with
  | nil => rfl
  | cons c r => rcases h c rfl with rfl | rfl | rfl | rfl <;> rfl

end Delimits

/-! ## Digits -/

theorem takeWhile_digits {ds r : List Char} (hd : ∀ c ∈ ds, c.isDigit = true)
    (hr : startsWithDigit r = false) :
    (ds ++ r).takeWhile Char.isDigit = ds ∧ (ds ++ r).dropWhile Char.isDigit = r := by
  rw [List.takeWhile_append_of_pos hd, List.dropWhile_append_of_pos hd]
  cases r with
  | nil => exact ⟨List.append_nil ds, rfl⟩
  | cons c r =>
    have hc : ¬ c.isDigit = true := by
      rw [show c.isDigit = startsWithDigit (c :: r) from rfl, hr]
      exact Bool.false_ne_true
    rw [List.takeWhile_cons_of_neg hc, List.dropWhile_cons_of_neg hc, List.append_nil]
    exact ⟨rfl, rfl⟩

theorem le_ofDigitChars (ds : List Char) (m : Nat) : m ≤ Nat.ofDigitChars 10 ds m := by
  induction ds generalizing m with
  | nil => exact Nat.le_of_eq Nat.ofDigitChars_nil.symm
  | cons c ds ih =>
    rw [Nat.ofDigitChars_cons]
    have := ih (10 * m + (c.toNat - '0'.toNat))
    omega

/-- Digits are gathered as long as the number fits. -/
theorem gather_digits {ds r : List Char} (hd : ∀ c ∈ ds, c.isDigit = true)
    (hr : startsWithDigit r = false) (m : Nat) (hm : Nat.ofDigitChars 10 ds m ≤ gatherLimit) :
    gather m (ds ++ r) = (Nat.ofDigitChars 10 ds m, ds.length, r) := by
  induction ds generalizing m with
  | nil =>
    rw [Nat.ofDigitChars_nil]
    cases r with
    | nil => rfl
    | cons c r =>
      have hc : c.isDigit = false := hr
      simp [gather, hc]
  | cons c ds ih =>
    obtain ⟨hc, hd⟩ := List.forall_mem_cons.1 hd
    rw [Nat.ofDigitChars_cons] at hm ⊢
    have hle := le_ofDigitChars ds (10 * m + (c.toNat - '0'.toNat))
    have hval : m * 10 + Text.digitValue c = 10 * m + (c.toNat - '0'.toNat) := by
      unfold Text.digitValue
      omega
    have hfits : (c.isDigit && decide (m * 10 + Text.digitValue c ≤ gatherLimit)) = true := by
      rw [hc, Bool.true_and, decide_eq_true_eq, hval]
      omega
    rw [List.cons_append]
    unfold gather
    rw [if_pos hfits, hval, ih hd _ hm]
    rfl

theorem digitChar_ne_zero : ∀ n < 10, n ≠ 0 → Nat.digitChar n ≠ '0' := by decide

/-- The first digit of a number is not zero, except for zero itself. -/
theorem toDigits_eq_cons {n : Nat} (hn : n ≠ 0) :
    ∃ c ds, Nat.toDigits 10 n = c :: ds ∧ c ≠ '0' := by
  induction n using Nat.strongRecOn with
  | ind n ih =>
    by_cases h : n < 10
    · rw [Nat.toDigits_of_lt_base h]
      exact ⟨n.digitChar, [], rfl, digitChar_ne_zero n h hn⟩
    · rw [Nat.toDigits_of_base_le (by decide) (by omega)]
      obtain ⟨c, ds, hds, hc⟩ := ih (n / 10) (by omega) (by omega)
      rw [hds]
      exact ⟨c, _, rfl, hc⟩

theorem isDigit_of_mem {n : Nat} : ∀ c ∈ Nat.toDigits 10 n, c.isDigit = true :=
  fun _ => Nat.isDigit_of_mem_toDigits (by decide) (by decide)

/-- Digits are read back to their number by the scanner of numbers of any kind. -/
theorem readNumber_toDigits (negative : Bool) {n : Nat} (hn : n ≤ gatherLimit) {r : List Char}
    (hr : Delimits r) :
    readNumber negative (Nat.toDigits 10 n ++ r) = .ok (wholeNumber negative n, r) := by
  by_cases h0 : n = 0
  · subst h0
    show (if startsWithDigit r then _ else finishWhole negative 0 r) = _
    rw [hr.startsWithDigit_eq]
    exact hr.finishWhole_eq negative 0
  · have hg := gather_digits (isDigit_of_mem (n := n)) hr.startsWithDigit_eq 0
    rw [Nat.ofDigitChars_ten_toDigits] at hg
    have hdigit := isDigit_of_mem (n := n)
    obtain ⟨c, ds, hds, hc⟩ := toDigits_eq_cons h0
    rw [hds] at hg hdigit ⊢
    rw [List.cons_append] at hg ⊢
    simp only [readNumber, if_neg hc, if_pos (hdigit c List.mem_cons_self), hg hn,
      hr.startsWithDigit_eq, Bool.false_eq_true, if_false]
    exact hr.finishWhole_eq negative n

/-- Digits are read back to their number by the scanner of wide integers. -/
theorem readDigits_toDigits (n : Nat) {r : List Char} (hr : Delimits r) :
    readDigits (Nat.toDigits 10 n ++ r) = .ok (n, r) := by
  by_cases h0 : n = 0
  · subst h0
    show (if startsWithDigit r then _ else _) = _
    rw [hr.startsWithDigit_eq]
    rfl
  · have hdigit := isDigit_of_mem (n := n)
    have hval := Text.decimalValue_toDigits n
    obtain ⟨c, ds, hds, hc⟩ := toDigits_eq_cons h0
    rw [hds] at hdigit hval ⊢
    obtain ⟨hcd, hdigit⟩ := List.forall_mem_cons.1 hdigit
    obtain ⟨htake, hdrop⟩ := takeWhile_digits hdigit hr.startsWithDigit_eq
    unfold readDigits
    rw [List.cons_append]
    simp only [if_neg hc, if_pos hcd, htake, hdrop, hval]

/-! ## Integers -/

/-- A written integer is its digits, or its digits behind a minus sign. -/
theorem writeInt_cases (n : Int) :
    (0 ≤ n ∧ writeInt n = Nat.toDigits 10 n.natAbs) ∨
      (n < 0 ∧ writeInt n = '-' :: Nat.toDigits 10 n.natAbs) := by
  unfold writeInt
  by_cases hn : n < 0
  · rw [if_pos hn]
    exact .inr ⟨hn, rfl⟩
  · rw [if_neg hn]
    exact .inl ⟨by omega, rfl⟩

/-- The digits of a number start with a digit. -/
theorem toDigits_eq_cons_digit (n : Nat) :
    ∃ c ds, Nat.toDigits 10 n = c :: ds ∧ c.isDigit = true := by
  obtain ⟨c, ds, h⟩ := List.exists_cons_of_ne_nil (Nat.toDigits_ne_nil (n := n) (b := 10))
  exact ⟨c, ds, h, isDigit_of_mem c (h ▸ List.mem_cons_self)⟩

theorem isBlank_of_isDigit {c : Char} (h : c.isDigit = true) : isBlank c = false := by
  unfold isBlank
  simp only [Bool.or_eq_false_iff, beq_eq_false_iff_ne]
  refine ⟨⟨⟨?_, ?_⟩, ?_⟩, ?_⟩ <;> (rintro rfl; exact absurd h (by decide))

theorem ne_minus_of_isDigit {c : Char} (h : c.isDigit = true) : c ≠ '-' := by
  rintro rfl
  exact absurd h (by decide)

/-- Integers of up to 64 bits are read back as numbers. -/
theorem readAnyNumber_writeInt (expected : String) {n : Int} (hlo : -(twoTo 63 : Int) ≤ n)
    (hhi : n ≤ gatherLimit) {r : List Char} (hr : Delimits r) :
    readAnyNumber expected (writeInt n ++ r) = .ok (.integer n, r) := by
  have hlimit : twoTo 63 ≤ gatherLimit := by decide
  rcases writeInt_cases n with ⟨hn, hw⟩ | ⟨hn, hw⟩
  · have hread := readNumber_toDigits false (n := n.natAbs) (by omega) hr
    obtain ⟨c, ds, hds, hc⟩ := toDigits_eq_cons_digit n.natAbs
    rw [hw]
    rw [hds, List.cons_append] at hread ⊢
    have hvalue : wholeNumber false n.natAbs = .integer n := by
      unfold wholeNumber
      rw [if_pos rfl, Int.natAbs_of_nonneg hn]
    unfold readAnyNumber
    rw [skipBlanks_of_not_blank (isBlank_of_isDigit hc)]
    split
    · next h => cases h
    · next h => exact absurd (List.cons.inj h).1 (ne_minus_of_isDigit hc)
    · next h =>
      obtain ⟨rfl, rfl⟩ := List.cons.inj h
      rw [if_pos hc, hread, hvalue]
  · have hread := readNumber_toDigits true (n := n.natAbs) (by omega) hr
    have hvalue : wholeNumber true n.natAbs = .integer n := by
      unfold wholeNumber
      rw [if_neg (by decide), if_neg (by omega)]
      congr 1
      omega
    rw [hw, List.cons_append]
    show readNumber true (Nat.toDigits 10 n.natAbs ++ r) = _
    rw [hread, hvalue]

theorem readSigned_writeInt {signed : Bool} {n : Int} (hn : n < 0 → signed = true) {r : List Char}
    (hr : Delimits r) : readSigned signed (writeInt n ++ r) = .ok (n, r) := by
  have hread := readDigits_toDigits n.natAbs hr
  rcases writeInt_cases n with ⟨hpos, hw⟩ | ⟨hneg, hw⟩
  · obtain ⟨c, ds, hds, hc⟩ := toDigits_eq_cons_digit n.natAbs
    rw [hw]
    rw [hds, List.cons_append] at hread ⊢
    unfold readSigned
    split
    · next h => exact absurd (List.cons.inj h).1 (ne_minus_of_isDigit hc)
    · rw [hread]
      show Except.ok ((n.natAbs : Int), r) = _
      rw [Int.natAbs_of_nonneg hpos]
  · rw [hw, List.cons_append, hn hneg]
    show (fun x => (-(x.1 : Int), x.2)) <$> readDigits (Nat.toDigits 10 n.natAbs ++ r) = _
    rw [hread]
    show Except.ok (-(n.natAbs : Int), r) = _
    rw [show -(n.natAbs : Int) = n by omega]

theorem writeInt_ne_nil (n : Int) : writeInt n ≠ [] := by
  rcases writeInt_cases n with ⟨-, hw⟩ | ⟨-, hw⟩
  · rw [hw]
    exact Nat.toDigits_ne_nil
  · rw [hw]
    exact List.cons_ne_nil _ _

/-- Written integers have something in front that is no blank. -/
theorem skipBlanks_writeInt (n : Int) (r : List Char) :
    skipBlanks (writeInt n ++ r) = writeInt n ++ r := by
  rcases writeInt_cases n with ⟨-, hw⟩ | ⟨-, hw⟩
  · obtain ⟨c, ds, hds, hc⟩ := toDigits_eq_cons_digit n.natAbs
    rw [hw, hds]
    exact skipBlanks_of_not_blank (isBlank_of_isDigit hc) _
  · rw [hw]
    exact skipBlanks_of_not_blank rfl _

theorem bounds_of_bits_ne (k : IntKind) (hk : k.bits ≠ 128) :
    -(twoTo 63 : Int) ≤ k.min ∧ k.max ≤ gatherLimit := by
  cases k <;> first | decide | exact absurd rfl hk

theorem min_eq_zero {k : IntKind} (hk : k.signed = false) : k.min = 0 := by
  unfold IntKind.min
  rw [hk]
  rfl

/-- A written integer of every width is read back. -/
theorem readInteger_writeInt {k : IntKind} (v : k.Val) {r : List Char} (hr : Delimits r) :
    readInteger k (writeInt v.toInt ++ r) = .ok (v, r) := by
  have hmin := v.min_le
  have hmax := v.le_max
  unfold readInteger
  by_cases hk : k.bits = 128
  · have hsigned : v.toInt < 0 → k.signed = true := by
      intro hneg
      cases hs : k.signed with
      | true => rfl
      | false =>
        rw [min_eq_zero hs] at hmin
        omega
    have hread : readWide k (writeInt v.toInt ++ r) = .ok (v, r) := by
      unfold readWide
      rw [readSigned_writeInt hsigned hr]
      simp only [bind, Except.bind, IntKind.ofInt?_toInt]
    rw [if_pos hk, skipBlanks_writeInt]
    split
    · next h => exact absurd (List.append_eq_nil_iff.1 h).1 (writeInt_ne_nil v.toInt)
    · exact hread
  · obtain ⟨hlo, hhi⟩ := bounds_of_bits_ne k hk
    rw [if_neg hk, readAnyNumber_writeInt k.name (by omega) (by omega) hr]
    simp only [IntKind.ofInt?_toInt]

end Refinement.Json
