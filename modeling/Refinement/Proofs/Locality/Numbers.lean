import Refinement.Proofs.Locality.Words

/-!
# Numbers, read locally

A number is read as far as it goes, so it is local only in front of what can end a value: no digit,
point, sign or letter begins that. The readers of numbers look at the next character and go on
behind it or in front of it, and are put together here of such choices.

* `ifDigit`, `behind`, `inFront`: choices by the next character, closed under locality.
* `readNumber_local`, `skipNumber_local`, `readWide_local`: numbers of every kind.
-/

namespace Refinement.Json

variable {α : Type} {k j : Nat}

open Scan (Local andThen mapTo)

/-! ## Digits -/

theorem Ends.startsWithDigit_eq {rest : List Char} (h : Ends rest) : startsWithDigit rest = false := by
  cases rest with
  | nil => rfl
  | cons c r => exact not_of_mem_enders (p := Char.isDigit) (by decide) (h c rfl)

theorem startsWithDigit_append {rest : List Char} (h : Ends rest) (cs : List Char) :
    startsWithDigit (cs ++ rest) = startsWithDigit cs := by
  cases cs with
  | nil => exact h.startsWithDigit_eq
  | cons c r => rfl

theorem span_digits_append {rest : List Char} (h : Ends rest) (cs : List Char) :
    (cs ++ rest).takeWhile Char.isDigit = cs.takeWhile Char.isDigit ∧
      (cs ++ rest).dropWhile Char.isDigit = cs.dropWhile Char.isDigit ++ rest := by
  induction cs with
  | nil =>
    have hstart := h.startsWithDigit_eq
    cases rest with
    | nil => exact ⟨rfl, rfl⟩
    | cons c r =>
      have hc : ¬ c.isDigit = true := ne_true_of_eq_false hstart
      exact ⟨List.takeWhile_cons_of_neg hc, List.dropWhile_cons_of_neg hc⟩
  | cons c cs ih =>
    by_cases hc : c.isDigit = true
    · rw [List.cons_append, List.takeWhile_cons_of_pos hc, List.dropWhile_cons_of_pos hc,
        List.takeWhile_cons_of_pos hc, List.dropWhile_cons_of_pos hc, ih.1, ih.2]
      exact ⟨rfl, rfl⟩
    · rw [List.cons_append, List.takeWhile_cons_of_neg hc, List.dropWhile_cons_of_neg hc,
        List.takeWhile_cons_of_neg hc, List.dropWhile_cons_of_neg hc]
      exact ⟨rfl, rfl⟩

/-- Reads digits as far as they go. -/
def digits : Scan (List Char) := fun cs => .ok (cs.takeWhile Char.isDigit, cs.dropWhile Char.isDigit)

theorem digits_local : Local 0 j digits where
  takes := by
    rintro cs v r ⟨⟩
    exact (List.dropWhile_sublist _).length_le
  grows cs rest he := by
    unfold digits
    rw [(span_digits_append he cs).1, (span_digits_append he cs).2]
    exact .read _ _

/-- Goes on with one scan in front of a digit, and with another elsewhere. -/
def ifDigit (s s' : Scan α) : Scan α := fun cs => if startsWithDigit cs then s cs else s' cs

theorem ifDigit_local {s s' : Scan α} (h : Local k j s) (h' : Local k j s') :
    Local k j (ifDigit s s') where
  takes {cs v r} hs := by
    unfold ifDigit at hs
    split at hs
    · exact h.takes hs
    · exact h'.takes hs
  grows cs rest he := by
    unfold ifDigit
    rw [startsWithDigit_append he]
    split
    · exact h.grows _ he
    · exact h'.grows _ he

/-- Goes on with one scan behind the character `c`, and with another in front of all others. -/
def behind (c : Char) (s s' : Scan α) : Scan α
  | [] => s' []
  | d :: r => if d = c then s r else s' (d :: r)

theorem behind_cons (c d : Char) (s s' : Scan α) (r : List Char) :
    behind c s s' (d :: r) = if d = c then s r else s' (d :: r) := rfl

theorem behind_of_ends {c : Char} (hc : c ∉ enders) {rest : List Char} (h : Ends rest)
    (s s' : Scan α) : behind c s s' rest = s' rest := by
  cases rest with
  | nil => rfl
  | cons d r => exact if_neg (h.ne hc)

theorem behind_local {c : Char} (hc : c ∉ enders) {s s' : Scan α}
    (h : Local k j s) (h' : Local k j s') : Local k j (behind c s s') where
  takes {cs v r} hs := by
    cases cs with
    | nil => exact h'.takes hs
    | cons d cs =>
      rw [behind_cons] at hs
      split at hs
      · rw [List.length_cons]
        have := h.takes hs
        omega
      · exact h'.takes hs
  grows cs rest he := by
    cases cs with
    | nil =>
      rw [List.nil_append, behind_of_ends hc he]
      exact h'.grows _ he
    | cons d cs =>
      rw [List.cons_append, behind_cons, behind_cons]
      split
      · exact h.grows _ he
      · exact h'.grows _ he

/-- Gathers digits behind the number `m`: the number, and how many were added. -/
def gathered (m : Nat) : Scan (Nat × Nat) := fun cs =>
  .ok (((gather m cs).1, (gather m cs).2.1), (gather m cs).2.2)

theorem gather_append {rest : List Char} (h : Ends rest) (m : Nat) (cs : List Char) :
    gather m (cs ++ rest) = ((gather m cs).1, (gather m cs).2.1, (gather m cs).2.2 ++ rest) := by
  induction cs generalizing m with
  | nil =>
    have hstart := h.startsWithDigit_eq
    cases rest with
    | nil => rfl
    | cons c r =>
      have hc : c.isDigit = false := hstart
      simp [gather, hc]
  | cons c cs ih =>
    rw [List.cons_append]
    unfold gather
    split
    · rw [ih]
    · rfl

theorem length_gather_le (m : Nat) (cs : List Char) : (gather m cs).2.2.length ≤ cs.length := by
  induction cs generalizing m with
  | nil => exact Nat.le_refl 0
  | cons c cs ih =>
    unfold gather
    split
    · exact Nat.le_succ_of_le (ih _)
    · exact Nat.le_refl _

theorem gathered_local (m : Nat) : Local 0 j (gathered m) where
  takes := by
    rintro cs v r ⟨⟩
    exact length_gather_le m cs
  grows cs rest he := by
    unfold gathered
    rw [gather_append he]
    exact .read _ _

/-- Comes to a value, or to a fault, wherever it is. -/
def yield (x : Except Fault α) : Scan α := fun r => (·, r) <$> x

theorem yield_local (x : Except Fault α) : Local 0 j (yield x) := by
  cases x with
  | error e => exact .fail _ _ e
  | ok v => exact .pure _ v

/-! ## Numbers -/

theorem readExponentSign_local : Local 0 j fun cs => .ok (readExponentSign cs) := by
  have heq : (fun cs => .ok (readExponentSign cs) : Scan Bool) =
      behind '+' (fun r => .ok (false, r))
        (behind '-' (fun r => .ok (true, r)) fun r => .ok (false, r)) := by
    funext cs
    cases cs with
    | nil => rfl
    | cons c r =>
      by_cases hp : c = '+' <;> by_cases hm : c = '-' <;>
        simp [readExponentSign, behind_cons, hp, hm]
  rw [heq]
  exact behind_local (by decide) (.pure _ _)
    (behind_local (by decide) (.pure _ _) (.pure _ _))

/-- There is no digit where one has to be. -/
def noDigit : Scan α := fun r => .error (if r.isEmpty then .truncated else .malformed)

theorem noDigit_local : Local k j (noDigit : Scan α) where
  takes := nofun
  grows cs rest _ := by
    cases cs with
    | nil => exact .short nofun
    | cons c r => exact .fault _

/-- Reads the digits of an exponent behind its sign. -/
def exponentDigits (negative : Bool) (m : Nat) (e : Int) (down : Bool) : Scan Number :=
  ifDigit
    (andThen digits fun ds =>
      if exponentLimit < Text.decimalValue ds then
        if m ≠ 0 ∧ down = false then fun _ => .error .malformed
        else fun r => .ok (.float (BinaryFloat.ofMagnitude negative 0), r)
      else yield (ofDecimal negative m
        (if down then e - Text.decimalValue ds else e + Text.decimalValue ds)))
    noDigit

theorem exponentDigits_local (negative : Bool) (m : Nat) (e : Int) (down : Bool) :
    Local 0 1 (exponentDigits negative m e down) := by
  refine ifDigit_local (digits_local.chain fun ds => ?_) noDigit_local
  split
  · split
    · exact .fail _ _ _
    · exact .pure _ _
  · exact yield_local _

theorem readExponent_eq (negative : Bool) (m : Nat) (e : Int) :
    readExponent negative m e =
      andThen (fun cs => .ok (readExponentSign cs)) (exponentDigits negative m e) := by
  funext cs
  unfold readExponent andThen
  show _ = exponentDigits negative m e (readExponentSign cs).1 (readExponentSign cs).2
  obtain ⟨down, r⟩ := readExponentSign cs
  cases r with
  | nil => rfl
  | cons c r =>
    simp only [exponentDigits, ifDigit, startsWithDigit]
    split
    · show _ = (if _ then _ else _ : Scan Number) _
      split
      · split <;> rfl
      · rfl
    · rfl

theorem readExponent_local (negative : Bool) (m : Nat) (e : Int) :
    Local 0 1 (readExponent negative m e) := by
  rw [readExponent_eq]
  exact readExponentSign_local.chain
    (fun down => exponentDigits_local negative m e down)

theorem finishFloat_eq (negative : Bool) (m : Nat) (e : Int) :
    finishFloat negative m e = behind 'e' (readExponent negative m e)
      (behind 'E' (readExponent negative m e) (yield (ofDecimal negative m e))) := by
  funext cs
  cases cs with
  | nil => rfl
  | cons c r =>
    by_cases h : c = 'e' <;> by_cases h' : c = 'E' <;>
      simp [finishFloat, behind_cons, yield, h, h']

theorem finishFloat_local (negative : Bool) (m : Nat) (e : Int) :
    Local 0 1 (finishFloat negative m e) := by
  rw [finishFloat_eq]
  exact behind_local (by decide) (readExponent_local negative m e)
    (behind_local (by decide) (readExponent_local negative m e) (yield_local _))

theorem readFraction_eq (negative : Bool) (m : Nat) (e : Int) :
    readFraction negative m e = andThen (gathered m) fun x =>
      ifDigit (andThen digits fun _ => finishFloat negative x.1 (e - x.2))
        (if x.2 = 0 then noDigit else finishFloat negative x.1 (e - x.2)) := by
  funext cs
  rw [Scan.andThen_of_ok (show gathered m cs = .ok (_, (gather m cs).2.2) from rfl)]
  unfold readFraction ifDigit
  generalize gather m cs = x
  obtain ⟨x, k, r⟩ := x
  dsimp only
  split
  · rfl
  split <;> rfl

theorem readFraction_local (negative : Bool) (m : Nat) (e : Int) :
    Local 0 1 (readFraction negative m e) := by
  rw [readFraction_eq]
  refine (gathered_local m).chain (fun x => ifDigit_local ?_ ?_)
  · exact digits_local.chain (fun _ => finishFloat_local _ _ _)
  · split
    · exact noDigit_local
    · exact finishFloat_local _ _ _

theorem finishWhole_eq (negative : Bool) (m : Nat) :
    finishWhole negative m = behind '.' (readFraction negative m 0)
      (behind 'e' (readExponent negative m 0)
        (behind 'E' (readExponent negative m 0) fun r => .ok (wholeNumber negative m, r))) := by
  funext cs
  cases cs with
  | nil => rfl
  | cons c r =>
    by_cases h : c = '.' <;> by_cases h' : c = 'e' <;> by_cases h'' : c = 'E' <;>
      simp [finishWhole, behind_cons, h, h', h'']

theorem finishWhole_local (negative : Bool) (m : Nat) : Local 0 1 (finishWhole negative m) := by
  rw [finishWhole_eq]
  exact behind_local (by decide) (readFraction_local negative m 0)
    (behind_local (by decide) (readExponent_local negative m 0)
      (behind_local (by decide) (readExponent_local negative m 0) (.pure _ _)))

/-- Reads what follows the first digit of a number, if it is not zero. -/
def afterDigit (negative : Bool) (d : Nat) : Scan Number :=
  andThen (gathered d) fun x =>
    ifDigit
      (andThen digits fun ds =>
        behind '.' (readFraction negative x.1 ds.length) (finishFloat negative x.1 ds.length))
      (finishWhole negative x.1)

theorem digitValue_le {c : Char} (h : c.isDigit = true) : Text.digitValue c ≤ 9 := by
  unfold Char.isDigit at h
  simp only [Bool.and_eq_true, decide_eq_true_eq] at h
  have hle : c.val.toNat ≤ 57 := h.2
  show c.val.toNat - 48 ≤ 9
  omega

theorem gather_cons {c : Char} (h : c.isDigit = true) (r : List Char) :
    gather 0 (c :: r) = ((gather (Text.digitValue c) r).1,
      (gather (Text.digitValue c) r).2.1 + 1, (gather (Text.digitValue c) r).2.2) := by
  have hle := digitValue_le h
  have hlimit : 9 ≤ gatherLimit := by decide
  have hfits : (c.isDigit && decide (0 * 10 + Text.digitValue c ≤ gatherLimit)) = true := by
    rw [h, Bool.true_and, decide_eq_true_eq]
    omega
  rw [gather, if_pos hfits, Nat.zero_mul, Nat.zero_add]

theorem readNumber_eq (negative : Bool) : readNumber negative = andThen next fun c =>
    if c = '0' then ifDigit (fun _ => .error .malformed) (finishWhole negative 0)
    else if c.isDigit then afterDigit negative (Text.digitValue c)
    else fun _ => .error .malformed := by
  funext cs
  cases cs with
  | nil => rfl
  | cons c r =>
    rw [Scan.andThen_of_ok (next_cons c r)]
    by_cases h0 : c = '0'
    · subst h0
      rfl
    by_cases hc : c.isDigit = true
    · simp only [readNumber, if_neg h0, if_pos hc, gather_cons hc]
      unfold afterDigit
      rw [Scan.andThen_of_ok
        (show gathered (Text.digitValue c) r = .ok (_, (gather (Text.digitValue c) r).2.2) from rfl)]
      generalize (gather (Text.digitValue c) r).2.2 = r'
      unfold ifDigit
      split
      · rw [Scan.andThen_of_ok (show digits r' = .ok (_, r'.dropWhile Char.isDigit) from rfl)]
        cases r'.dropWhile Char.isDigit with
        | nil => rfl
        | cons d r'' => by_cases hd : d = '.' <;> simp [behind_cons, hd]
      · rfl
    · simp only [readNumber, if_neg h0, if_neg hc]

theorem readNumber_local (negative : Bool) : Local 1 1 (readNumber negative) := by
  rw [readNumber_eq]
  refine next_local.follow fun c => ?_
  split
  · exact ifDigit_local (.fail _ _ _) (finishWhole_local _ _)
  split
  · refine (gathered_local _).chain (fun x => ifDigit_local ?_ ?_)
    · refine digits_local.chain (fun ds => ?_)
      exact behind_local (by decide) (readFraction_local _ _ _) (finishFloat_local _ _ _)
    · exact finishWhole_local _ _
  · exact .fail _ _ _

/-! ## Skipped numbers -/

theorem skipExponent_eq : skipExponent = andThen (fun cs => .ok (readExponentSign cs)) fun _ =>
    ifDigit (mapTo (fun _ => ()) digits) fun _ => .error .malformed := rfl

theorem skipExponent_local : Local 0 1 skipExponent := by
  rw [skipExponent_eq]
  refine readExponentSign_local.chain (fun _ => ?_)
  exact ifDigit_local (digits_local.mapTo _) (.fail _ _ _)

theorem skipTail_eq :
    skipTail = behind 'e' skipExponent (behind 'E' skipExponent fun r => .ok ((), r)) := by
  funext cs
  cases cs with
  | nil => rfl
  | cons c r =>
    by_cases h : c = 'e' <;> by_cases h' : c = 'E' <;> simp [skipTail, behind_cons, h, h']

theorem skipTail_local : Local 0 1 skipTail := by
  rw [skipTail_eq]
  exact behind_local (by decide) skipExponent_local
    (behind_local (by decide) skipExponent_local (.pure _ _))

theorem skipFraction_eq : skipFraction = behind '.'
    (ifDigit (andThen digits fun _ => skipTail) fun _ => .error .malformed) skipTail := by
  funext cs
  cases cs with
  | nil => rfl
  | cons c r =>
    by_cases h : c = '.'
    · subst h
      rfl
    · simp [skipFraction, behind_cons, h]

theorem skipFraction_local : Local 0 1 skipFraction := by
  rw [skipFraction_eq]
  refine behind_local (by decide) (ifDigit_local ?_ (.fail _ _ _)) skipTail_local
  exact digits_local.chain (fun _ => skipTail_local)

/-- Goes on in front of a character of some kind; the end of the text is none either. -/
def inFront (p : Char → Bool) (s : Scan α) : Scan α
  | [] => .error .malformed
  | c :: r => if p c then s (c :: r) else .error .malformed

theorem inFront_cons (p : Char → Bool) (s : Scan α) (c : Char) (r : List Char) :
    inFront p s (c :: r) = if p c then s (c :: r) else .error .malformed := rfl

theorem inFront_local {p : Char → Bool} (hp : enders.all (fun c => !p c) = true) {s : Scan α}
    (h : Local k j s) : Local k j (inFront p s) where
  takes {cs v r} hs := by
    cases cs with
    | nil => cases hs
    | cons c cs =>
      rw [inFront_cons] at hs
      split at hs
      · exact h.takes hs
      · cases hs
  grows cs rest he := by
    cases cs with
    | nil =>
      have hfail : inFront p s rest = .error .malformed := by
        cases rest with
        | nil => rfl
        | cons c r => exact if_neg (ne_true_of_eq_false (not_of_mem_enders hp (he c rfl)))
      rw [List.nil_append, hfail]
      exact .fault _
    | cons c cs =>
      rw [List.cons_append, inFront_cons, inFront_cons]
      split
      · exact h.grows _ he
      · exact .fault _

/-- Reads a character of some kind. -/
def want (p : Char → Bool) : Scan Char := inFront p next

theorem want_cons (p : Char → Bool) (c : Char) (r : List Char) :
    want p (c :: r) = if p c then .ok (c, r) else .error .malformed := rfl

theorem want_local {p : Char → Bool} (hp : enders.all (fun c => !p c) = true) :
    Local 1 1 (want p) :=
  inFront_local hp next_local

theorem digit_local : Local 1 1 (want Char.isDigit) := want_local (by decide)

theorem skipNumber_eq : skipNumber = andThen (want Char.isDigit) fun c =>
    if c = '0' then ifDigit (fun _ => .error .malformed) skipFraction
    else andThen digits fun _ => skipFraction := by
  funext cs
  cases cs with
  | nil => rfl
  | cons c r =>
    by_cases h0 : c = '0'
    · subst h0
      rfl
    by_cases hc : c.isDigit = true
    · simp only [skipNumber, if_neg h0, if_pos hc]
      rw [Scan.andThen_of_ok (show want Char.isDigit (c :: r) = .ok (c, r) from if_pos hc), if_neg h0]
      rfl
    · simp only [skipNumber, if_neg h0, if_neg hc]
      unfold andThen
      rw [want_cons, if_neg hc]
      rfl

theorem skipNumber_local : Local 1 1 skipNumber := by
  rw [skipNumber_eq]
  refine digit_local.follow fun c => ?_
  split
  · exact ifDigit_local (.fail _ _ _) skipFraction_local
  · exact digits_local.chain (fun _ => skipFraction_local)

/-! ## Wide integers -/

theorem readDigits_eq : readDigits = andThen (want Char.isDigit) fun c =>
    if c = '0' then ifDigit (fun _ => .error .malformed) fun r => .ok (0, r)
    else mapTo (fun ds => Text.decimalValue (c :: ds)) digits := by
  funext cs
  cases cs with
  | nil => rfl
  | cons c r =>
    by_cases h0 : c = '0'
    · subst h0
      rfl
    by_cases hc : c.isDigit = true
    · simp only [readDigits, if_neg h0, if_pos hc]
      rw [Scan.andThen_of_ok (show want Char.isDigit (c :: r) = .ok (c, r) from if_pos hc), if_neg h0]
      rfl
    · simp only [readDigits, if_neg h0, if_neg hc]
      unfold andThen
      rw [want_cons, if_neg hc]
      rfl

theorem readDigits_local : Local 1 1 readDigits := by
  rw [readDigits_eq]
  refine digit_local.follow fun c => ?_
  split
  · exact ifDigit_local (.fail _ _ _) (.pure _ _)
  · exact digits_local.mapTo _

theorem readSigned_eq (signed : Bool) : readSigned signed =
    behind '-'
      (if signed then mapTo (fun m : Nat => -(m : Int)) readDigits else fun _ => .error .malformed)
      (mapTo (fun m : Nat => (m : Int)) readDigits) := by
  funext cs
  cases cs with
  | nil => rfl
  | cons c r =>
    by_cases h : c = '-'
    · subst h
      cases signed <;> rfl
    · rw [behind_cons, if_neg h]
      unfold readSigned
      split
      · next hc => exact absurd (List.cons.inj hc).1 h
      · rfl

theorem readSigned_local (signed : Bool) : Local 1 1 (readSigned signed) := by
  rw [readSigned_eq]
  refine behind_local (by decide) ?_ (readDigits_local.mapTo _)
  split
  · exact readDigits_local.mapTo _
  · exact .fail _ _ _

theorem readWide_eq (kind : IntKind) : readWide kind = andThen (readSigned kind.signed) fun m =>
    match kind.ofInt? m with
    | some v => fun r => .ok (v, r)
    | none => fun _ => .error .malformed := by
  funext cs
  show readSigned kind.signed cs >>= _ = readSigned kind.signed cs >>= _
  congr 1
  funext ⟨m, r⟩
  dsimp only
  cases kind.ofInt? m <;> rfl

theorem readWide_local (kind : IntKind) : Local 1 1 (readWide kind) := by
  rw [readWide_eq]
  refine (readSigned_local _).follow fun m => ?_
  cases kind.ofInt? m with
  | some v => exact .pure _ _
  | none => exact .fail _ _ _

end Refinement.Json
