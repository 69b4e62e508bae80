import Refinement.Proofs.Grammar.Basic
import Refinement.Proofs.RoundTrip.Numbers

/-!
# Numbers and texts of the grammar

What is read or skipped as a number or as a text is one of the grammar. The other way round, the
grammar has nothing that is not skipped; numbers have to be followed by something that ends them.

* `readNumber_takes`, `skipNumber_takes`: numbers that are read or skipped.
* `readText_takes`, `skipText_takes`: texts that are read or skipped.
* `skipNumber_complete`, `skipText_complete`: numbers and texts of the grammar.
-/

namespace Refinement.Json

open Grammar
open Scan (Takes andThen mapTo)

variable {α β : Type} {w r : List Char}

/-! ## Digits -/

/-- Digits, or none. -/
theorem digits_takes : Takes (fun ds w => w = ds ∧ ∀ d ∈ w, d.isDigit = true) digits := by
  rintro cs ds r ⟨⟩
  exact ⟨_, List.takeWhile_append_dropWhile.symm, rfl, List.all_eq_true.1 List.all_takeWhile⟩

/-- In front of a digit there is one. -/
theorem ifDigit_digits_takes {p : α → List Char → Prop} {q : List Char → α → List Char → Prop}
    {f : List Char → Scan α} {s : Scan α} (hf : ∀ ds, Takes (q ds) (f ds)) (hs : Takes p s)
    (hq : ∀ {v ds w}, Digits ds → q ds v w → p v (ds ++ w)) :
    Takes p (ifDigit (andThen digits f) s) := by
  intro cs b r h
  unfold ifDigit at h
  split at h
  · next hstart =>
    obtain ⟨⟨ds, r'⟩, hds, hb⟩ := exists_of_bind_ok h
    obtain ⟨w, hr, hw⟩ := hf ds hb
    cases hds
    refine ⟨cs.takeWhile Char.isDigit ++ w, ?_, hq ⟨?_, List.all_eq_true.1 List.all_takeWhile⟩ hw⟩
    · rw [List.append_assoc]
      exact List.takeWhile_append_dropWhile.symm.trans (congrArg (_ ++ ·) hr)
    · cases cs with
      | nil => cases hstart
      | cons c cs =>
        rw [List.takeWhile_cons_of_pos (p := Char.isDigit) hstart]
        exact List.cons_ne_nil _ _
  · exact hs h

/-- Digits that are gathered, and how many. -/
theorem gathered_takes (m : Nat) : Takes (fun x w => (∀ d ∈ w, d.isDigit = true) ∧ w.length = x.2)
    (gathered m) := by
  rintro cs x r ⟨⟩
  induction cs generalizing m with
  | nil => exact ⟨[], rfl, nofun, rfl⟩
  | cons c cs ih =>
    unfold gather
    split
    · next hc =>
      obtain ⟨w, hcs, hw, hlen⟩ := ih _
      rw [Bool.and_eq_true] at hc
      refine ⟨c :: w, congrArg (c :: ·) hcs, List.forall_mem_cons.2 ⟨hc.1, hw⟩, ?_⟩
      rw [List.length_cons, hlen]
    · exact ⟨[], rfl, nofun, rfl⟩

/-! ## Numbers -/

theorem readExponentSign_takes : Takes (fun _ w => w ∈ [[], ['+'], ['-']])
    fun cs => .ok (readExponentSign cs) := by
  intro cs b r h
  have h := Except.ok.inj h
  unfold readExponentSign at h
  split at h
  · cases h
    exact ⟨['+'], rfl, by decide⟩
  · cases h
    exact ⟨['-'], rfl, by decide⟩
  · cases h
    exact ⟨[], rfl, by decide⟩

/-- The digits of an exponent behind its sign. -/
theorem signed_takes {f : Bool → List Char → Scan α} {s : Scan α}
    (hf : ∀ b ds, Takes (fun _ w => w = []) (f b ds)) (hs : Takes (fun _ => Digits) s) :
    Takes (fun _ => Signed) (andThen (fun cs => .ok (readExponentSign cs)) fun b =>
      ifDigit (andThen digits (f b)) s) := by
  refine readExponentSign_takes.andThen (q := fun _ _ => Digits) (fun b => ?_) .mk
  refine ifDigit_digits_takes (hf b) hs ?_
  rintro v ds _ hd rfl
  rwa [List.append_nil]

/-- An exponent behind the other parts of a number. -/
theorem exponent_takes {s s' : Scan α} (h : Takes (fun _ => Signed) s)
    (h' : Takes (fun _ w => w = []) s') :
    Takes (fun _ => Exponent) (behind 'e' s (behind 'E' s s')) := by
  refine .behind (h.imp (.digits (by decide))) (.behind (h.imp (.digits (by decide))) ?_)
  exact h'.imp fun h => h ▸ .none

theorem yield_takes (x : Except Fault α) : Takes (fun _ w => w = []) (yield x) := by
  cases x with
  | error e => nofun
  | ok v => exact .pure rfl

theorem noDigit_takes {p : α → List Char → Prop} : Takes p noDigit := nofun

theorem readExponent_takes (negative : Bool) (m : Nat) (e : Int) :
    Takes (fun _ => Signed) (readExponent negative m e) := by
  rw [readExponent_eq]
  refine signed_takes (fun down ds => ?_) noDigit_takes
  split
  · split
    · exact .fail _
    · exact .pure rfl
  · exact yield_takes _

theorem finishFloat_takes (negative : Bool) (m : Nat) (e : Int) :
    Takes (fun _ => Exponent) (finishFloat negative m e) := by
  rw [finishFloat_eq]
  exact exponent_takes (readExponent_takes negative m e) (yield_takes _)

/-- What may stand behind the whole digits of a number. -/
inductive Grammar.Rest : List Char → Prop where
  | mk {f e : List Char} : Fraction f → Exponent e → Rest (f ++ e)

theorem Grammar.Exponent.rest (h : Exponent w) : Rest w := .mk .none h

/-- The digits of a fraction, and what may stand behind them. -/
theorem Grammar.Digits.rest {ds : List Char} (hd : Digits ds) (h : Exponent w) :
    Rest ('.' :: (ds ++ w)) := .mk (.digits hd) h

theorem Grammar.Whole.unsigned {i : List Char} (hi : Whole i) (h : Rest w) : Unsigned (i ++ w) := by
  obtain ⟨hf, he⟩ := h
  exact ⟨hi, hf, he⟩

theorem readFraction_takes (negative : Bool) (m : Nat) (e : Int) :
    Takes (fun _ w => Rest ('.' :: w)) (readFraction negative m e) := by
  rw [readFraction_eq]
  refine (gathered_takes m).andThen (q := fun x _ w => ∃ ds e, w = ds ++ e ∧
    (∀ d ∈ ds, d.isDigit = true) ∧ (x.2 = 0 → ds ≠ []) ∧ Exponent e) (fun x => ?_) ?_
  · refine ifDigit_digits_takes (fun ds => finishFloat_takes negative x.1 (e - x.2)) ?_
      fun hd he => ⟨_, _, rfl, hd.isDigit, fun _ => hd.ne_nil, he⟩
    split
    · exact noDigit_takes
    · next hx =>
      exact (finishFloat_takes _ _ _).imp fun he => ⟨[], _, rfl, nofun, fun h => absurd h hx, he⟩
  · rintro x v w _ ⟨hw, hlen⟩ ⟨ds, e, rfl, hds, hne, he⟩
    rw [← List.append_assoc]
    refine Digits.rest ⟨fun hnil => ?_, List.forall_mem_append.2 ⟨hw, hds⟩⟩ he
    obtain ⟨rfl, rfl⟩ := List.append_eq_nil_iff.1 hnil
    exact hne hlen.symm rfl

theorem finishWhole_takes (negative : Bool) (m : Nat) :
    Takes (fun _ => Rest) (finishWhole negative m) := by
  rw [finishWhole_eq]
  refine .behind (readFraction_takes negative m 0) ?_
  exact (exponent_takes (readExponent_takes negative m 0) (.pure rfl)).imp Exponent.rest

/-- What is read as a number is one of the grammar. -/
theorem readNumber_takes (negative : Bool) : Takes (fun _ => Unsigned) (readNumber negative) := by
  rw [readNumber_eq]
  refine Scan.Takes.next.andThen (q := fun c _ w => Unsigned (c :: w)) (fun c => ?_) ?_
  · split
    · next h0 =>
      rw [h0]
      exact .ifDigit (.fail _) ((finishWhole_takes _ _).imp Whole.zero.unsigned)
    split
    · next h0 hc =>
      refine (gathered_takes _).andThen (q := fun x _ w => ∃ ds e, w = ds ++ e ∧
        (∀ d ∈ ds, d.isDigit = true) ∧ Rest e) (fun x => ?_) ?_
      · refine ifDigit_digits_takes (q := fun _ _ => Rest) (fun ds => ?_) ?_
          fun hd he => ⟨_, _, rfl, hd.isDigit, he⟩
        · exact .behind (readFraction_takes _ _ _) ((finishFloat_takes _ _ _).imp Exponent.rest)
        · exact (finishWhole_takes _ _).imp fun h => ⟨[], _, rfl, nofun, h⟩
      · rintro x v w _ ⟨hw, -⟩ ⟨ds, e, rfl, hds, he⟩
        rw [← List.append_assoc, ← List.cons_append]
        refine Whole.unsigned (.digits h0 ⟨List.cons_ne_nil _ _, ?_⟩) he
        exact List.forall_mem_cons.2 ⟨hc, List.forall_mem_append.2 ⟨hw, hds⟩⟩
    · exact .fail _
  · rintro c v _ w rfl hw
    exact hw

/-! ## Skipped numbers -/

theorem skipExponent_takes : Takes (fun _ => Signed) skipExponent :=
  signed_takes (f := fun _ _ r => .ok ((), r)) (s := fun _ => .error .malformed)
    (fun _ _ => .pure rfl) (.fail _)

theorem skipTail_takes : Takes (fun _ => Exponent) skipTail := by
  rw [skipTail_eq]
  exact exponent_takes skipExponent_takes (.pure rfl)

theorem skipFraction_takes : Takes (fun _ => Rest) skipFraction := by
  rw [skipFraction_eq]
  refine .behind ?_ (skipTail_takes.imp Exponent.rest)
  exact ifDigit_digits_takes (fun _ => skipTail_takes) (.fail _) Digits.rest

/-- What is skipped as a number is one of the grammar. -/
theorem skipNumber_takes : Takes (fun _ => Unsigned) skipNumber := by
  rw [skipNumber_eq]
  refine (Scan.Takes.want Char.isDigit).andThen
    (q := fun c _ w => c.isDigit = true → Unsigned (c :: w)) (fun c => ?_) ?_
  · split
    · next h0 =>
      rw [h0]
      exact .ifDigit (.fail _) (skipFraction_takes.imp fun hw _ => Whole.zero.unsigned hw)
    · next h0 =>
      refine digits_takes.andThen (fun _ => skipFraction_takes) ?_
      rintro ds v w w' ⟨-, hw⟩ hw' hc
      exact Whole.unsigned (.digits h0 ⟨List.cons_ne_nil _ _, List.forall_mem_cons.2 ⟨hc, hw⟩⟩) hw'
  · rintro c v _ w ⟨rfl, hc⟩ hw
    exact hw hc

/-! ## Wide integers -/

theorem readDigits_takes : Takes (fun _ => Unsigned) readDigits := by
  have whole {i : List Char} (h : Whole i) : Unsigned i := by
    have := h.unsigned (.mk .none .none)
    rwa [List.append_nil, List.append_nil] at this
  rw [readDigits_eq]
  refine (Scan.Takes.want Char.isDigit).andThen
    (q := fun c _ w => c.isDigit = true → Unsigned (c :: w)) (fun c => ?_) ?_
  · split
    · next h0 =>
      rw [h0]
      exact .ifDigit (.fail _) (.pure fun _ => whole .zero)
    · next h0 =>
      refine digits_takes.mapTo ?_
      rintro ds w ⟨-, hw⟩ hc
      exact whole (.digits h0 ⟨List.cons_ne_nil _ _, List.forall_mem_cons.2 ⟨hc, hw⟩⟩)
  · rintro c v _ w ⟨rfl, hc⟩ hw
    exact hw hc

theorem readSigned_takes (signed : Bool) : Takes (fun _ => Numeral) (readSigned signed) := by
  rw [readSigned_eq]
  refine .behind ?_ (readDigits_takes.mapTo .plain)
  split
  · exact readDigits_takes.mapTo .negative
  · exact .fail _

theorem readWide_takes (kind : IntKind) : Takes (fun _ => Numeral) (readWide kind) := by
  rw [readWide_eq]
  refine (readSigned_takes _).close fun m => ?_
  cases kind.ofInt? m with
  | some v => exact .pure rfl
  | none => exact .fail _

/-! ## Numbers are skipped -/

theorem Grammar.Digits.span {ds : List Char} (h : Digits ds) (hr : startsWithDigit r = false) :
    startsWithDigit (ds ++ r) = true ∧ (ds ++ r).dropWhile Char.isDigit = r := by
  refine ⟨?_, (takeWhile_digits h.isDigit hr).2⟩
  cases ds with
  | nil => exact absurd rfl h.ne_nil
  | cons d ds => exact h.isDigit d List.mem_cons_self

theorem readExponentSign_append {sign : List Char} (hs : sign ∈ [[], ['+'], ['-']])
    (h : Digits w) (r : List Char) : (readExponentSign (sign ++ (w ++ r))).2 = w ++ r := by
  simp only [List.mem_cons, List.not_mem_nil, or_false] at hs
  rcases hs with rfl | rfl | rfl
  · cases w with
    | nil => exact absurd rfl h.ne_nil
    | cons c w =>
      have hc := h.isDigit c List.mem_cons_self
      have hplus : c ≠ '+' := by
        rintro rfl
        cases hc
      have hminus : c ≠ '-' := by
        rintro rfl
        cases hc
      simp [readExponentSign, hplus, hminus]
  · rfl
  · rfl

theorem skipExponent_complete (h : Signed w) (hr : startsWithDigit r = false) :
    skipExponent (w ++ r) = .ok ((), r) := by
  obtain ⟨hs, hd⟩ := h
  obtain ⟨hstart, hdrop⟩ := hd.span hr
  rw [List.append_assoc]
  show (if startsWithDigit (readExponentSign _).2 then _ else _) = _
  rw [readExponentSign_append hs hd, hstart, if_pos rfl, hdrop]

theorem skipTail_complete (h : Exponent w) (hr : Ends r) : skipTail (w ++ r) = .ok ((), r) := by
  rw [skipTail_eq]
  cases h with
  | none => rw [List.nil_append, behind_of_ends (by decide) hr, behind_of_ends (by decide) hr]
  | digits he hd =>
    have hskip := skipExponent_complete hd hr.startsWithDigit_eq
    simp only [List.mem_cons, List.not_mem_nil, or_false] at he
    rcases he with rfl | rfl
    · exact hskip
    · exact hskip

theorem Grammar.Exponent.startsWithDigit_append (h : Exponent w) (hr : Ends r) :
    startsWithDigit (w ++ r) = false := by
  cases h with
  | none => exact hr.startsWithDigit_eq
  | digits he =>
    simp only [List.mem_cons, List.not_mem_nil, or_false] at he
    rcases he with rfl | rfl <;> rfl

theorem Grammar.Exponent.skipFraction_eq (h : Exponent w) (hr : Ends r) :
    skipFraction (w ++ r) = skipTail (w ++ r) := by
  rw [Json.skipFraction_eq]
  cases h with
  | none => exact behind_of_ends (by decide) hr _ _
  | digits he =>
    simp only [List.mem_cons, List.not_mem_nil, or_false] at he
    rcases he with rfl | rfl <;> rfl

theorem skipFraction_complete {f e : List Char} (hf : Fraction f) (he : Exponent e) (hr : Ends r) :
    skipFraction (f ++ (e ++ r)) = .ok ((), r) := by
  cases hf with
  | none =>
    rw [List.nil_append, he.skipFraction_eq hr]
    exact skipTail_complete he hr
  | @digits ds hd =>
    obtain ⟨hstart, hdrop⟩ := hd.span (he.startsWithDigit_append hr)
    show (if startsWithDigit (ds ++ (e ++ r)) then
      skipTail ((ds ++ (e ++ r)).dropWhile Char.isDigit) else _) = _
    rw [hstart, if_pos rfl, hdrop]
    exact skipTail_complete he hr

theorem Grammar.Fraction.startsWithDigit_append {f e : List Char} (hf : Fraction f)
    (he : Exponent e) (hr : Ends r) : startsWithDigit (f ++ (e ++ r)) = false := by
  cases hf with
  | none => exact he.startsWithDigit_append hr
  | digits => rfl

/-- A number of the grammar is skipped. -/
theorem skipNumber_complete (h : Unsigned w) (hr : Ends r) :
    skipNumber (w ++ r) = .ok ((), r) := by
  obtain @⟨i, f, e, hi, hf, he⟩ := h
  have hstart := hf.startsWithDigit_append he hr
  have hskip := skipFraction_complete hf he hr
  rw [List.append_assoc, List.append_assoc]
  cases hi with
  | zero =>
    show (if startsWithDigit (f ++ (e ++ r)) then _ else skipFraction (f ++ (e ++ r))) = _
    rw [hstart]
    exact hskip
  | @digits c ds h0 hd =>
    have hc := hd.isDigit c List.mem_cons_self
    have hdrop : (ds ++ (f ++ (e ++ r))).dropWhile Char.isDigit = f ++ (e ++ r) := by
      have := (hd.span hstart).2
      rwa [List.cons_append, List.dropWhile_cons_of_pos hc] at this
    simp only [List.cons_append, skipNumber, if_neg h0, if_pos hc, hdrop, hskip]

/-! ## Texts -/

/-- Characters of a text, and the closing quotation mark if there are no more. -/
def Grammar.Items (more : Bool) (w : List Char) : Prop :=
  if more then ∀ w', Quoted w' → Quoted (w ++ w') else w = ['"']

theorem Grammar.Item.items (h : Item w) : Items true w := fun _ => .item h

theorem Grammar.Items.quoted {more : Bool} {w' : List Char} (h : Items more w)
    (h' : if more then Quoted w' else w' = []) : Quoted (w ++ w') := by
  cases more with
  | true => exact h w' h'
  | false =>
    cases h
    cases h'
    exact .close

theorem isSome_hexValue? (ds : List Char) : (Text.hexValue? ds).isSome = true ↔
    ∀ x ∈ ds, (Text.hexDigitValue? x).isSome = true := by
  unfold Text.hexValue?
  generalize 0 = m
  induction ds generalizing m with
  | nil => simp
  | cons d ds ih =>
    rw [List.foldlM_cons, List.forall_mem_cons]
    cases Text.hexDigitValue? d with
    | none => simp
    | some k => simpa using ih (16 * m + k)

theorem fourHexDigits_takes : Takes (fun _ w => Item ('\\' :: 'u' :: w)) fourHexDigits := by
  intro cs n r h
  unfold fourHexDigits at h
  split at h
  · next a b c d _ =>
    split at h
    · next hv =>
      cases h
      exact ⟨[a, b, c, d], rfl, .codePoint ((isSome_hexValue? _).1 (by rw [hv]; rfl))⟩
    · cases h
  · cases h

/-- The two halves of a surrogate pair are two items. -/
theorem readCodePoint_takes : Takes (fun _ w => Items true ('\\' :: 'u' :: w)) readCodePoint := by
  rw [readCodePoint_eq]
  refine fourHexDigits_takes.andThen (q := fun _ _ w => w = [] ∨ Item w) (fun n => ?_) ?_
  · split
    · exact .fail _
    split
    · refine Scan.Takes.next.andThen (q := fun c _ w => Item (c :: w)) (fun c => ?_) ?_
      · split
        · next hc =>
          rw [hc]
          refine Scan.Takes.next.andThen (q := fun d _ w => Item ('\\' :: d :: w)) (fun d => ?_) ?_
          · split
            · next hd =>
              rw [hd]
              exact fourHexDigits_takes.close fun m => .ite (.pure rfl) (.fail _)
            · exact .fail _
          · rintro d v _ w rfl hw
            exact hw
        · exact .fail _
      · rintro c v _ w rfl hw
        exact .inr hw
    · exact .pure (.inl rfl)
  · rintro n v w w' hw (rfl | hw') q hq
    · rw [List.append_nil]
      exact .item hw hq
    · rw [← List.cons_append, ← List.cons_append, List.append_assoc]
      exact .item hw (.item hw' hq)

theorem isSome_escaped? (c : Char) :
    (escaped? c).isSome = true ↔ c ∈ ['"', '\\', '/', 'b', 'f', 'n', 'r', 't'] := by
  unfold escaped?
  split <;> simp_all

/-- A character of a text. What stands behind a backslash is read by `s` for code points, and by `e` for
others; `p` stands for characters that stand for themselves, and `z` for the closing quotation mark. -/
theorem items_takes {f : α → Bool} {s : Scan α} {e : Char → Scan α} {p : Char → α} {z : α}
    (hcode : Takes (fun v w => Items (f v) ('\\' :: 'u' :: w)) s)
    (hescape : ∀ d, Takes (fun v w => Items (f v) ('\\' :: d :: w)) (e d))
    (hplain : ∀ c, f (p c) = true) (hclose : f z = false) :
    Takes (fun v => Items (f v)) (andThen next fun c =>
      if c = '"' then fun r => .ok (z, r)
      else if c = '\\' then andThen next fun d => if d = 'u' then s else e d
      else if c.toNat < 32 then fun _ => .error .malformed
      else fun r => .ok (p c, r)) := by
  refine Scan.Takes.next.andThen (q := fun c v w => Items (f v) (c :: w)) (fun c => ?_) ?_
  · split
    · next hc =>
      refine .pure ?_
      rw [hclose, hc]
      rfl
    split
    · next hc =>
      rw [hc]
      refine Scan.Takes.next.andThen (q := fun d v w => Items (f v) ('\\' :: d :: w)) (fun d => ?_) ?_
      · split
        · next hd =>
          rw [hd]
          exact hcode
        · exact hescape d
      · rintro d v _ w rfl hw
        exact hw
    split
    · exact .fail _
    · next hq hb hc =>
      refine .pure ?_
      rw [hplain]
      exact (Item.plain hq hb (Nat.not_lt.1 hc)).items
  · rintro c v _ w rfl hw
    exact hw

theorem readTextItem_takes : Takes (fun c? => Items c?.isSome) readTextItem := by
  rw [readTextItem_eq]
  refine items_takes (f := Option.isSome) (s := mapTo some readCodePoint) (p := some) (z := none)
    (readCodePoint_takes.mapTo id) (fun d => ?_) (fun _ => rfl) rfl
  cases h : escaped? d with
  | none => exact .fail _
  | some e => exact .pure (Item.escape ((isSome_escaped? d).1 (by rw [h]; rfl))).items

theorem skipTextItem_takes : Takes Items skipTextItem := by
  rw [skipTextItem_eq]
  refine items_takes (f := id) (s := mapTo (fun _ => true) fourHexDigits)
    (e := fun d => if (escaped? d).isSome then fun r => .ok (true, r)
      else fun _ => .error .malformed) (p := fun _ => true) (z := false)
    (fourHexDigits_takes.mapTo Item.items) (fun d => ?_) (fun _ => rfl) rfl
  split
  · next h => exact .pure (Item.escape ((isSome_escaped? d).1 h)).items
  · exact .fail _

/-- What is read as a text is one of the grammar. -/
theorem readText_takes : Takes (fun _ => Quoted) readText := by
  suffices hall : ∀ fuel, Takes (fun _ => Quoted) (readTextItems fuel) from fun _ _ _ h => hall _ h
  intro fuel
  induction fuel with
  | zero => exact .fail _
  | succ fuel ih =>
    rw [readTextItems_succ]
    refine readTextItem_takes.andThen
      (q := fun c? _ w => if c?.isSome then Quoted w else w = []) (fun c? => ?_) Items.quoted
    cases c? with
    | none => exact .pure rfl
    | some c => exact ih.mapTo id

/-- What is skipped as a text is one of the grammar. -/
theorem skipText_takes : Takes (fun _ => Quoted) skipText := by
  suffices hall : ∀ fuel, Takes (fun _ => Quoted) (skipTextItems fuel) from fun _ _ _ h => hall _ h
  intro fuel
  induction fuel with
  | zero => exact .fail _
  | succ fuel ih =>
    rw [skipTextItems_succ]
    refine skipTextItem_takes.andThen
      (q := fun more _ w => if more then Quoted w else w = []) (fun more => ?_) Items.quoted
    split
    · exact ih.imp id
    · exact .pure rfl

/-! ## Texts are skipped -/

theorem fourHexDigits_complete {a b c d : Char}
    (h : ∀ x ∈ [a, b, c, d], (Text.hexDigitValue? x).isSome = true) (r : List Char) :
    ∃ n, fourHexDigits (a :: b :: c :: d :: r) = .ok (n, r) := by
  obtain ⟨n, hn⟩ := Option.isSome_iff_exists.1 ((isSome_hexValue? _).2 h)
  exact ⟨n, by simp only [fourHexDigits, hn]⟩

/-- A character of the grammar is skipped. -/
theorem Grammar.Item.skipTextItem_eq (h : Item w) (r : List Char) :
    skipTextItem (w ++ r) = .ok (true, r) := by
  rw [Json.skipTextItem_eq]
  cases h with
  | @plain c hq hb hc =>
    show (if c = '"' then _ else _ : Scan Bool) r = _
    rw [if_neg hq, if_neg hb, if_neg (Nat.not_lt.2 hc)]
  | @escape c hc =>
    have hu : c ≠ 'u' := by
      rintro rfl
      exact absurd hc (by decide)
    show (if c = 'u' then _ else _ : Scan Bool) r = _
    rw [if_neg hu, if_pos ((isSome_escaped? c).2 hc)]
  | codePoint hx =>
    obtain ⟨n, hn⟩ := fourHexDigits_complete hx r
    exact Scan.mapTo_of_ok hn fun _ => true

/-- A text of the grammar is skipped. -/
theorem skipText_complete (h : Quoted w) (r : List Char) : skipText (w ++ r) = .ok ((), r) := by
  induction h with
  | close =>
    rw [skipText_eq]
    rfl
  | item hi _ ih =>
    rw [skipText_eq, List.append_assoc, Scan.andThen_of_ok (hi.skipTextItem_eq _)]
    exact ih

end Refinement.Json
