import Refinement.Proofs.Grammar.Reading

/-!
# Complete numbers and texts last

A reader finds that a text ends too early only where it still wants something. So a number that has all
its digits, and a text that has its closing quotation mark, last for the readers of numbers and texts,
whatever these make of them.

* `Scan.Lasts`: what a scan does not run out of, and what it leaves.
* `Grammar.Cut`: where a number wants a digit.
* `readNumber_lasts`, `readText_lasts`: numbers and texts.
-/

namespace Refinement.Json

open Grammar
open Scan (Takes andThen mapTo)

variable {α β : Type} {u w r cs : List Char}

/-! ## Scans that last -/

/-- The outcome is not that the text ended too early. What is left with a value is as `Q` says. -/
def Lasting (Q : α → List Char → Prop) : Except Fault (α × List Char) → Prop
  | .ok (v, r) => Q v r
  | .error f => f ≠ .truncated

/-- A scan does not run out of the texts of some kind, and leaves texts of another kind, which may
depend on the value that it comes to. -/
def Scan.Lasts (P : List Char → Prop) (s : Scan α) (Q : α → List Char → Prop) : Prop :=
  ∀ ⦃cs⦄, P cs → Lasting Q (s cs)

theorem Lasting.ne {Q : α → List Char → Prop} {x : Except Fault (α × List Char)} (h : Lasting Q x) :
    x ≠ .error .truncated := by
  rintro rfl
  exact h rfl

theorem Lasting.imp {Q Q' : α → List Char → Prop} {x : Except Fault (α × List Char)}
    (h : Lasting Q x) (hq : ∀ v r, x = .ok (v, r) → Q v r → Q' v r) : Lasting Q' x := by
  obtain f | ⟨v, r⟩ := x
  · exact h
  · exact hq v r rfl h

theorem Lasting.mapTo {Q : α → List Char → Prop} {R : β → List Char → Prop} {s : Scan α}
    (h : Lasting Q (s cs)) {f : α → β} (hf : ∀ v r, Q v r → R (f v) r) :
    Lasting R (s.mapTo f cs) := by
  unfold Scan.mapTo
  cases hx : s cs with
  | error e =>
    rw [hx] at h
    exact h
  | ok x =>
    rw [hx] at h
    exact hf x.1 x.2 h

namespace Scan.Lasts

variable {P P' : List Char → Prop} {Q Q' : α → List Char → Prop} {R : β → List Char → Prop}
  {s s' : Scan α}

theorem imp (h : Lasts P s Q) (hp : ∀ cs, P' cs → P cs) (hq : ∀ v r, Q v r → Q' v r) :
    Lasts P' s Q' :=
  fun cs hcs => (h (hp cs hcs)).imp fun v r _ => hq v r

/-- What is left may be told from what is taken. -/
theorem leaves (h : Lasts P s Q) (hq : ∀ cs v r, P cs → s cs = .ok (v, r) → Q' v r) :
    Lasts P s Q' :=
  fun cs hcs => (h hcs).imp fun v r hs _ => hq cs v r hcs hs

theorem pure {v : α} (h : ∀ cs, P cs → Q v cs) : Lasts P (fun r => .ok (v, r)) Q := h

theorem fail {f : Fault} (hf : f ≠ .truncated) : Lasts P (fun _ => .error f) Q := fun _ _ => hf

theorem andThen (h : Lasts P s Q) {f : α → Scan β} (hf : ∀ v, Lasts (Q v) (f v) R) :
    Lasts P (s.andThen f) R := by
  intro cs hcs
  have hs := h hcs
  unfold Scan.andThen
  cases hx : s cs with
  | error f =>
    rw [hx] at hs
    exact hs
  | ok x =>
    rw [hx] at hs
    exact hf x.1 hs

theorem mapTo (h : Lasts P s Q) {f : α → β} (hf : ∀ v r, Q v r → R (f v) r) :
    Lasts P (s.mapTo f) R :=
  fun _ hcs => (h hcs).mapTo hf

theorem ifDigit (h : Lasts (fun cs => P cs ∧ startsWithDigit cs = true) s Q)
    (h' : Lasts (fun cs => P cs ∧ startsWithDigit cs = false) s' Q) :
    Lasts P (ifDigit s s') Q := by
  intro cs hcs
  unfold Json.ifDigit
  split
  · next hd => exact h ⟨hcs, hd⟩
  · next hd => exact h' ⟨hcs, Bool.eq_false_iff.2 hd⟩

theorem behind {c : Char} (h : Lasts (fun r => P (c :: r)) s Q) (h' : Lasts P s' Q) :
    Lasts P (behind c s s') Q := by
  intro cs hcs
  cases cs with
  | nil => exact h' hcs
  | cons d cs =>
    rw [behind_cons]
    split
    · next hd =>
      rw [hd] at hcs
      exact h hcs
    · exact h' hcs

theorem next (h : ¬ P []) : Lasts P Json.next fun c r => P (c :: r) := by
  intro cs hcs
  cases cs with
  | nil => exact absurd hcs h
  | cons c r => exact hcs

theorem want {p : Char → Bool} : Lasts P (want p) fun c r => P (c :: r) ∧ p c = true := by
  intro cs hcs
  cases cs with
  | nil => nofun
  | cons c r =>
    rw [want_cons]
    split
    · next hc => exact ⟨hcs, hc⟩
    · nofun

/-- What goes on in front of some characters lasts where it does so from there. -/
theorem inFront {p : Char → Bool} (h : Lasts (fun cs => P cs ∧ ∃ c r, cs = c :: r ∧ p c = true) s Q) :
    Lasts P (inFront p s) Q := by
  intro cs hcs
  cases cs with
  | nil => nofun
  | cons c r =>
    rw [inFront_cons]
    split
    · next hc => exact h ⟨hcs, c, r, rfl, hc⟩
    · nofun

/-- What begins behind blanks. -/
theorem front {W : List Char → Prop} {f : Char → Scan α}
    (hp : ∀ cs, P cs → ∃ c r, skipBlanks cs = c :: r ∧ W (c :: r))
    (hf : ∀ c, Lasts (fun r => W (c :: r)) (f c) Q) : Lasts P (Scan.andThen Json.front f) Q := by
  intro cs hcs
  obtain ⟨c, r, hskip, hc⟩ := hp cs hcs
  rw [Scan.andThen_of_ok (front_of_cons hskip)]
  exact hf c hc

end Scan.Lasts

/-! ## Numbers -/

/-- Whether a character may stand in a number. -/
def isNumeric (c : Char) : Bool := c.isDigit || ['+', '-', '.', 'e', 'E'].contains c

/-- What a number is if it ends where a digit is wanted. -/
structure Grammar.Cut (w : List Char) : Prop where
  /-- All characters may stand in numbers. -/
  numeric : ∀ c ∈ w, isNumeric c = true
  /-- The last one is no digit. -/
  last : ∀ c ∈ w.getLast?, c.isDigit = false

/-- What is not cut if a digit stands in front of it. -/
def Grammar.Closed (w : List Char) : Prop := Cut w → w = []

theorem Grammar.Cut.nil : Cut [] := ⟨nofun, nofun⟩

theorem Grammar.Cut.cons {c : Char} (hc : isNumeric c = true) (hd : c.isDigit = false) (h : Cut w) :
    Cut (c :: w) := by
  refine ⟨List.forall_mem_cons.2 ⟨hc, h.numeric⟩, ?_⟩
  cases w with
  | nil =>
    rintro d ⟨⟩
    exact hd
  | cons d w => exact h.last

theorem Grammar.Cut.behind {ds : List Char} (hds : ∀ d ∈ ds, d.isDigit = true) (h : Cut w)
    (hw : w ≠ []) : Cut (ds ++ w) := by
  refine ⟨List.forall_mem_append.2 ⟨fun d hd => ?_, h.numeric⟩, ?_⟩
  · unfold isNumeric
    rw [hds d hd, Bool.true_or]
  · rw [List.getLast?_append, List.getLast?_eq_some_getLast hw, Option.some_or,
      ← List.getLast?_eq_some_getLast hw]
    exact h.last

/-- Behind digits a text may be cut, but need not be. -/
theorem Grammar.Closed.of_behind {ds : List Char} (hds : ∀ d ∈ ds, d.isDigit = true)
    (h : Closed (ds ++ w)) : Closed w := by
  intro hw
  refine Decidable.byContradiction fun hne => ?_
  exact hne (List.append_eq_nil_iff.1 (h (hw.behind hds hne))).2

theorem Grammar.Closed.of_not_cut (h : ¬ Cut w) : Closed w := fun hw => absurd hw h

theorem Grammar.Closed.not_cut {c : Char} (h : Closed (c :: w)) (hc : isNumeric c = true)
    (hd : c.isDigit = false) : ¬ Cut w :=
  fun hw => List.cons_ne_nil _ _ (h (hw.cons hc hd))

theorem digits_lasts {P : List Char → Prop} {Q : List Char → List Char → Prop}
    (h : ∀ ds r, (∀ d ∈ ds, d.isDigit = true) → P (ds ++ r) → Q ds r) :
    Scan.Lasts P digits Q := by
  intro cs hcs
  obtain ⟨w, hw, rfl, hds⟩ := digits_takes (show digits cs = .ok (_, _) from rfl)
  rw [hw] at hcs
  exact h _ _ hds hcs

theorem gathered_lasts {P : List Char → Prop} {Q : Nat × Nat → List Char → Prop} (m : Nat)
    (h : ∀ x ds r, (∀ d ∈ ds, d.isDigit = true) → ds.length = x.2 → P (ds ++ r) → Q x r) :
    Scan.Lasts P (gathered m) Q := by
  intro cs hcs
  obtain ⟨w, hw, hds, hlen⟩ := gathered_takes m (show gathered m cs = .ok (_, _) from rfl)
  rw [hw] at hcs
  exact h _ w _ hds hlen hcs

theorem yield_lasts {P : List Char → Prop} {x : Except Fault α} (h : x ≠ .error .truncated) :
    Scan.Lasts P (yield x) fun _ _ => True := by
  cases x with
  | error f => exact .fail fun hf => h (congrArg Except.error hf)
  | ok v => exact .pure fun _ _ => trivial

theorem noDigit_lasts : Scan.Lasts (· ≠ []) (noDigit : Scan α) fun _ _ => True := by
  intro cs hcs
  cases cs with
  | nil => exact absurd rfl hcs
  | cons c r => nofun

theorem ofDecimal_ne_truncated (negative : Bool) (m : Nat) (e : Int) :
    ofDecimal negative m e ≠ .error .truncated := by
  unfold ofDecimal
  dsimp only
  split
  · nofun
  split
  · nofun
  split
  · nofun
  split <;> nofun

theorem readExponentSign_lasts : Scan.Lasts (fun cs => ¬ Cut cs)
    (fun cs => .ok (readExponentSign cs)) fun _ r => r ≠ [] := by
  have hcut : ∀ w ∈ [[], ['+'], ['-']], Cut w := by
    simp only [List.forall_mem_cons]
    exact ⟨.nil, .cons rfl rfl .nil, .cons rfl rfl .nil, nofun⟩
  intro cs hcs hnil
  have hok : Except.ok (readExponentSign cs) = Except.ok (ε := Fault) (readExponentSign cs) := rfl
  obtain ⟨sign, hsign, hmem⟩ := readExponentSign_takes hok
  rw [hnil, List.append_nil] at hsign
  exact hcs (hsign ▸ hcut sign hmem)

theorem readExponent_lasts (negative : Bool) (m : Nat) (e : Int) :
    Scan.Lasts (fun cs => ¬ Cut cs) (readExponent negative m e) fun _ _ => True := by
  rw [readExponent_eq]
  refine readExponentSign_lasts.andThen fun down => ?_
  refine .ifDigit (.andThen (Q := fun _ _ => True) (digits_lasts fun _ _ _ _ => trivial) fun ds => ?_)
    (noDigit_lasts.imp (fun _ h => h.1) fun _ _ h => h)
  split
  · split
    · exact .fail nofun
    · exact .pure fun _ _ => trivial
  · exact yield_lasts (ofDecimal_ne_truncated _ _ _)

theorem finishFloat_lasts (negative : Bool) (m : Nat) (e : Int) :
    Scan.Lasts Closed (finishFloat negative m e) fun _ _ => True := by
  have hexponent {c : Char} (hc : isNumeric c = true) (hd : c.isDigit = false) :=
    (readExponent_lasts negative m e).imp (fun cs (h : Closed (c :: cs)) => h.not_cut hc hd)
      fun _ _ h => h
  rw [finishFloat_eq]
  refine .behind (hexponent rfl rfl) (.behind (hexponent rfl rfl) ?_)
  exact yield_lasts (ofDecimal_ne_truncated negative m e)

theorem readFraction_lasts (negative : Bool) (m : Nat) (e : Int) :
    Scan.Lasts (fun cs => ¬ Cut cs) (readFraction negative m e) fun _ _ => True := by
  rw [readFraction_eq]
  refine Scan.Lasts.andThen (Q := fun x r => Closed r ∧ (x.2 = 0 → r ≠ []))
    (gathered_lasts m fun x ds r hds hlen hcs => ⟨?_, fun hx hr => ?_⟩) fun x => ?_
  · exact (Closed.of_not_cut hcs).of_behind hds
  · rw [hr, List.length_eq_zero_iff.1 (hlen.trans hx)] at hcs
    exact hcs .nil
  · refine .ifDigit (.andThen (digits_lasts fun ds r hds hcs => ?_)
      fun _ => finishFloat_lasts negative x.1 (e - x.2)) ?_
    · exact hcs.1.1.of_behind hds
    · split
      · next hx => exact noDigit_lasts.imp (fun cs h => h.1.2 hx) fun _ _ h => h
      · exact (finishFloat_lasts _ _ _).imp (fun cs h => h.1.1) fun _ _ h => h

theorem finishWhole_lasts (negative : Bool) (m : Nat) :
    Scan.Lasts Closed (finishWhole negative m) fun _ _ => True := by
  have hexponent {c : Char} (hc : isNumeric c = true) (hd : c.isDigit = false) :=
    (readExponent_lasts negative m 0).imp (fun cs (h : Closed (c :: cs)) => h.not_cut hc hd)
      fun _ _ h => h
  rw [finishWhole_eq]
  refine .behind ?_ (.behind (hexponent rfl rfl) (.behind (hexponent rfl rfl) ?_))
  · exact (readFraction_lasts negative m 0).imp (fun cs h => h.not_cut rfl rfl) fun _ _ h => h
  · exact .pure fun _ _ => trivial

/-- A number that is not cut lasts. -/
theorem readNumber_lasts (negative : Bool) :
    Scan.Lasts (fun cs => ¬ Cut cs) (readNumber negative) fun _ _ => True := by
  -- behind the first digit the number may end
  have hclosed {c : Char} {cs : List Char} (hd : c.isDigit = true) (h : ¬ Cut (c :: cs)) :
      Closed cs := by
    have hwhole : Closed ([c] ++ cs) := .of_not_cut h
    exact hwhole.of_behind (List.forall_mem_singleton.2 hd)
  rw [readNumber_eq]
  refine Scan.Lasts.andThen (.next (not_not_intro .nil)) fun c => ?_
  split
  · next h0 =>
    refine .ifDigit (.fail nofun) ((finishWhole_lasts negative 0).imp (fun cs h => ?_) fun _ _ h => h)
    exact hclosed (by rw [h0]; rfl) h.1
  split
  · next hc =>
    refine Scan.Lasts.andThen (Q := fun _ => Closed) (gathered_lasts _ fun x ds r hds _ hcs => ?_)
      fun x => .ifDigit (.andThen (Q := fun _ => Closed) (digits_lasts fun ds r hds hcs => ?_)
        fun ds => .behind ?_ (finishFloat_lasts _ _ _)) ?_
    · exact (hclosed hc hcs).of_behind hds
    · exact hcs.1.of_behind hds
    · exact (readFraction_lasts _ _ _).imp (fun cs h => h.not_cut rfl rfl) fun _ _ h => h
    · exact (finishWhole_lasts _ _).imp (fun cs h => h.1) fun _ _ h => h
  · exact .fail nofun

/-- The last character of a number is a digit. -/
theorem Grammar.Unsigned.last_isDigit (h : Unsigned w) : ∃ w' d, w = w' ++ [d] ∧ d.isDigit = true := by
  have hbehind {u w : List Char} : (∃ w' d, w = w' ++ [d] ∧ d.isDigit = true) →
      ∃ w' d, u ++ w = w' ++ [d] ∧ d.isDigit = true := by
    rintro ⟨w', d, rfl, hd⟩
    exact ⟨u ++ w', d, (List.append_assoc _ _ _).symm, hd⟩
  have hdigits {ds : List Char} (hd : Digits ds) : ∃ w' d, ds = w' ++ [d] ∧ d.isDigit = true :=
    ⟨ds.dropLast, ds.getLast hd.ne_nil, (List.dropLast_concat_getLast hd.ne_nil).symm,
      hd.isDigit _ (List.getLast_mem hd.ne_nil)⟩
  obtain ⟨hi, hf, he⟩ := h
  cases he with
  | @digits e _ _ hs =>
    obtain ⟨_, hd⟩ := hs
    exact hbehind (hbehind (hbehind (u := [e]) (hbehind (hdigits hd))))
  | none =>
    rw [List.append_nil]
    cases hf with
    | digits hd => exact hbehind (hbehind (u := ['.']) (hdigits hd))
    | none =>
      rw [List.append_nil]
      cases hi with
      | zero => exact ⟨[], '0', rfl, rfl⟩
      | digits _ hd => exact hdigits hd

theorem Grammar.Unsigned.not_cut (h : Unsigned w) (hr : Ends r) : ¬ Cut (w ++ r) := by
  intro hcut
  cases r with
  | nil =>
    obtain ⟨w', d, rfl, hd⟩ := h.last_isDigit
    have hlast := hcut.last d (by simp)
    rw [hd] at hlast
    cases hlast
  | cons c r =>
    have hc := hcut.numeric c (List.mem_append_right w List.mem_cons_self)
    rw [not_of_mem_enders (p := isNumeric) (by decide) (hr c rfl)] at hc
    cases hc

/-! ## Texts -/

/-- A text of the kind `W`, and behind it one of the kind `R`. -/
inductive Grammar.Before (W R : List Char → Prop) : List Char → Prop where
  | mk {w r : List Char} : W w → R r → Before W R (w ++ r)

theorem Grammar.Before.imp {W W' R R' : List Char → Prop} (hw : ∀ w, W w → W' w)
    (hr : ∀ r, R r → R' r) : ∀ cs, Before W R cs → Before W' R' cs
  | _, ⟨h, h'⟩ => ⟨hw _ h, hr _ h'⟩

section Texts

variable {R : List Char → Prop}

theorem Grammar.Before.quoted_cases (h : Before Quoted R cs) :
    (∃ r, cs = '"' :: r ∧ R r) ∨ ∃ w r, cs = w ++ r ∧ Item w ∧ Before Quoted R r := by
  obtain ⟨hq, hr⟩ := h
  cases hq with
  | close => exact .inl ⟨_, rfl, hr⟩
  | item hi hq => exact .inr ⟨_, _, List.append_assoc _ _ _, hi, hq, hr⟩

theorem Grammar.Item.fourHexDigits_eq (h : Item ('\\' :: 'u' :: w)) (r : List Char) :
    ∃ n, fourHexDigits (w ++ r) = .ok (n, r) := by
  cases h with
  | escape hc => exact absurd hc (by decide)
  | codePoint hx => exact fourHexDigits_complete hx r

/-- The second half of a surrogate pair, if it is one. -/
theorem secondHalf_lasts (n : Nat) :
    Scan.Lasts (Before Quoted R) (secondHalf n) fun _ => Before Quoted R := by
  intro cs h
  rcases h.quoted_cases with ⟨r, rfl, -⟩ | ⟨w, r, rfl, hw, hr⟩
  · exact Fault.noConfusion
  · cases hw with
    | @plain c hq hb hc =>
      show Lasting _ ((if c = '\\' then _ else _ : Scan Char) r)
      rw [if_neg hb]
      nofun
    | @escape c hc =>
      have hu : c ≠ 'u' := by
        rintro rfl
        exact absurd hc (by decide)
      show Lasting _ ((if c = 'u' then _ else _ : Scan Char) r)
      rw [if_neg hu]
      nofun
    | codePoint hx =>
      obtain ⟨m, hm⟩ := (Item.codePoint hx).fourHexDigits_eq r
      unfold secondHalf
      rw [List.cons_append, Scan.andThen_of_ok (next_cons _ _), if_pos rfl, List.cons_append,
        Scan.andThen_of_ok (next_cons _ _), if_pos rfl, Scan.andThen_of_ok hm]
      split
      · exact hr
      · nofun

/-- Four digits of a code point, and another such item if they are the first half of a pair. -/
theorem readCodePoint_lasts {w : List Char} (hw : Item ('\\' :: 'u' :: w))
    (hr : Before Quoted R r) : Lasting (fun _ => Before Quoted R) (readCodePoint (w ++ r)) := by
  obtain ⟨n, hn⟩ := hw.fourHexDigits_eq r
  rw [readCodePoint_eq, Scan.andThen_of_ok hn]
  split
  · nofun
  split
  · exact secondHalf_lasts n hr
  · exact hr

theorem readTextItem_lasts : Scan.Lasts (Before Quoted R) readTextItem
    fun c? r => if c?.isSome then Before Quoted R r else R r := by
  rw [readTextItem_eq]
  intro cs h
  rcases h.quoted_cases with ⟨r, rfl, hr⟩ | ⟨w, r, rfl, hw, hr⟩
  · exact hr
  · cases hw with
    | @plain c hq hb hc =>
      show Lasting _ ((if c = '"' then _ else _ : Scan (Option Char)) r)
      rw [if_neg hq, if_neg hb, if_neg (Nat.not_lt.2 hc)]
      exact hr
    | @escape c hc =>
      have hu : c ≠ 'u' := by
        rintro rfl
        exact absurd hc (by decide)
      obtain ⟨e, he⟩ := Option.isSome_iff_exists.1 ((isSome_escaped? c).2 hc)
      show Lasting _ ((if c = 'u' then _ else _ : Scan (Option Char)) r)
      rw [if_neg hu, he]
      exact hr
    | codePoint hx =>
      exact (readCodePoint_lasts (.codePoint hx) hr).mapTo (f := some) fun _ _ h => h

/-- A text with its closing quotation mark lasts, and is read up to there. -/
theorem readText_lasts : Scan.Lasts (Before Quoted R) readText fun _ => R := by
  suffices hall : ∀ fuel, Scan.Lasts (fun cs => Before Quoted R cs ∧ cs.length < fuel)
      (readTextItems fuel) fun _ => R from
    fun cs h => hall _ ⟨h, Nat.lt_succ_self _⟩
  intro fuel
  induction fuel with
  | zero => exact fun cs h => absurd h.2 (Nat.not_lt_zero _)
  | succ fuel ih =>
    rw [readTextItems_succ]
    refine Scan.Lasts.andThen
      (Q := fun c? r => if c?.isSome then Before Quoted R r ∧ r.length < fuel else R r)
      (fun cs h => (readTextItem_lasts h.1).imp fun c? r hs hr => ?_) fun c? => ?_
    · have := readTextItem_local.takes hs
      cases c? with
      | none => exact hr
      | some c => exact ⟨hr, by have := h.2; omega⟩
    · cases c? with
      | none => exact .pure fun _ h => h
      | some c => exact ih.mapTo fun _ _ h => h

end Texts

end Refinement.Json
