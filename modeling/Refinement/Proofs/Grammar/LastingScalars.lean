import Refinement.Proofs.Grammar.LastingWords

/-!
# Complete scalars last

Readers of scalars run out of text only where what stands in front of it does not show what it is:
where it is a word, a number or a text that is cut. Names of members are read up to their closing
quotation mark, whatever stands in them.

* `Grammar.Evident`: what stands in front of a text shows what it is.
* `readScalar_lasts`: scalars.
* `readScalarName_lasts`: scalars that stand as names.
-/

namespace Refinement.Json

open Grammar
open Scan (Lasts andThen mapTo)

variable {α β : Type} {w r cs : List Char} {R : List Char → Prop}

/-! ## What is found -/

/-- What stands in front of a text shows what it is, to its end. -/
def Grammar.Evident (cs : List Char) : Prop := found cs ≠ .error .truncated

theorem map_ne_truncated {f : α → β} {x : Except Fault α} :
    f <$> x ≠ .error .truncated ↔ x ≠ .error .truncated := by
  cases x with
  | error e => exact ⟨fun h hx => h (by rw [hx]; rfl), fun h hx => h (by cases hx; rfl)⟩
  | ok v => exact ⟨nofun, nofun⟩

theorem Lasting.of_ne {x : Except Fault (α × List Char)} (h : x ≠ .error .truncated) :
    Lasting (fun _ _ => True) x := by
  cases x with
  | error f => exact fun hf => h (congrArg Except.error hf)
  | ok v => trivial

theorem Grammar.Evident.wrongKind_ne (h : Evident cs) (expected : String) :
    wrongKind expected cs ≠ .truncated := by
  unfold wrongKind
  cases hf : found cs with
  | ok u => nofun
  | error f =>
    rintro rfl
    exact h hf

theorem wrongKind_lasts (expected : String) (c : Char) : Lasts (fun r => Evident (c :: r))
    (fun r => (.error (wrongKind expected (c :: r)) : Except Fault (α × List Char)))
    fun _ _ => True :=
  fun _ h => h.wrongKind_ne expected

/-- A number is found by its first digit. -/
theorem found_of_isDigit {c : Char} (hc : c.isDigit = true) (r : List Char) :
    found (c :: r) = (fun x => x.1.unexpected) <$> readNumber false (c :: r) := by
  have hne {d : Char} (hd : d.isDigit = false) : c ≠ d := by
    rintro rfl
    rw [hc] at hd
    cases hd
  rw [found_eq, foundThere, Scan.andThen_of_ok (next_cons c r), if_neg (hne rfl), if_neg (hne rfl),
    if_neg (hne rfl), if_neg (hne rfl), if_neg (hne rfl), if_neg (hne rfl), if_neg (hne rfl),
    if_pos hc]
  exact fst_mapTo _ _ _

/-- What begins behind blanks lasts where it does so in front of what is evident. -/
theorem evident_lasts {f : Char → Scan α}
    (hf : ∀ c, Lasts (fun r => Evident (c :: r)) (f c) fun _ _ => True) :
    Lasts (fun cs => Evident (skipBlanks cs)) (andThen front f) fun _ _ => True := by
  refine .front (W := Evident) (fun cs h => ?_) hf
  cases hcs : skipBlanks cs with
  | nil =>
    rw [hcs] at h
    exact absurd rfl h
  | cons c r => exact ⟨c, r, rfl, hcs ▸ h⟩

/-! ## Scalars -/

theorem readAnyNumber_lasts (expected : String) :
    Lasts (fun cs => Evident (skipBlanks cs)) (readAnyNumber expected) fun _ _ => True := by
  rw [readAnyNumber_eq]
  refine evident_lasts fun c => ?_
  split
  · next hc =>
    rw [hc]
    exact fun r h => .of_ne (map_ne_truncated.1 h)
  split
  · next hc =>
    intro r h
    rw [Evident, found_of_isDigit hc] at h
    exact .of_ne (map_ne_truncated.1 h)
  · exact wrongKind_lasts _ c

theorem readDigits_lasts : Lasts (fun _ => True) readDigits fun _ _ => True := by
  rw [readDigits_eq]
  refine Lasts.andThen (Q := fun _ _ => True) (Lasts.want.imp (fun _ h => h) fun _ _ _ => trivial)
    fun c => ?_
  split
  · exact .ifDigit (.fail nofun) (.pure fun _ _ => trivial)
  · exact (digits_lasts (P := fun _ => True) (Q := fun _ _ => True) fun _ _ _ _ => trivial).mapTo
      fun _ _ _ => trivial

/-- Integers of 128 bits are malformed where they are cut. -/
theorem readWide_lasts (kind : IntKind) :
    Lasts (fun _ => True) (readWide kind) fun _ _ => True := by
  have hsigned : Lasts (fun _ => True) (readSigned kind.signed) fun _ _ => True := by
    rw [readSigned_eq]
    refine .behind ?_ (readDigits_lasts.mapTo fun _ _ _ => trivial)
    split
    · exact readDigits_lasts.mapTo fun _ _ _ => trivial
    · exact .fail nofun
  rw [readWide_eq]
  refine hsigned.andThen fun m => ?_
  cases kind.ofInt? m with
  | some v => exact .pure fun _ _ => trivial
  | none => exact .fail nofun

theorem readInteger_lasts (kind : IntKind) :
    Lasts (fun cs => Evident (skipBlanks cs)) (readInteger kind) fun _ _ => True := by
  rw [readInteger_eq]
  split
  · exact evident_lasts fun c r _ => readWide_lasts kind trivial
  · refine (readAnyNumber_lasts _).andThen fun x => ?_
    cases x with
    | float x => exact .fail nofun
    | integer m =>
      dsimp only
      cases kind.ofInt? m with
      | some v => exact .pure fun _ _ => trivial
      | none => exact .fail nofun

theorem readFloat_lasts (f : FloatFormat) :
    Lasts (fun cs => Evident (skipBlanks cs)) (readFloat f) fun _ _ => True := by
  rw [readFloat_eq]
  exact (readAnyNumber_lasts _).mapTo fun _ _ _ => trivial

theorem readBool_lasts :
    Lasts (fun cs => Evident (skipBlanks cs)) readBool fun _ _ => True := by
  rw [readBool_eq]
  refine evident_lasts fun c => ?_
  split
  · next hc =>
    rw [hc]
    exact fun r h => (Lasting.of_ne (map_ne_truncated.1 h)).mapTo fun _ _ _ => trivial
  split
  · next hc =>
    rw [hc]
    exact fun r h => (Lasting.of_ne (map_ne_truncated.1 h)).mapTo fun _ _ _ => trivial
  · exact wrongKind_lasts _ c

theorem readNull_lasts (expected : String) :
    Lasts (fun cs => Evident (skipBlanks cs)) (readNull expected) fun _ _ => True := by
  rw [readNull_eq]
  refine evident_lasts fun c => ?_
  split
  · next hc =>
    rw [hc]
    exact fun r h => .of_ne (map_ne_truncated.1 h)
  · exact wrongKind_lasts _ c

theorem readString_lasts (expected : String) :
    Lasts (fun cs => Evident (skipBlanks cs)) (readString expected) fun _ _ => True := by
  rw [readString_eq]
  refine evident_lasts fun c => ?_
  split
  · next hc =>
    rw [hc]
    exact fun r h => .of_ne (map_ne_truncated.1 h)
  · exact wrongKind_lasts _ c

theorem readChar_lasts :
    Lasts (fun cs => Evident (skipBlanks cs)) readChar fun _ _ => True := by
  rw [readChar_eq]
  refine (readString_lasts _).andThen fun s => ?_
  match s with
  | [c] => exact .pure fun _ _ => trivial
  | [] => exact .fail nofun
  | _ :: _ :: _ => exact .fail nofun

theorem readKey_lasts (k : Key) :
    Lasts (fun cs => Evident (skipBlanks cs)) (readKey k) fun _ _ => True := by
  cases k with
  | int kind => exact readInteger_lasts kind
  | bool => exact readBool_lasts
  | char => exact readChar_lasts
  | text => exact (readString_lasts "a string").mapTo (f := String.ofList) fun _ _ _ => trivial

/-- A scalar is read to its end where what stands there shows what it is. -/
theorem readScalar_lasts : ∀ s : Scalar,
    Lasts (fun cs => Evident (skipBlanks cs)) (readScalar s) fun _ _ => True
  | .key k => readKey_lasts k
  | .float f => readFloat_lasts f
  | .count => readInteger_lasts .usize

/-- A value of the grammar shows what it is. -/
theorem Grammar.Word.evident (h : Word .value w) (hr : Ends r) : Evident (w ++ r) := by
  have hword (ws : List Char) : literal ws (ws ++ r) ≠ .error .truncated := by
    rw [literal_append]
    nofun
  cases h with
  | null => exact map_ne_truncated.2 (hword ['u', 'l', 'l'])
  | truth => exact map_ne_truncated.2 (hword ['r', 'u', 'e'])
  | falsehood => exact map_ne_truncated.2 (hword ['a', 'l', 's', 'e'])
  | number h =>
    cases h with
    | plain h =>
      have hlast := (readNumber_lasts false (h.not_cut hr)).ne
      obtain ⟨c, w, rfl, hc⟩ := h.opens
      rw [Evident, List.cons_append, found_of_isDigit hc]
      exact map_ne_truncated.2 hlast
    | negative h => exact map_ne_truncated.2 (readNumber_lasts true (h.not_cut hr)).ne
  | text h => exact map_ne_truncated.2 (readText_lasts (.mk h hr)).ne
  | empty object => cases object <;> exact nofun
  | group object => cases object <;> exact nofun

/-! ## Names -/

theorem Grammar.Before.quoted {c : Char} (h : Before Name R (c :: r)) :
    c = '"' ∧ Before Quoted R r := by
  generalize hcs : c :: r = cs at h
  obtain ⟨⟨hq⟩, hr⟩ := h
  obtain ⟨rfl, rfl⟩ := List.cons.inj hcs
  exact ⟨rfl, hq, hr⟩

theorem Grammar.Before.exists_cons (h : Before Name R cs) : ∃ r, cs = '"' :: r ∧ Before Quoted R r := by
  obtain ⟨⟨hq⟩, hr⟩ := h
  exact ⟨_, rfl, hq, hr⟩

theorem Grammar.Quoted.mem (h : Quoted w) : '"' ∈ w := by
  induction h with
  | close => exact List.mem_cons_self
  | item _ _ ih => exact List.mem_append_right _ ih

/-- Behind an opening quotation mark there is a closing one. -/
theorem Grammar.Before.mem (h : Before Quoted R cs) : '"' ∈ cs := by
  obtain ⟨hq, -⟩ := h
  exact List.mem_append_left _ hq.mem

/-- No number stands in front of a text with a quotation mark in it that would be cut there. -/
theorem not_cut_of_mem (h : '"' ∈ cs) : ¬ Cut cs := fun hcut => by
  cases hcut.numeric _ h

theorem evident_of_number {c : Char} (hc : (c.isDigit || c = '-') = true) (h : '"' ∈ c :: r) :
    Evident (c :: r) := by
  by_cases hd : c.isDigit = true
  · rw [Evident, found_of_isDigit hd]
    exact map_ne_truncated.2 (readNumber_lasts false (not_cut_of_mem h)).ne
  · obtain rfl : c = '-' := by simpa [hd] using hc
    have hr : '"' ∈ r := (List.mem_cons.1 h).resolve_left (by decide)
    exact map_ne_truncated.2 (readNumber_lasts true (not_cut_of_mem hr)).ne

theorem quote_lasts : Lasts (Before Name R) (want (· == '"')) fun _ => Before Quoted R :=
  Lasts.want.imp (fun _ h => h) fun _ _ h => h.1.quoted.2

theorem readNumberName_lasts {read : Scan α}
    (h : Lasts (fun cs => Evident (skipBlanks cs)) read fun _ _ => True) :
    Lasts (Before Name R) (readNumberName read) fun _ _ => True := by
  rw [readNumberName_eq]
  refine quote_lasts.andThen fun _ => .inFront ?_
  refine (h.imp ?_ fun _ _ hq => hq).andThen fun v => ?_
  · rintro _ ⟨hquoted, c, r, rfl, hc⟩
    have hblank : isBlank c = false := by
      refine Bool.eq_false_iff.2 fun hb => ?_
      unfold isBlank at hb
      simp only [Bool.or_eq_true, beq_iff_eq] at hb
      obtain ((rfl | rfl) | rfl) | rfl := hb
      all_goals exact absurd hc (by decide)
    rw [skipBlanks_of_not_blank hblank]
    exact evident_of_number hc hquoted.mem
  · exact (Lasts.want (P := fun _ => True)).mapTo fun _ _ _ => trivial

/-- A literal that ends with its only `m` lasts in front of a text with an `m` in it. -/
theorem literal_lasts {m : Char} {ws : List Char} (hm : m ∉ ws) :
    Lasts (m ∈ ·) (literal (ws ++ [m])) fun _ _ => True := by
  induction ws with
  | nil =>
    intro cs h
    cases cs with
    | nil => cases h
    | cons c r =>
      show Lasting _ (if c = m then .ok ((), r) else .error .malformed)
      split
      · trivial
      · nofun
  | cons d ws ih =>
    rw [List.mem_cons, not_or] at hm
    intro cs h
    cases cs with
    | nil => cases h
    | cons c r =>
      show Lasting _ (if c = d then literal (ws ++ [m]) r else .error .malformed)
      split
      · next hc => exact ih hm.2 ((List.mem_cons.1 h).resolve_left (hc ▸ hm.1))
      · nofun

theorem readBoolName_lasts : Lasts (Before Name R) readBoolName fun _ _ => True := by
  have hliteral {c : Char} (ws : List Char) (hc : c ≠ '"') (hm : '"' ∉ ws) :
      Lasts (fun r => Before Quoted R (c :: r)) (literal (ws ++ ['"'])) fun _ _ => True :=
    (literal_lasts hm).imp (fun _ h => (List.mem_cons.1 h.mem).resolve_left hc.symm) fun _ _ h => h
  rw [readBoolName_eq]
  refine quote_lasts.andThen fun _ => .behind ?_ (.behind ?_ ?_)
  · exact (hliteral ['r', 'u', 'e'] (by decide) (by decide)).mapTo fun _ _ _ => trivial
  · exact (hliteral ['a', 'l', 's', 'e'] (by decide) (by decide)).mapTo fun _ _ _ => trivial
  · exact readText_lasts.andThen fun s => .fail nofun

theorem Grammar.Before.evident (h : Before Name R cs) : Evident (skipBlanks cs) := by
  obtain ⟨r, rfl, hr⟩ := h.exists_cons
  rw [skipBlanks_of_not_blank (by decide)]
  exact map_ne_truncated.2 (readText_lasts hr).ne

/-- What is read as a name leaves what stands behind its closing quotation mark. -/
theorem Scan.Lasts.ofName {s : Scan α} (h : Lasts (Before Name R) s fun _ _ => True)
    (ht : Scan.Takes (fun _ => Spaced Name) s) : Lasts (Before Name R) s fun _ => R := by
  refine h.leaves ?_
  rintro _ v r ⟨@⟨q, hq⟩, hr⟩ hs
  obtain ⟨_, hw, @⟨u, _, hu, @⟨q', hq'⟩⟩⟩ := ht hs
  -- there are no blanks in front of the quotation mark
  cases u with
  | cons c u =>
    obtain ⟨rfl, -⟩ := List.cons.inj hw
    cases hu _ List.mem_cons_self
  | nil =>
    have hrest : q ++ _ = q' ++ r := (List.cons.inj hw).2
    have hskip := skipText_complete hq' r
    rw [← hrest, skipText_complete hq] at hskip
    cases hskip
    exact hr

theorem readString_lasts_name (expected : String) :
    Lasts (Before Name R) (readString expected) fun _ => R :=
  Lasts.ofName ((readString_lasts expected).imp (fun _ h => h.evident) fun _ _ h => h)
    (readString_takes expected)

/-- A scalar that stands as a name is read up to its closing quotation mark. -/
theorem readScalarName_lasts (s : Scalar) : Lasts (Before Name R) (readScalarName s) fun _ => R := by
  refine Lasts.ofName ?_ (readScalarName_takes s)
  match s with
  | .key (.int kind) => exact readNumberName_lasts (readInteger_lasts kind)
  | .key .bool => exact readBoolName_lasts
  | .key .char => exact readChar_lasts.imp (fun _ h => h.evident) fun _ _ h => h
  | .key .text => exact (readKey_lasts .text).imp (fun _ h => h.evident) fun _ _ h => h
  | .float f => exact readNumberName_lasts (readFloat_lasts f)
  | .count => exact readNumberName_lasts (readInteger_lasts .usize)

end Refinement.Json
