import Refinement.Proofs.Grammar.Words
import Refinement.Proofs.Locality.Values

/-!
# Skipped values are those of the grammar

A value is skipped if and only if it is a word of the grammar, whatever its kind and however deep it
is. The items that follow the first one of an array are skipped if and only if they are words with
commas between them, up to the closing bracket.

* `skipValue_takes`, `Grammar.Word.isSkipped`: single values.
* `nextOf_closing`, `nextOf_part`: whether another part of an object or array follows.
* `skipItems_sound`, `skipItems_complete`: what follows the first item of an array.
-/

namespace Refinement.Json

open Grammar
open Scan (Takes andThen mapTo)

variable {object : Bool} {u w r cs : List Char}

/-! ## What is skipped is of the grammar -/

/-- What is skipped behind blanks if values and parts are skipped: a value, or parts with the closing
mark. -/
def Skipped.Word : Skipped → List Char → Prop
  | .value, w => Spaced (Grammar.Word .value) w
  | .parts object, w => ∃ w', w = w' ++ [closing object] ∧ Grammar.Word (.parts object) w'

theorem skipGroup_takes {parts : Scan Unit}
    (h : Takes (fun _ => Skipped.Word (.parts object)) parts) :
    Takes (fun _ w => Grammar.Word .value (opening object :: w)) (skipGroup object parts) := by
  intro cs _ r hs
  rw [skipGroup_eq] at hs
  obtain ⟨u, hu, hcs⟩ := exists_blank cs
  split at hs
  · cases hs
  · next c r' hc =>
    rw [hc] at hcs
    split at hs
    · next hclose =>
      cases hs
      refine ⟨u ++ [closing object], ?_, .empty object hu⟩
      rw [hcs, hclose, List.append_assoc, List.singleton_append]
    · obtain ⟨_, hr, w, rfl, hw⟩ := h hs
      refine ⟨u ++ w ++ [closing object], ?_, ?_⟩
      · rw [hcs, hr]
        simp only [List.append_assoc]
      · exact .group object (hw.behind_parts hu)

theorem skipValueBy_takes {parts : Bool → Scan Unit}
    (h : ∀ object, Takes (fun _ => Skipped.Word (.parts object)) (parts object)) :
    Takes (fun _ => Skipped.Word .value) (skipValueBy parts) := by
  refine .front (W := fun _ => Grammar.Word .value) fun c => ?_
  have literal {v : List Char} (hv : Grammar.Word .value (c :: v)) :
      Takes (fun _ w => Grammar.Word .value (c :: w)) (literal v) :=
    (Scan.Takes.literal v).imp fun h => h ▸ hv
  split
  · next hc => exact literal (hc ▸ .null)
  split
  · next hc => exact literal (hc ▸ .truth)
  split
  · next hc => exact literal (hc ▸ .falsehood)
  split
  · next hc => exact skipNumber_takes.imp fun hw => hc ▸ .number (.negative hw)
  split
  · next hc => exact skipText_takes.imp fun hw => hc ▸ .text hw
  split
  · next hc => exact (skipGroup_takes (h false)).imp fun hw => hc ▸ hw
  split
  · next hc => exact (skipGroup_takes (h true)).imp fun hw => hc ▸ hw
  split
  · refine (skipNumber_takes.cons (fun _ hnil => ?_) c).imp fun hw => .number (.plain hw)
    obtain ⟨_, _, hne, -⟩ := hnil.opens
    cases hne
  · exact .fail _

/-- The name of a member and its colon. -/
theorem skipName_takes : Takes
    (fun _ => Spaced fun w => ∃ q u, w = '"' :: (q ++ (u ++ [':'])) ∧ Quoted q ∧ Blank u)
    skipName := by
  rw [skipName_eq]
  refine .front fun c => ?_
  split
  · next hc =>
    rw [colon_eq, hc]
    refine skipText_takes.andThen (fun _ => .mark ':') ?_
    rintro _ _ q _ hq ⟨hu, rfl⟩
    exact ⟨q, _, rfl, hq, hu⟩
  · exact .fail _

theorem skipBehind_takes {others : Scan Unit}
    (h : Takes (fun _ => Skipped.Word (.parts object)) others) :
    Takes (fun _ w => ∃ t, w = t ++ [closing object] ∧ Tail object t) (skipBehind object others) := by
  refine (Scan.Takes.front (W := fun _ w => w = [closing object] ∨
    ∃ t, w = ',' :: (t ++ [closing object]) ∧ Grammar.Word (.parts object) t) fun c => ?_).imp ?_
  · split
    · next hc =>
      refine h.imp ?_
      rintro _ _ ⟨t, rfl, ht⟩
      exact .inr ⟨t, by rw [hc], ht⟩
    split
    · next hc => exact .pure (.inl (by rw [hc]))
    · exact .fail _
  · rintro _ _ ⟨hu, rfl | ⟨t, rfl, ht⟩⟩
    · exact ⟨_, rfl, .none hu⟩
    · refine ⟨_ ++ ',' :: t, ?_, .items hu ht⟩
      rw [List.append_assoc, List.cons_append]

theorem skipPartsBy_takes {value others : Scan Unit}
    (h : Takes (fun _ => Skipped.Word .value) value)
    (ho : Takes (fun _ => Skipped.Word (.parts object)) others) :
    Takes (fun _ => Skipped.Word (.parts object)) (skipPartsBy object value others) := by
  -- the value and what is behind it, to which a name belongs in front
  have hitems : Takes (fun _ w => ∃ v t, w = v ++ (t ++ [closing object]) ∧
      Grammar.Word (.part false) v ∧ Tail object t)
      (andThen value fun _ => skipBehind object others) := by
    refine h.andThen (fun _ => skipBehind_takes ho) ?_
    rintro _ _ _ _ ⟨hu, hv⟩ ⟨t, rfl, ht⟩
    refine ⟨_, t, rfl, ?_, ht⟩
    have := Grammar.Word.item hu hv .nil
    rwa [List.append_nil] at this
  unfold skipPartsBy
  cases object with
  | false =>
    refine Scan.Takes.andThen (p := fun _ w => w = []) (.pure rfl) (fun _ => hitems) ?_
    rintro _ _ _ _ rfl ⟨v, t, rfl, hv, ht⟩
    exact ⟨v ++ t, by rw [List.nil_append, List.append_assoc], hv.cons ht⟩
  | true =>
    refine skipName_takes.andThen (fun _ => hitems) ?_
    rintro _ _ _ _ ⟨hu, q, u, rfl, hq, hu'⟩ ⟨v, t, rfl, hv, ht⟩
    refine ⟨_, ?_, (Grammar.Word.member hu hq hu' hv).cons ht⟩
    simp only [List.append_assoc, List.cons_append, List.nil_append]

theorem skipWith_takes (fuel : Nat) (a : Skipped) : Takes (fun _ => a.Word) (skipWith fuel a) := by
  induction fuel generalizing a with
  | zero => cases a <;> exact .fail _
  | succ fuel ih =>
    cases a with
    | value =>
      rw [skipWith, skipValueWith_succ]
      exact skipValueBy_takes fun object => ih (.parts object)
    | parts object =>
      rw [skipWith, skipPartWith_succ]
      exact skipPartsBy_takes (ih .value) (ih (.parts object))

/-- What is skipped as a value is one of the grammar. -/
theorem skipValue_takes : Takes (fun _ => Spaced (Word .value)) skipValue :=
  fun _ _ _ h => skipWith_takes _ .value h

/-! ## What is of the grammar is skipped -/

theorem skipValue_fronted : Scan.Fronted skipValue := by
  rw [skipValue_eq]
  exact Scan.Fronted.front.andThen _

/-- Skips a part of an object or array. -/
def skipPart (object : Bool) : Scan Unit :=
  andThen (if object then skipName else fun cs => .ok ((), cs)) fun _ => skipValue

theorem skipParts_eq_andThen (object : Bool) : skipParts object =
    andThen (skipPart object) fun _ => skipBehind object (skipParts object) :=
  (skipParts_eq object).trans (Scan.andThen_assoc _ _ _).symm

theorem skipParts_fronted (object : Bool) : Scan.Fronted (skipParts object) := by
  rw [skipParts_eq_andThen]
  refine Scan.Fronted.andThen ?_ _
  cases object with
  | false => exact skipValue_fronted
  | true =>
    refine Scan.Fronted.andThen ?_ _
    rw [if_pos rfl, skipName_eq]
    exact Scan.Fronted.front.andThen _

theorem Scan.Fronted.append {α : Type} {s : Scan α} (h : Scan.Fronted s) (hu : Blank u)
    (r : List Char) : s (u ++ r) = s r := by
  rw [← h.skips, skipBlanks_append hu, h.skips]

theorem skipBehind_append (hu : Blank u) {others : Scan Unit} {c : Char} (hc : isBlank c = false)
    (r : List Char) : skipBehind object others (u ++ c :: r) =
      if c = ',' then others r else if c = closing object then .ok ((), r)
      else .error .malformed := by
  rw [skipBehind_eq, skipBlanks_append hu, skipBlanks_of_not_blank hc]

theorem mark_append (hu : Blank u) {m : Char} (hm : isBlank m = false) (r : List Char) :
    mark m (u ++ m :: r) = .ok ((), r) := by
  have hfront : skipBlanks (u ++ m :: r) = m :: r := by
    rw [skipBlanks_append hu, skipBlanks_of_not_blank hm]
  unfold mark
  rw [Scan.andThen_of_ok (front_of_cons hfront), if_pos rfl]

/-- The words that are skipped, behind which blanks of them may be left. -/
def Grammar.Piece.IsSkipped : Piece → List Char → Prop
  | .value, w => ∀ {r}, Ends r → skipValue (w ++ r) = .ok ((), r)
  | .part object, w => ∀ {r}, Ends r → ∃ u, Blank u ∧ skipPart object (w ++ r) = .ok ((), u ++ r)
  | .parts object, w => ∀ r, skipParts object (w ++ closing object :: r) = .ok ((), r)

theorem skipValue_group (object : Bool) (r : List Char) :
    skipValue (opening object :: r) = skipGroup object (skipParts object) r := by
  rw [skipValue_eq]
  cases object <;> rfl

/-- A number is told by its sign or by its first digit. -/
theorem skipValue_numeral (h : Numeral w) {r : List Char} (hr : Ends r) :
    skipValue (w ++ r) = .ok ((), r) := by
  rw [skipValue_eq]
  cases h with
  | negative h => exact skipNumber_complete h hr
  | plain h =>
    have hskip := skipNumber_complete h hr
    obtain ⟨c, w, rfl, hc⟩ := h.opens
    refine (Scan.andThen_of_ok (front_of_cons (skipBlanks_of_not_blank
      (isBlank_of_not_mem_enders (not_mem_enders_of_isDigit hc)) _)) _).trans ?_
    have hne {d : Char} (hd : d.isDigit = false) : c ≠ d := by
      rintro rfl
      rw [hc] at hd
      cases hd
    rw [if_neg (hne rfl), if_neg (hne rfl), if_neg (hne rfl), if_neg (hne rfl), if_neg (hne rfl),
      if_neg (hne rfl), if_neg (hne rfl), if_pos hc]
    exact hskip

theorem skipName_member {q u u' : List Char} (hu : Blank u) (hq : Quoted q) (hu' : Blank u')
    (r : List Char) : skipName (u ++ '"' :: (q ++ (u' ++ ':' :: r))) = .ok ((), r) := by
  rw [skipName_eq, colon_eq, (Scan.Fronted.front.andThen _).append hu]
  refine (Scan.andThen_of_ok (front_of_cons (skipBlanks_of_not_blank (by decide) _)) _).trans ?_
  rw [if_pos rfl, Scan.andThen_of_ok (skipText_complete hq _)]
  exact mark_append hu' (by decide) r

theorem ends_closing (object : Bool) (r : List Char) : Ends (closing object :: r) := by
  rintro c ⟨⟩
  cases object <;> decide

theorem isBlank_closing (object : Bool) : isBlank (closing object) = false := by
  cases object <;> decide

theorem closing_ne_comma (object : Bool) : closing object ≠ ',' := by
  cases object <;> decide

theorem not_mem_enders_ne_closing {c : Char} (h : c ∉ enders) (object : Bool) :
    c ≠ closing object := by
  rintro rfl
  exact h (by cases object <;> decide)

/-- Words of the grammar are skipped. -/
theorem Grammar.Word.isSkipped {p : Piece} (h : Word p w) : p.IsSkipped w := by
  induction h with
  | null =>
    intro r _
    rw [skipValue_eq]
    exact literal_append ['u', 'l', 'l'] r
  | truth =>
    intro r _
    rw [skipValue_eq]
    exact literal_append ['r', 'u', 'e'] r
  | falsehood =>
    intro r _
    rw [skipValue_eq]
    exact literal_append ['a', 'l', 's', 'e'] r
  | number h => exact skipValue_numeral h
  | text h =>
    intro r _
    rw [skipValue_eq]
    exact skipText_complete h r
  | @empty object w hw =>
    intro r _
    rw [List.cons_append, skipValue_group, skipGroup_eq, List.append_assoc, skipBlanks_append hw,
      List.singleton_append, skipBlanks_of_not_blank (isBlank_closing object)]
    exact if_pos rfl
  | @group object w hw ih =>
    intro r _
    obtain ⟨c, w', hc, hends⟩ := hw.skipBlanks_eq (closing object :: r)
    rw [List.cons_append, skipValue_group, skipGroup_eq, List.append_assoc,
      List.singleton_append, hc]
    show (if c = closing object then _ else _) = _
    rw [if_neg (not_mem_enders_ne_closing hends object), ← hc, (skipParts_fronted object).skips]
    exact ih r
  | @item u w u' hu hw hu' ih =>
    intro r hr
    refine ⟨u', hu', ?_⟩
    rw [List.append_assoc, List.append_assoc]
    show skipValue (u ++ (w ++ (u' ++ r))) = _
    rw [skipValue_fronted.append hu]
    exact ih (hu'.ends hr)
  | @member u q u' w hu hq hu' hw ih =>
    intro r hr
    obtain ⟨u'', hu'', hskip⟩ := ih hr
    refine ⟨u'', hu'', ?_⟩
    simp only [List.append_assoc, List.cons_append]
    exact (Scan.andThen_of_ok (skipName_member hu hq hu' _) _).trans hskip
  | last object _ ih =>
    intro r
    obtain ⟨u, hu, hskip⟩ := ih (ends_closing object r)
    rw [skipParts_eq_andThen, Scan.andThen_of_ok hskip,
      skipBehind_append hu (isBlank_closing object), if_neg (closing_ne_comma object), if_pos rfl]
  | @more object w w' _ _ ih ih' =>
    intro r
    have hends : Ends (',' :: (w' ++ closing object :: r)) := by
      rintro c ⟨⟩
      decide
    obtain ⟨u, hu, hskip⟩ := ih hends
    rw [List.append_assoc, List.cons_append, skipParts_eq_andThen, Scan.andThen_of_ok hskip,
      skipBehind_append hu (by decide), if_pos rfl]
    exact ih' r

/-! ## Items behind others -/

/-- What stands in front of the next part, or of the closing mark: blanks, and a comma between parts. -/
inductive Grammar.Gap : Bool → List Char → Prop where
  | blank {u : List Char} : Blank u → Gap false u
  | comma {u u' : List Char} : Blank u → Blank u' → Gap true (u ++ ',' :: u')

theorem cons_of_peek {c : Char} (h : peek cs = .ok (c, r)) : ∃ r', r = c :: r' := by
  unfold peek at h
  split at h
  · cases h
  · cases h
    exact ⟨_, rfl⟩

theorem nextPart_takes (close : Char) (opens : Char → Bool) (first : Bool) :
    Takes (fun more => Gap (more && !first)) (nextPart close opens first) := by
  intro cs more r h
  obtain ⟨⟨c, r₁⟩, hpeek, hs⟩ := exists_of_bind_ok h
  obtain ⟨r₁, rfl⟩ := cons_of_peek hpeek
  obtain ⟨u, rfl, hu⟩ := Scan.Takes.peek hpeek
  dsimp only at hs
  split at hs
  · cases hs
    exact ⟨u, rfl, .blank hu⟩
  split at hs
  · next hfirst =>
    split at hs
    · cases hs
      rw [hfirst]
      exact ⟨u, rfl, .blank hu⟩
    · cases hs
  split at hs
  · next hfirst hcomma =>
    rw [Scan.andThen_of_ok (next_cons c r₁)] at hs
    obtain ⟨⟨d, r₂⟩, hpeek', hopens⟩ := exists_of_bind_ok hs
    obtain ⟨u', rfl, hu'⟩ := Scan.Takes.peek hpeek'
    dsimp only at hopens
    split at hopens
    · cases hopens
      refine ⟨u ++ ',' :: u', ?_, ?_⟩
      · rw [hcomma, List.append_assoc, List.cons_append]
      · rw [Bool.eq_false_iff.2 hfirst]
        exact .comma hu hu'
    · cases hopens
  · cases hs

theorem nextItem_takes (first : Bool) :
    Takes (fun more => Gap (more && !first)) (nextItem first) := by
  rw [nextItem_eq]
  exact nextPart_takes _ _ _

/-- Items that end are followed by the closing bracket. -/
theorem bracket_of_nextItem {first : Bool} (h : nextItem first cs = .ok (false, r)) :
    ∃ r', r = ']' :: r' := by
  unfold nextItem at h
  split at h
  · cases h
  · cases h
    exact ⟨_, rfl⟩
  · split at h
    · cases h
    split at h
    · split at h
      · cases h
      · cases h
      · cases h
    · cases h

/-- What is skipped behind an item are other items, up to the closing bracket. -/
theorem skipItems_sound {r : List Char} (h : skipItems cs = .ok ((), r)) :
    ∃ w r', cs = w ++ ']' :: r' ∧ r = ']' :: r' ∧ Tail false w := by
  suffices hall : ∀ fuel cs, skipItemsWith fuel cs = .ok ((), r) →
      ∃ w r', cs = w ++ ']' :: r' ∧ r = ']' :: r' ∧ Tail false w from hall _ _ h
  intro fuel
  induction fuel with
  | zero => nofun
  | succ fuel ih =>
    intro cs h
    rw [skipItemsWith_succ] at h
    obtain ⟨⟨more, r₁⟩, hnext, h⟩ := exists_of_bind_ok h
    obtain ⟨u, rfl, hu⟩ := nextItem_takes false hnext
    cases more with
    | false =>
      cases h
      obtain ⟨r', rfl⟩ := bracket_of_nextItem hnext
      obtain ⟨hu⟩ := hu
      exact ⟨_, r', rfl, rfl, .none hu⟩
    | true =>
      obtain ⟨⟨_, r₂⟩, hvalue, hrest⟩ := exists_of_bind_ok h
      obtain ⟨_, rfl, hv, hw⟩ := skipValue_takes hvalue
      obtain ⟨t, r', rfl, rfl, ht⟩ := ih r₂ hrest
      obtain _ | ⟨hu, hu'⟩ := hu
      refine ⟨_, r', ?_, rfl, .items hu ((Word.item (hu'.append hv) hw .nil).cons ht)⟩
      simp only [List.append_assoc, List.cons_append, List.nil_append]

/-- Whether a part of an object or array may begin with a character. -/
def begins (object : Bool) (c : Char) : Bool := if object then c == '"' else c != ']'

theorem ne_closing_of_begins {object : Bool} {c : Char} (h : begins object c = true) :
    c ≠ closing object := by
  rintro rfl
  cases object <;> cases h

/-- Whether another part of an object or array follows. -/
def nextOf (object first : Bool) : Scan Bool := nextPart (closing object) (begins object) first

section NextOf

variable (object first : Bool)

theorem nextOf_append (hu : Blank u) (cs : List Char) :
    nextOf object first (u ++ cs) = nextOf object first cs := by
  unfold nextOf nextPart Scan.andThen peek
  rw [skipBlanks_append hu]

theorem nextOf_closing (hu : Blank u) (r : List Char) :
    nextOf object first (u ++ closing object :: r) = .ok (false, closing object :: r) := by
  have hskip : skipBlanks (closing object :: r) = closing object :: r :=
    skipBlanks_of_not_blank (isBlank_closing object) r
  rw [nextOf_append object first hu, nextOf, nextPart, Scan.andThen_of_ok (peek_of_cons hskip),
    if_pos rfl]

/-- Behind the opening mark, or behind a comma, a part begins. -/
theorem nextOf_part (hu : Gap (!first) u) {c : Char} {r : List Char} (hcs : skipBlanks cs = c :: r)
    (hc : begins object c = true) : nextOf object first (u ++ cs) = .ok (true, c :: r) := by
  cases first with
  | true =>
    obtain ⟨hu⟩ := hu
    rw [nextOf_append object true hu, nextOf, nextPart, Scan.andThen_of_ok (peek_of_cons hcs),
      if_neg (ne_closing_of_begins hc), if_pos rfl, if_pos hc]
  | false =>
    obtain _ | ⟨hu, hu'⟩ := hu
    have hcomma (cs : List Char) : skipBlanks (',' :: cs) = ',' :: cs := skipBlanks_of_not_blank rfl cs
    have hbehind := (skipBlanks_append hu' cs).trans hcs
    rw [List.append_assoc, List.cons_append, nextOf_append object false hu, nextOf, nextPart,
      Scan.andThen_of_ok (peek_of_cons (hcomma _)), if_neg (closing_ne_comma object).symm,
      if_neg Bool.false_ne_true, if_pos rfl, Scan.andThen_of_ok (next_cons _ _),
      Scan.andThen_of_ok (peek_of_cons hbehind), if_pos hc]

/-- Neither a comma nor the closing mark follows a part. -/
theorem nextOf_stray {c : Char} (hc : c ∉ enders) (r : List Char) :
    nextOf object false (c :: r) = .error .malformed := by
  have hcomma : c ≠ ',' := by
    rintro rfl
    exact hc (by decide)
  have hskip := skipBlanks_of_not_blank (isBlank_of_not_mem_enders hc) r
  rw [nextOf, nextPart, Scan.andThen_of_ok (peek_of_cons hskip),
    if_neg (not_mem_enders_ne_closing hc object), if_neg Bool.false_ne_true, if_neg hcomma]

end NextOf

theorem nextItem_bracket (first : Bool) (hu : Blank u) (r : List Char) :
    nextItem first (u ++ ']' :: r) = .ok (false, ']' :: r) := by
  rw [nextItem_eq]
  exact nextOf_closing false first hu r

/-- A comma is followed by another item. -/
theorem nextItem_comma (hu : Blank u) {p : Piece} (h : Word p w) (r : List Char) :
    nextItem false (u ++ ',' :: (w ++ r)) = .ok (true, skipBlanks (w ++ r)) := by
  obtain ⟨c, w', hc, hends⟩ := h.skipBlanks_eq r
  have hgap : Gap (!false) (u ++ [',']) := .comma hu .nil
  have hnext := nextOf_part false false hgap hc (bne_iff_ne.2 (not_mem_enders_ne_closing hends false))
  rw [List.append_assoc] at hnext
  rw [nextItem_eq, hc]
  exact hnext

/-- Nothing is skipped where neither a comma nor the closing bracket follows an item. -/
theorem skipItems_stray {c : Char} (hc : c ∉ enders) (r : List Char) :
    skipItems (c :: r) = .error .malformed := by
  have hnext := nextOf_stray false hc r
  rw [skipItems_eq, nextItem_eq]
  exact Scan.andThen_of_error hnext _

theorem Grammar.Tail.ends (h : Tail object w) (r : List Char) : Ends (w ++ closing object :: r) := by
  cases h with
  | none hu => exact hu.ends (ends_closing object r)
  | items hu hw =>
    rw [List.append_assoc]
    refine hu.ends ?_
    rintro c ⟨⟩
    decide

/-- Items of the grammar are skipped. -/
theorem skipItems_complete (h : Tail false w) (r : List Char) :
    skipItems (w ++ ']' :: r) = .ok ((), ']' :: r) := by
  have stops {u : List Char} (hu : Blank u) :
      skipItems (u ++ ']' :: r) = .ok ((), ']' :: r) := by
    rw [skipItems_eq, Scan.andThen_of_ok (nextItem_bracket false hu r)]
    rfl
  cases h with
  | none hu => exact stops hu
  | @items u w hu hw =>
    induction hw using Word.parts_induction generalizing u with
    | @last w hw =>
      obtain ⟨u', hu', hskip⟩ := hw.isSkipped (ends_closing false r)
      have hnext := nextItem_comma hu hw (']' :: r)
      rw [List.append_assoc, List.cons_append, skipItems_eq, Scan.andThen_of_ok hnext, if_pos rfl,
        (skipValue_fronted.andThen _).skips]
      exact (Scan.andThen_of_ok hskip _).trans (stops hu')
    | @more w w' hw _ ih =>
      have hends : Ends (',' :: (w' ++ ']' :: r)) := by
        rintro c ⟨⟩
        decide
      obtain ⟨u', hu', hskip⟩ := hw.isSkipped hends
      have hnext := nextItem_comma hu hw (',' :: (w' ++ ']' :: r))
      have hrest := ih hu'
      simp only [List.append_assoc, List.cons_append] at hnext hrest ⊢
      rw [skipItems_eq, Scan.andThen_of_ok hnext, if_pos rfl,
        (skipValue_fronted.andThen _).skips]
      exact (Scan.andThen_of_ok hskip _).trans hrest

end Refinement.Json
