import Refinement.Proofs.Grammar.LastingValues

/-!
# Reading values that are present

A value that is present is read from an array: its first element is read, and whatever follows is
skipped up to the closing bracket. What is skipped has to be of the grammar, and does not matter
otherwise.

* `Grammar.ArrayText`: arrays, and their first elements.
* `Json.readPresent`: how a value that is present is read, whatever reads its first element.
* `Ty.read_present_iff`: what a value that is present is read from, and what of it.
* `Ty.ofJson_present_filled`: an array and its first element are read alike.
* `Ty.present_keeps_head`: all that reading a value that is present depends on.
-/

namespace Refinement

namespace Json

open Grammar
open Scan (andThen)

variable {ε α : Type} {u w r cs : List Char}

/-! ## Arrays -/

/-- A JSON array without elements, or with a first one, to which the blanks around it belong. -/
inductive Grammar.ArrayText : Option (List Char) → List Char → Prop where
  | empty {u u' : List Char} : Blank u → Blank u' → ArrayText none (u ++ '[' :: (u' ++ [']']))
  | filled {u e w : List Char} : Blank u → Word (.part false) e → Tail false w →
    ArrayText (some e) (u ++ '[' :: (e ++ (w ++ [']'])))

/-- These are the values that begin with an opening bracket. -/
theorem Grammar.exists_arrayText_iff : (∃ e, ArrayText e w) ↔
    Spaced (fun w => Word .value w ∧ w.head? = some '[') w := by
  constructor
  · rintro ⟨_, ⟨hu, hu'⟩ | ⟨hu, he, hw⟩⟩
    · exact ⟨hu, .empty false hu', rfl⟩
    · refine ⟨hu, ?_, rfl⟩
      rw [← List.append_assoc]
      exact .group false (he.cons hw)
  · rintro ⟨hu, hw, hhead⟩
    cases hw with
    | null | truth | falsehood | text => cases hhead
    | number h =>
      cases h with
      | plain h =>
        obtain ⟨c, w, rfl, hc⟩ := h.opens
        cases hhead
        cases hc
      | negative h => cases hhead
    | empty object hw =>
      cases object with
      | true => cases hhead
      | false => exact ⟨none, .empty hu hw⟩
    | group object hw =>
      cases object with
      | true => cases hhead
      | false =>
        cases hw with
        | last _ h => exact ⟨some _, .filled hu h (.none .nil)⟩
        | @more w w' _ h h' =>
          rw [List.append_assoc]
          exact ⟨some _, .filled hu h (.items .nil h')⟩

theorem nextItem_append (hu : Blank u) (first : Bool) (r : List Char) :
    nextItem first (u ++ r) = nextItem first r := by
  rw [nextItem_eq]
  exact nextOf_append false first hu r

theorem skipItems_append (hu : Blank u) (r : List Char) : skipItems (u ++ r) = skipItems r := by
  rw [skipItems_eq]
  unfold andThen
  rw [nextItem_append hu]

theorem nextItem_first {c : Char} (h : skipBlanks cs = c :: r) (hc : c ≠ ']') :
    nextItem true cs = .ok (true, c :: r) := by
  have hgap : Gap (!true) [] := .blank .nil
  rw [nextItem_eq]
  exact nextOf_part false true hgap h (bne_iff_ne.2 hc)

/-- A whole text is read if nothing but blanks is left of it. -/
theorem readWhole_ok_iff {read : Reader ε α} {text : String} {v : α} :
    (readWhole read text).result = .ok v ↔
      ∃ u, (read text.toList).result = .ok (v, u) ∧ Blank u := by
  unfold readWhole
  obtain ⟨l, f | ⟨w, u⟩⟩ := read text.toList
  · constructor
    · intro h
      cases h
    · rintro ⟨u, h, -⟩
      cases h
  · cases hu : skipBlanks u with
    | nil =>
      simp only [Log.andThen, Log.result_bind, hu, Log.result_pure]
      constructor
      · rintro ⟨⟩
        exact ⟨u, rfl, blank_of_skipBlanks hu⟩
      · rintro ⟨_, ⟨⟩, -⟩
        rfl
    | cons c r =>
      simp only [Log.andThen, Log.result_bind, hu, Log.result_pure]
      constructor
      · intro h
        cases h
      · rintro ⟨_, ⟨⟩, hblank⟩
        rw [hblank.skipBlanks_eq] at hu
        cases hu

/-- What is read comes to the same in front of a rest, unless the text is too short by itself. -/
theorem Reader.Local.append_eq {j k : Nat} {read : Reader ε α} (h : Reader.Local k j read)
    (hr : Ends r) (hshort : (read cs).result ≠ .error .truncated) :
    read (cs ++ r) = Reader.andThen (read cs) fun v r' => Pure.pure (.ok (v, r' ++ r)) := by
  have hgrows := h.grows cs hr
  have hlogs := h.logs cs hr hshort
  cases hx : (read cs).result with
  | error f =>
    rw [hx] at hshort hgrows
    have hf : f ≠ .truncated := fun h => hshort (congrArg Except.error h)
    refine Log.ext ?_ ?_
    · rw [Reader.events_andThen_of_error hx, hlogs]
    · rw [Reader.result_andThen, hx, hgrows.of_error hf]
      rfl
  | ok x =>
    rw [hx] at hgrows
    refine Log.ext ?_ ?_
    · rw [Reader.events_andThen_of_ok hx, hlogs]
      exact (List.append_nil _).symm
    · rw [Reader.result_andThen, hx, hgrows.of_ok]
      rfl

theorem Grammar.Tail.ends_bracket (h : Tail false w) (r : List Char) : Ends (w ++ ']' :: r) := h.ends r

/-! ## What follows the first element -/

/-- Reads a value that is present, given how the value is read. -/
def readPresent (n : String) (read : Reader Event α) : Reader Event (Present α) :=
  readArray "a sequence holding the present value" (readPresentItems (Present.ofFirst n) read)

/-- Skips what follows the first element, which was read as `v`, and wraps that. -/
def afterHead (v : α) : Reader Event (Present α) := fun r =>
  Reader.andThen (Reader.ofScan skipItems r) fun _ r =>
    Reader.mapTo (fun _ => .holding v) (Reader.ofScan endArray r)

section Present

variable (n : String) (read : Reader Event α)

theorem readPresent_bracket (hu : Blank u) (cs : List Char) : readPresent n read (u ++ '[' :: cs) =
    Reader.andThen (readPresentItems (Present.ofFirst n) read cs) fun x r =>
      Reader.mapTo (fun _ => x) (Reader.ofScan endArray r) := by
  unfold readPresent readArray
  rw [skipBlanks_append hu, skipBlanks_of_not_blank (by decide)]
  rfl

/-- An array that has a first element is read from there. -/
theorem readPresent_head (hu : Blank u) {c : Char} (h : skipBlanks cs = c :: r) (hc : c ≠ ']') :
    readPresent n read (u ++ '[' :: cs) = Reader.andThen (read (c :: r)) afterHead := by
  have hitems : readPresentItems (Present.ofFirst n) read cs =
      Reader.andThen (read (c :: r)) fun v r => Reader.andThen (Reader.ofScan skipItems r)
        fun _ r => Reader.leaving r (.ok <$> Present.ofFirst n [v]) := by
    unfold readPresentItems
    rw [nextItem_first h hc]
  rw [readPresent_bracket n read hu, hitems]
  refine (Log.andThen_assoc _ _ _).trans (Log.andThen_congr fun x _ => ?_)
  exact Log.andThen_assoc _ _ _

/-- An array without elements. -/
theorem readPresent_empty (hu : Blank u) (hw : Blank w) (r : List Char) :
    readPresent n read (u ++ '[' :: (w ++ ']' :: r)) =
      ((fun x => .ok (x, r)) <$> Present.ofFirst n []) := by
  rw [readPresent_bracket n read hu]
  unfold readPresentItems
  rw [nextItem_bracket true hw]
  rfl

/-- A text that ends behind the bracket is too short. -/
theorem readPresent_short (hu : Blank u) (h : skipBlanks cs = []) :
    (readPresent n read (u ++ '[' :: cs)).result = .error .truncated := by
  have hshort : nextItem true cs = .error .truncated := by
    unfold nextItem
    rw [h]
  rw [readPresent_bracket n read hu]
  unfold readPresentItems
  rw [hshort]
  rfl

end Present

variable {n : String} {read : Reader Event α} {v : α} {x : Present α}

theorem afterHead_of_tail (hw : Tail false w) (v : α) (r : List Char) :
    afterHead v (w ++ ']' :: r) = pure (.ok (.holding v, r)) := by
  unfold afterHead Reader.ofScan
  rw [skipItems_complete hw]
  rfl

theorem afterHead_append (hu : Blank u) (v : α) (r : List Char) :
    afterHead v (u ++ r) = afterHead v r := by
  unfold afterHead Reader.ofScan
  rw [skipItems_append hu]

theorem afterHead_of_error {f : Fault} (h : skipItems cs = .error f) (v : α) :
    afterHead v cs = pure (.error f) := by
  unfold afterHead Reader.ofScan
  rw [h]
  rfl

theorem exists_of_afterHead (h : (afterHead v cs).result = .ok (x, r)) :
    x = .holding v ∧ ∃ w, cs = w ++ ']' :: r ∧ Tail false w := by
  cases hs : skipItems cs with
  | error f =>
    rw [afterHead_of_error hs] at h
    cases h
  | ok y =>
    obtain ⟨w, r', rfl, -, hw⟩ := skipItems_sound hs
    rw [afterHead_of_tail hw] at h
    cases h
    exact ⟨rfl, w, rfl, hw⟩

/-- What a value that is present is read from begins with a bracket. -/
theorem bracket_of_readPresent (h : (readPresent n read cs).result = .ok (x, r)) :
    ∃ u cs', Blank u ∧ cs = u ++ '[' :: cs' := by
  obtain ⟨u, hu, hcs⟩ := exists_blank cs
  unfold readPresent readArray at h
  split at h
  · cases h
  · next cs' hcs' => exact ⟨u, cs', hu, by rw [← hcs', ← hcs]⟩
  · cases h

/-- It is read from an array without elements, or from one whose first element begins behind the
bracket. -/
theorem readPresent_cases (h : (readPresent n read cs).result = .ok (x, r)) :
    (x = .uninitialized ∧ ∃ w, cs = w ++ r ∧ ArrayText none w) ∨
    (∃ u cs' c r' v r'', Blank u ∧ cs = u ++ '[' :: cs' ∧ skipBlanks cs' = c :: r' ∧ c ≠ ']' ∧
      (read (c :: r')).result = .ok (v, r'') ∧ (afterHead v r'').result = .ok (x, r)) := by
  obtain ⟨u, cs, hu, rfl⟩ := bracket_of_readPresent h
  obtain ⟨u', hu', hcs⟩ := exists_blank cs
  cases hc : skipBlanks cs with
  | nil =>
    rw [readPresent_short n read hu hc] at h
    cases h
  | cons c cs' =>
    by_cases hb : c = ']'
    · rw [hcs, hc, hb, readPresent_empty n read hu hu'] at h
      cases h
      refine .inl ⟨rfl, _, ?_, .empty hu hu'⟩
      rw [hcs, hc, hb]
      simp only [List.append_assoc, List.cons_append, List.nil_append]
    · rw [readPresent_head n read hu hc hb, Reader.result_andThen] at h
      obtain ⟨⟨v, r'⟩, hread, hrest⟩ := exists_of_bind_ok h
      exact .inr ⟨u, cs, c, cs', v, r', hu, rfl, hc, hb, hread, hrest⟩

theorem readPresent_of_empty (h : ArrayText none w) (r : List Char) :
    (readPresent n read (w ++ r)).result = .ok (.uninitialized, r) := by
  obtain ⟨hu, hu'⟩ := h
  simp only [List.append_assoc, List.cons_append, List.nil_append]
  exact congrArg Log.result (readPresent_empty n read hu hu' r)

/-- However the value is read, there is none if and only if the array has no elements. -/
theorem readPresent_uninitialized_iff : (readPresent n read cs).result = .ok (.uninitialized, r) ↔
    ∃ w, cs = w ++ r ∧ ArrayText none w := by
  constructor
  · intro h
    obtain ⟨-, hw⟩ | ⟨_, _, _, _, v, _, -, -, -, -, -, hrest⟩ := readPresent_cases h
    · exact hw
    · obtain ⟨hx, -⟩ := exists_of_afterHead hrest
      cases hx
  · rintro ⟨w, rfl, hw⟩
    exact readPresent_of_empty hw r

end Json

open Json Grammar

namespace Ty

variable {t : Ty} {u w r cs : List Char}

theorem read_present (t : Ty) : (Ty.present t).read = readPresent t.name t.read := rfl

/-- An array that has a first element is read from there. -/
theorem read_present_head (t : Ty) (hu : Blank u) {c : Char} (h : skipBlanks cs = c :: r)
    (hc : c ≠ ']') : (Ty.present t).read (u ++ '[' :: cs) =
      Reader.andThen (t.read cs) afterHead := by
  rw [read_present, readPresent_head t.name t.read hu h hc, ← h, t.read_fronted.skips]

/-! ## What is read from an array -/

/-- The elements of an array as values; those behind the first may be any. -/
inductive Elements (t : Ty) : Option (List Char) → List t.Val → Prop where
  | empty : t.Elements none []
  | first {e : List Char} {v : t.Val} {vs : List t.Val} :
    (t.ofJson (String.ofList e)).result = .ok v → t.Elements (some e) (v :: vs)

theorem ofJson_ofList {v : t.Val} : (t.ofJson (String.ofList cs)).result = .ok v ↔
    ∃ u, (t.read cs).result = .ok (v, u) ∧ Blank u := by
  unfold Ty.ofJson
  rw [readWhole_ok_iff, String.toList_ofList]

/-- What a value is read from begins as a value. -/
theorem skipBlanks_of_read {v : t.Val} (h : (t.read cs).result = .ok (v, r)) (rest : List Char) :
    ∃ c cs', skipBlanks (cs ++ rest) = c :: cs' ∧ c ≠ ']' := by
  obtain ⟨w, rfl, hw⟩ := t.read_takes h
  obtain ⟨c, cs', hc, hends⟩ := hw.item.skipBlanks_eq (r ++ rest)
  refine ⟨c, cs', ?_, not_mem_enders_ne_closing hends false⟩
  rw [List.append_assoc, hc]

/-- A first element that is read by itself is read in front of what may follow it. -/
theorem read_present_of_first (hu : Blank u) {v : t.Val} {e b rest : List Char}
    (h : (t.read e).result = .ok (v, b)) (hrest : Ends rest) :
    ((Ty.present t).read (u ++ '[' :: (e ++ rest))).result =
      (afterHead v (b ++ rest)).result := by
  obtain ⟨c, cs, hc, hbracket⟩ := skipBlanks_of_read h rest
  have hgrows := t.read_local.grows e hrest
  rw [h] at hgrows
  rw [read_present_head t hu hc hbracket, Reader.result_andThen, hgrows.of_ok]
  rfl

/-- A value that is present is read from an array whose first element is read by itself. -/
theorem exists_array_of_read {x : Present t.Val}
    (h : ((Ty.present t).read cs).result = .ok (x, r)) : ∃ w e vs, cs = w ++ r ∧
      ArrayText e w ∧ t.Elements e vs ∧ x = (Present.ofFirst t.name vs).result := by
  obtain ⟨rfl, w, rfl, hw⟩ | ⟨u, cs, c, r', v, r'', hu, rfl, hc, -, hread, hrest⟩ :=
    readPresent_cases h
  · exact ⟨w, none, [], rfl, hw, .empty, rfl⟩
  · rw [← hc, t.read_fronted.skips cs] at hread
    obtain ⟨rfl, w, rfl, hw⟩ := exists_of_afterHead hrest
    obtain ⟨e, rfl, he⟩ := t.read_takes hread
    -- what follows the element does not matter to it
    have hgrows : Json.Grows 1 _ _ (.ok (v, [] ++ (w ++ ']' :: r))) :=
      hread ▸ t.read_local.grows e (hw.ends_bracket r)
    refine ⟨_, some e, [v], ?_, .filled hu he.item hw,
      .first (ofJson_ofList.2 ⟨[], hgrows.ok_of_append, .nil⟩), rfl⟩
    simp only [List.append_assoc, List.cons_append, List.nil_append]

theorem read_present_of_array {e : Option (List Char)} {vs : List t.Val} (h : ArrayText e w)
    (hvs : t.Elements e vs) (r : List Char) : ((Ty.present t).read (w ++ r)).result =
      .ok ((Present.ofFirst t.name vs).result, r) := by
  cases h with
  | empty hu hu' =>
    cases hvs
    exact readPresent_of_empty (.empty hu hu') r
  | filled hu he hw =>
    cases hvs with
    | first hv =>
      obtain ⟨b, hb, hblank⟩ := ofJson_ofList.1 hv
      simp only [List.append_assoc, List.cons_append, List.nil_append]
      refine (read_present_of_first hu hb (hw.ends_bracket r)).trans ?_
      rw [afterHead_append hblank]
      exact congrArg Log.result (afterHead_of_tail hw _ r)

/-- Reading goes through the whole array, and comes to the wrapper of its first element. -/
theorem read_present_iff {x : Present t.Val} :
    ((Ty.present t).read cs).result = .ok (x, r) ↔ ∃ w e vs, cs = w ++ r ∧ ArrayText e w ∧
      t.Elements e vs ∧ x = (Present.ofFirst t.name vs).result := by
  constructor
  · exact exists_array_of_read
  · rintro ⟨w, e, vs, rfl, hw, hvs, rfl⟩
    exact read_present_of_array hw hvs r

/-- The same of whole texts. -/
theorem ofJson_present_iff {text : String} {x : Present t.Val} :
    ((Ty.present t).ofJson text).result = .ok x ↔ ∃ w u e vs, text.toList = w ++ u ∧ Blank u ∧
      ArrayText e w ∧ t.Elements e vs ∧ x = (Present.ofFirst t.name vs).result := by
  refine readWhole_ok_iff.trans ?_
  constructor
  · rintro ⟨u, hread, hu⟩
    obtain ⟨w, e, vs, hcs, hw, hvs, hx⟩ := exists_array_of_read hread
    exact ⟨w, u, e, vs, hcs, hu, hw, hvs, hx⟩
  · rintro ⟨w, u, e, vs, hcs, hu, hw, hvs, rfl⟩
    exact ⟨u, by rw [hcs]; exact read_present_of_array hw hvs u, hu⟩

/-! ## What does not matter -/

/-- What is left of the text of an element is blank, or no tail begins with it. -/
theorem blank_or_malformed {v : t.Val} {e b : List Char} (he : Word (.part false) e)
    (h : (t.read e).result = .ok (v, b)) :
    Blank b ∨ ∃ c b', b = c :: b' ∧ isBlank c = false ∧ ∀ r, skipItems (b ++ r) = .error .malformed := by
  cases b with
  | nil => exact .inl .nil
  | cons c b =>
    by_cases hc : c ∈ enders
    · -- then what was read is skipped up to there, and all of the element as well
      obtain ⟨_, hw, hu, hv⟩ := t.read_takes h
      have hends : Ends (c :: b) := by
        rintro d ⟨⟩
        exact hc
      have hread := hv.isSkipped hends
      obtain ⟨u', hu', hskip⟩ := he.isSkipped Ends.nil
      rw [List.append_nil, List.append_nil, hw, List.append_assoc] at hskip
      have hskip : skipValue _ = _ := hskip
      rw [skipValue_fronted.append hu, hread] at hskip
      cases hskip
      exact .inl hu'
    · refine .inr ⟨c, b, rfl, isBlank_of_not_mem_enders hc, fun r => skipItems_stray hc _⟩

/-- Behind a first element, reading comes to what it comes to behind a whole text. -/
theorem afterHead_eq {v : t.Val} {e b : List Char} (he : Word (.part false) e)
    (h : (t.read e).result = .ok (v, b)) (hw : Tail false w) (r : List Char) :
    afterHead v (b ++ (w ++ ']' :: r)) = match skipBlanks b with
      | [] => pure (.ok (.holding v, r))
      | _ :: _ => pure (.error .malformed) := by
  rcases blank_or_malformed he h with hb | ⟨c, b, rfl, hc, hskip⟩
  · rw [afterHead_append hb, afterHead_of_tail hw, hb.skipBlanks_eq]
  · rw [afterHead_of_error (hskip _), skipBlanks_of_not_blank hc]

/-- An array is read just as its first element is by itself, whatever follows the element. -/
theorem ofJson_present_filled {e : List Char} (h : ArrayText (some e) w) :
    (Ty.present t).ofJson (String.ofList w) =
      (t.ofJson (String.ofList e)).andThen fun v => pure (.ok (.holding v)) := by
  obtain _ | @⟨u, e, w, hu, he, hw⟩ := h
  obtain ⟨c, cs, hc, hends⟩ := he.skipBlanks_eq (w ++ ']' :: [])
  have hread := read_present_head t hu hc (not_mem_enders_ne_closing hends false)
  have hafter : ∀ {v b}, (t.read e).result = .ok (v, b) → afterHead v (b ++ (w ++ [']'])) = _ :=
    fun h => afterHead_eq he h hw []
  have hlast := t.read_ne_truncated he Ends.nil
  rw [List.append_nil] at hlast
  have hlocal := t.read_local.append_eq (hw.ends_bracket []) hlast
  unfold Ty.ofJson readWhole
  rw [String.toList_ofList, String.toList_ofList, hread, hlocal]
  refine (Log.andThen_assoc _ _ _).trans ((Log.andThen_assoc _ _ _).trans ?_)
  refine (Log.andThen_congr fun x hx => ?_).trans (Log.andThen_assoc _ _ _).symm
  obtain ⟨v, b⟩ := x
  have hb := hafter hx
  dsimp only at hb ⊢
  cases hskip : skipBlanks b with
  | nil =>
    rw [hskip] at hb
    rw [Log.pure_ok_andThen, Log.pure_ok_andThen, hb]
    rfl
  | cons c r =>
    rw [hskip] at hb
    rw [Log.pure_ok_andThen, hb]
    rfl

/-- From an array with a first element a value is read only if it is read from that element. -/
theorem exists_of_ofJson_present {e : List Char} {x : Present t.Val} (h : ArrayText (some e) w)
    (hx : ((Ty.present t).ofJson (String.ofList w)).result = .ok x) :
    ∃ v, (t.ofJson (String.ofList e)).result = .ok v ∧ x = .holding v := by
  obtain ⟨b, hread, -⟩ := ofJson_ofList.1 hx
  obtain _ | @⟨u, e, w, hu, he, hw⟩ := h
  obtain ⟨c, cs, hc, hends⟩ := he.skipBlanks_eq (w ++ ']' :: [])
  rw [read_present_head t hu hc (not_mem_enders_ne_closing hends false),
    Reader.result_andThen] at hread
  obtain ⟨⟨v, r⟩, hv, hrest⟩ := exists_of_bind_ok hread
  obtain ⟨rfl, w', rfl, hw'⟩ := exists_of_afterHead hrest
  refine ⟨v, ofJson_ofList.2 ?_, rfl⟩
  -- what is left when the value is read is what is left when the element is skipped
  obtain ⟨_, htaken, hu', hword⟩ := t.read_takes hv
  obtain ⟨u', hblank, hskip⟩ := he.isSkipped (hw.ends_bracket [])
  have hskip : skipValue _ = _ := hskip
  rw [htaken, List.append_assoc, skipValue_fronted.append hu',
    hword.isSkipped (hw'.ends_bracket b)] at hskip
  have hrest : w' ++ ']' :: b = u' ++ (w ++ [']']) := congrArg Prod.snd (Except.ok.inj hskip)
  have hgrows := t.read_local.grows e (hw.ends_bracket [])
  rw [hv, hrest] at hgrows
  exact ⟨u', hgrows.ok_of_append, hblank⟩

/-! ## Faults -/

/-- A fault in the first element is reported as it is. -/
theorem read_present_headFault (hu : Blank u) (hc : (skipBlanks cs).head? ≠ some ']') {f : Fault}
    (h : (t.read cs).result = .error f) :
    ((Ty.present t).read (u ++ '[' :: cs)).result = .error f := by
  cases hcs : skipBlanks cs with
  | nil =>
    rw [t.read_fronted.result_of_nil hcs] at h
    cases h
    exact readPresent_short t.name t.read hu hcs
  | cons c r =>
    rw [hcs] at hc
    rw [read_present_head t hu hcs fun hb => hc (congrArg some hb), Reader.result_andThen, h]
    rfl

/-- An element that is faulty by itself is so in front of whatever may follow it. -/
theorem read_append_of_error {f : Fault} {e rest : List Char} (h : (t.read e).result = .error f)
    (hf : f ≠ .truncated) (hrest : Ends rest) : (t.read (e ++ rest)).result = .error f := by
  have hgrows := t.read_local.grows e hrest
  rw [h] at hgrows
  exact hgrows.of_error hf

theorem skipBlanks_of_error {f : Fault} (h : (t.read cs).result = .error f)
    (hf : f ≠ .truncated) : ∃ c r, skipBlanks cs = c :: r := by
  cases hcs : skipBlanks cs with
  | nil =>
    rw [t.read_fronted.result_of_nil hcs] at h
    exact absurd (Except.error.inj h).symm hf
  | cons c r => exact ⟨c, r, rfl⟩

/-- What follows the first element is skipped, unless it is faulty itself. -/
theorem exists_fault_of_not_tail
    (h : ¬ ∃ w r, cs = w ++ ']' :: r ∧ Tail false w) : ∃ f, skipItems cs = .error f := by
  cases hs : skipItems cs with
  | error f => exact ⟨f, rfl⟩
  | ok x =>
    obtain ⟨w, r, hcs, -, hw⟩ := skipItems_sound hs
    exact absurd ⟨w, r, hcs, hw⟩ h

/-! ## All that matters -/

/-- Reading a value that is present goes through a whole array and keeps its head. -/
structure KeepsHead (t : Ty) : Prop where
  /-- It succeeds on arrays that are empty or whose first element is a value, takes them up to the
  closing bracket, and comes to the wrapper of the first of their elements. -/
  reads : ∀ (cs r : List Char) (x : Present t.Val),
    ((Ty.present t).read cs).result = .ok (x, r) ↔ ∃ w e vs, cs = w ++ r ∧ ArrayText e w ∧
      t.Elements e vs ∧ x = (Present.ofFirst t.name vs).result
  /-- It does so on whole texts, which may have blanks behind the array. -/
  reads_whole : ∀ (text : String) (x : Present t.Val),
    ((Ty.present t).ofJson text).result = .ok x ↔ ∃ w u e vs, text.toList = w ++ u ∧ Blank u ∧
      ArrayText e w ∧ t.Elements e vs ∧ x = (Present.ofFirst t.name vs).result
  /-- Arrays with the same first element come to the same value, whatever the others are. -/
  same_value : ∀ (e w w' : List Char) (x : Present t.Val), ArrayText (some e) w →
    ArrayText (some e) w' → ((Ty.present t).ofJson (String.ofList w)).result = .ok x →
    ((Ty.present t).ofJson (String.ofList w')).result = .ok x
  /-- They come to the same faults and log the same. -/
  same_outcome : ∀ (e w w' : List Char), ArrayText (some e) w → ArrayText (some e) w' →
    (Ty.present t).ofJson (String.ofList w) = (Ty.present t).ofJson (String.ofList w')
  /-- A fault in the first element is reported as it is. -/
  head_fault : ∀ (u cs : List Char) (f : Fault), Blank u → (skipBlanks cs).head? ≠ some ']' →
    (t.read cs).result = .error f → ((Ty.present t).read (u ++ '[' :: cs)).result = .error f
  /-- So is the fault of a first element by itself, whatever follows it; only if it ends too early
  does it go on. -/
  own_fault : ∀ (u e rest : List Char) (f : Fault), Blank u → (skipBlanks e).head? ≠ some ']' →
    Ends rest → (t.read e).result = .error f → f ≠ .truncated →
    ((Ty.present t).read (u ++ '[' :: (e ++ rest))).result = .error f
  /-- What follows the first element is at fault unless other elements and the closing bracket do. -/
  tail_fault : ∀ (u e rest : List Char) (v : t.Val), Blank u →
    (t.ofJson (String.ofList e)).result = .ok v → Ends rest →
    (¬ ∃ w r, rest = w ++ ']' :: r ∧ Tail false w) →
    ∃ f, skipItems rest = .error f ∧
      ((Ty.present t).read (u ++ '[' :: (e ++ rest))).result = .error f
  /-- Skipping the others goes on as long as there are any. -/
  skips : ∀ cs, skipItems cs = (nextItem false cs >>= fun x =>
    if x.1 then skipValue x.2 >>= fun y => skipItems y.2 else .ok ((), x.2))
  /-- It comes to an end, because every round leaves less of the text. -/
  shrinks : ∀ (cs r r' : List Char), nextItem false cs = .ok (true, r) →
    skipValue r = .ok ((), r') → r'.length < cs.length

theorem present_keeps_head (t : Ty) : t.KeepsHead where
  reads _ _ _ := read_present_iff
  reads_whole _ _ := ofJson_present_iff
  same_value e w w' x hw hw' hx := by
    obtain ⟨v, hv, rfl⟩ := exists_of_ofJson_present hw hx
    refine ofJson_present_iff.2 ⟨w', [], some e, [v], ?_, .nil, hw', .first hv, rfl⟩
    rw [String.toList_ofList, List.append_nil]
  same_outcome e w w' hw hw' := by
    rw [ofJson_present_filled hw, ofJson_present_filled hw']
  head_fault u cs f hu hc h := read_present_headFault hu hc h
  own_fault u e rest f hu hc hrest h hf := by
    obtain ⟨c, r, he⟩ := skipBlanks_of_error h hf
    refine read_present_headFault hu ?_ (read_append_of_error h hf hrest)
    rw [skipBlanks_append_of_cons he]
    rwa [he] at hc
  tail_fault u e rest v hu hv hrest htail := by
    obtain ⟨f, hf⟩ := exists_fault_of_not_tail htail
    obtain ⟨b, hb, hblank⟩ := ofJson_ofList.1 hv
    refine ⟨f, hf, ?_⟩
    rw [read_present_of_first hu hb hrest, afterHead_append hblank, afterHead_of_error hf]
    rfl
  skips cs := by
    refine (congrFun skipItems_eq cs).trans ?_
    unfold Scan.andThen
    congr 1
    funext x
    obtain ⟨_ | _, r⟩ := x
    · rfl
    · rfl
  shrinks cs r r' hnext hskip :=
    Nat.lt_of_lt_of_le (skipValue_local.takes hskip) (length_of_nextItem hnext)

/-- Arrays whose first element is true, an empty one, one whose first element is no truth value, and one
that ends behind a comma. -/
theorem present_keeps_head_truth :
    ((Ty.present .bool).ofJson "[true,[null]]").result = .ok (.holding true) ∧
      ((Ty.present .bool).ofJson (String.ofList "[true ]".toList)).result = .ok (.holding true) ∧
      ((Ty.present .bool).ofJson "[ ]").result = .ok .uninitialized ∧
      ((Ty.present .bool).read "[1,true]".toList).result =
        .error (.data (.invalidType (.integer 1) "a boolean")) ∧
      ∃ f, ((Ty.present .bool).read "[true,]".toList).result = .error f := by
  obtain ⟨-, reads_whole, same_value, -, -, own_fault, tail_fault, -, -⟩ := present_keeps_head .bool
  have htrue : (Ty.bool.ofJson (String.ofList ['t', 'r', 'u', 'e'])).result = .ok true :=
    ofJson_ofList.2 ⟨[], rfl, .nil⟩
  have htruth : Word (.part false) ['t', 'r', 'u', 'e'] := .item .nil .truth .nil
  have hlong : ArrayText (some ['t', 'r', 'u', 'e']) "[true,[null]]".toList :=
    .filled .nil htruth (.items .nil (.last _ (.item .nil
      (.group false (.last _ (.item .nil .null .nil))) .nil)))
  have hblank : Blank [' '] := List.forall_mem_singleton.2 rfl
  have hshort : ArrayText (some ['t', 'r', 'u', 'e']) "[true ]".toList :=
    .filled .nil htruth (.none hblank)
  have hempty : ArrayText none "[ ]".toList := .empty .nil hblank
  have hread : ((Ty.present .bool).ofJson "[true,[null]]").result = .ok (.holding true) :=
    (reads_whole _ _).2 ⟨_, [], _, [true, false], (List.append_nil _).symm, .nil, hlong,
      .first htrue, rfl⟩
  refine ⟨hread, ?_, ?_, ?_, ?_⟩
  · refine same_value _ "[true,[null]]".toList _ _ hlong hshort ?_
    rwa [String.ofList_toList]
  · exact (reads_whole _ _).2 ⟨_, [], _, [], (List.append_nil _).symm, .nil, hempty, .empty, rfl⟩
  · have hends : Ends ",true]".toList := by
      rintro c ⟨⟩
      decide
    exact own_fault [] ['1'] ",true]".toList _ .nil (by decide) hends rfl nofun
  · have hends : Ends ",]".toList := by
      rintro c ⟨⟩
      decide
    obtain ⟨f, -, hf⟩ := tail_fault [] ['t', 'r', 'u', 'e'] ",]".toList true .nil htrue hends (by
      rintro ⟨w, r, hw, htail⟩
      have hskip := skipItems_complete htail r
      rw [← hw] at hskip
      cases hskip)
    exact ⟨f, hf⟩

end Ty

end Refinement
