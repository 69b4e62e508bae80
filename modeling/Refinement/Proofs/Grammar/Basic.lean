import Refinement.Proofs.Locality.Structure

/-!
# The grammar of JSON

Which texts are JSON values, told without a reader: numbers, texts, arrays and objects of any depth,
with blanks between their words. What a scan takes from the front of a text can be told in these
terms, one step of the scan after another.

* `Grammar.Numeral`, `Grammar.Quoted`: numbers, and texts behind their opening quotation mark.
* `Grammar.Word`: values, and the parts of arrays and objects.
* `Grammar.Tail`: what may stand between the first part and the closing mark.
* `Grammar.Word.opens`: how all of them begin.
* `Scan.Takes`, `Reader.Takes`: what scans and readers take.
-/

namespace Refinement.Json

namespace Grammar

/-- Blanks and nothing else. -/
def Blank (w : List Char) : Prop := ∀ c ∈ w, isBlank c = true

/-- A word of some kind with blanks in front of it. -/
inductive Spaced (W : List Char → Prop) : List Char → Prop where
  | mk {u w : List Char} : Blank u → W w → Spaced W (u ++ w)

/-! ## Numbers -/

/-- Decimal digits, of which there has to be one. -/
structure Digits (ds : List Char) : Prop where
  /-- There is one. -/
  ne_nil : ds ≠ []
  /-- They are digits. -/
  isDigit : ∀ d ∈ ds, d.isDigit = true

/-- The whole digits of a number: zero, or digits that do not begin with it. -/
inductive Whole : List Char → Prop where
  | zero : Whole ['0']
  | digits {c : Char} {ds : List Char} : c ≠ '0' → Digits (c :: ds) → Whole (c :: ds)

/-- The fraction of a number. -/
inductive Fraction : List Char → Prop where
  | none : Fraction []
  | digits {ds : List Char} : Digits ds → Fraction ('.' :: ds)

/-- Digits that may have a sign. -/
inductive Signed : List Char → Prop where
  | mk {sign ds : List Char} : sign ∈ [[], ['+'], ['-']] → Digits ds → Signed (sign ++ ds)

/-- The exponent of a number. -/
inductive Exponent : List Char → Prop where
  | none : Exponent []
  | digits {e : Char} {ds : List Char} : e ∈ ['e', 'E'] → Signed ds → Exponent (e :: ds)

/-- A number behind its sign. -/
inductive Unsigned : List Char → Prop where
  | mk {i f e : List Char} : Whole i → Fraction f → Exponent e → Unsigned (i ++ (f ++ e))

/-- A number. -/
inductive Numeral : List Char → Prop where
  | plain {w : List Char} : Unsigned w → Numeral w
  | negative {w : List Char} : Unsigned w → Numeral ('-' :: w)

/-! ## Texts -/

/-- A character of a text: one that stands for itself, or an escape. -/
inductive Item : List Char → Prop where
  | plain {c : Char} : c ≠ '"' → c ≠ '\\' → 32 ≤ c.toNat → Item [c]
  | escape {c : Char} : c ∈ ['"', '\\', '/', 'b', 'f', 'n', 'r', 't'] → Item ['\\', c]
  | codePoint {a b c d : Char} : (∀ x ∈ [a, b, c, d], (Text.hexDigitValue? x).isSome = true) →
    Item ['\\', 'u', a, b, c, d]

/-- The characters of a text, and its closing quotation mark. -/
inductive Quoted : List Char → Prop where
  | close : Quoted ['"']
  | item {w w' : List Char} : Item w → Quoted w' → Quoted (w ++ w')

/-! ## Values -/

/-- What a word is: a value, a part of an object or array with the blanks around it, or all parts
with commas between them. -/
inductive Piece where
  | value
  | part (object : Bool)
  | parts (object : Bool)

/-- The words of JSON. -/
inductive Word : Piece → List Char → Prop where
  | null : Word .value ['n', 'u', 'l', 'l']
  | truth : Word .value ['t', 'r', 'u', 'e']
  | falsehood : Word .value ['f', 'a', 'l', 's', 'e']
  | number {w : List Char} : Numeral w → Word .value w
  | text {w : List Char} : Quoted w → Word .value ('"' :: w)
  | empty (object : Bool) {w : List Char} : Blank w →
    Word .value (opening object :: (w ++ [closing object]))
  | group (object : Bool) {w : List Char} : Word (.parts object) w →
    Word .value (opening object :: (w ++ [closing object]))
  | item {u w u' : List Char} : Blank u → Word .value w → Blank u' →
    Word (.part false) (u ++ (w ++ u'))
  | member {u q u' w : List Char} : Blank u → Quoted q → Blank u' → Word (.part false) w →
    Word (.part true) (u ++ '"' :: (q ++ (u' ++ ':' :: w)))
  | last (object : Bool) {w : List Char} : Word (.part object) w → Word (.parts object) w
  | more (object : Bool) {w w' : List Char} : Word (.part object) w → Word (.parts object) w' →
    Word (.parts object) (w ++ ',' :: w')

/-- What may stand between the first part of an object or array and the closing mark: blanks, or a
comma and other parts. -/
inductive Tail (object : Bool) : List Char → Prop where
  | none {u : List Char} : Blank u → Tail object u
  | items {u w : List Char} : Blank u → Word (.parts object) w → Tail object (u ++ ',' :: w)

/-! ## Blanks -/

theorem Blank.nil : Blank [] := nofun

theorem Blank.append {u u' : List Char} (h : Blank u) (h' : Blank u') : Blank (u ++ u') :=
  List.forall_mem_append.2 ⟨h, h'⟩

theorem skipBlanks_append {u : List Char} (h : Blank u) (r : List Char) :
    skipBlanks (u ++ r) = skipBlanks r :=
  List.dropWhile_append_of_pos h

/-- The blanks that are skipped. -/
theorem exists_blank (cs : List Char) : ∃ u, Blank u ∧ cs = u ++ skipBlanks cs :=
  ⟨cs.takeWhile isBlank, List.all_eq_true.1 List.all_takeWhile,
    List.takeWhile_append_dropWhile.symm⟩

theorem blank_of_skipBlanks {u : List Char} (h : skipBlanks u = []) : Blank u := by
  obtain ⟨u', hu', hu⟩ := exists_blank u
  rw [h, List.append_nil] at hu
  rwa [hu]

theorem Blank.skipBlanks_eq {u : List Char} (h : Blank u) : skipBlanks u = [] := by
  have := skipBlanks_append h []
  rwa [List.append_nil] at this

theorem Spaced.behind {W : List Char → Prop} {u w : List Char} (h : Spaced W w) (hu : Blank u) :
    Spaced W (u ++ w) := by
  obtain ⟨hu', hw⟩ := h
  rw [← List.append_assoc]
  exact ⟨hu.append hu', hw⟩

theorem Spaced.imp {V W : List Char → Prop} (h : ∀ {w}, V w → W w) {w : List Char} :
    Spaced V w → Spaced W w
  | ⟨hu, hw⟩ => ⟨hu, h hw⟩

namespace Word

variable {object : Bool} {u w : List Char}

/-- Blanks in front of a part belong to it. -/
theorem behind (h : Word (.part object) w) (hu : Blank u) : Word (.part object) (u ++ w) := by
  cases h with
  | item hu' hw hu'' =>
    rw [← List.append_assoc]
    exact .item (hu.append hu') hw hu''
  | member hu' hq hu'' hw =>
    rw [← List.append_assoc]
    exact .member (hu.append hu') hq hu'' hw

/-- Blanks behind an item belong to it. -/
theorem ahead_item (h : Word (.part false) w) (hu : Blank u) : Word (.part false) (w ++ u) := by
  cases h with
  | item hu' hw hu'' =>
    rw [List.append_assoc, List.append_assoc]
    exact .item hu' hw (hu''.append hu)

/-- Blanks behind a part belong to it. -/
theorem ahead (h : Word (.part object) w) (hu : Blank u) : Word (.part object) (w ++ u) := by
  cases h with
  | item hu' hw hu'' => exact ahead_item (.item hu' hw hu'') hu
  | member hu' hq hu'' hw =>
    simp only [List.append_assoc, List.cons_append]
    exact .member hu' hq hu'' (hw.ahead_item hu)

/-- Parts are one part, or a part in front of others. -/
@[elab_as_elim]
theorem parts_induction {motive : ∀ w, Word (.parts object) w → Prop}
    (last : ∀ {w} (h : Word (.part object) w), motive w (.last object h))
    (more : ∀ {w w'} (h : Word (.part object) w) (h' : Word (.parts object) w'), motive w' h' →
      motive (w ++ ',' :: w') (.more object h h')) (h : Word (.parts object) w) : motive w h := by
  suffices hall : ∀ {p w} (h : Word p w), (hp : p = .parts object) → motive w (hp ▸ h) from hall h rfl
  intro p w h
  induction h with
  | last _ h =>
    rintro ⟨⟩
    exact last h
  | more _ h h' _ ih =>
    rintro ⟨⟩
    exact more h h' (ih rfl)
  | _ => nofun

/-- Blanks in front of the first part belong to it. -/
theorem behind_parts (h : Word (.parts object) w) (hu : Blank u) :
    Word (.parts object) (u ++ w) := by
  cases h with
  | last _ h => exact .last _ (h.behind hu)
  | more _ h h' =>
    rw [← List.append_assoc]
    exact .more _ (h.behind hu) h'

/-- Blanks behind the last part belong to it. -/
theorem ahead_parts (h : Word (.parts object) w) (hu : Blank u) :
    Word (.parts object) (w ++ u) := by
  induction h using parts_induction with
  | last h => exact .last _ (h.ahead hu)
  | more h _ ih =>
    rw [List.append_assoc, List.cons_append]
    exact .more _ h ih

/-- A part, and what stands between it and the closing mark. -/
theorem cons {t : List Char} (h : Word (.part object) w) (ht : Tail object t) :
    Word (.parts object) (w ++ t) := by
  cases ht with
  | none hu => exact .last _ (h.ahead hu)
  | items hu hw =>
    rw [← List.append_assoc]
    exact .more _ (h.ahead hu) hw

end Word

/-! ## How words begin -/

theorem not_mem_enders_of_isDigit {c : Char} (h : c.isDigit = true) : c ∉ enders := by
  intro hc
  rw [not_of_mem_enders (p := Char.isDigit) (by decide) hc] at h
  exact Bool.false_ne_true h

theorem Unsigned.opens {w : List Char} (h : Unsigned w) :
    ∃ c w', w = c :: w' ∧ c.isDigit = true := by
  obtain ⟨hi, -, -⟩ := h
  cases hi with
  | zero => exact ⟨'0', _, rfl, rfl⟩
  | digits _ hd => exact ⟨_, _, rfl, hd.isDigit _ List.mem_cons_self⟩

theorem Numeral.opens {w : List Char} (h : Numeral w) : ∃ c w', w = c :: w' ∧ c ∉ enders := by
  cases h with
  | plain h =>
    obtain ⟨c, w', rfl, hc⟩ := h.opens
    exact ⟨c, w', rfl, not_mem_enders_of_isDigit hc⟩
  | negative => exact ⟨'-', _, rfl, by decide⟩

/-- A value begins with a character that ends none. -/
theorem Word.value_cons {w : List Char} (h : Word .value w) : ∃ c w', w = c :: w' ∧ c ∉ enders := by
  cases h with
  | null => exact ⟨'n', _, rfl, by decide⟩
  | truth => exact ⟨'t', _, rfl, by decide⟩
  | falsehood => exact ⟨'f', _, rfl, by decide⟩
  | number h => exact h.opens
  | text => exact ⟨'"', _, rfl, by decide⟩
  | empty object => exact ⟨opening object, _, rfl, by cases object <;> decide⟩
  | group object => exact ⟨opening object, _, rfl, by cases object <;> decide⟩

/-- A word begins in this way behind blanks. -/
theorem Word.opens {p : Piece} {w : List Char} (h : Word p w) :
    ∃ u c w', Blank u ∧ w = u ++ c :: w' ∧ c ∉ enders := by
  have hvalue {w : List Char} (h : Word .value w) :
      ∃ u c w', Blank u ∧ w = u ++ c :: w' ∧ c ∉ enders := by
    obtain ⟨c, w', rfl, hc⟩ := h.value_cons
    exact ⟨[], c, w', .nil, rfl, hc⟩
  induction h with
  | null => exact hvalue .null
  | truth => exact hvalue .truth
  | falsehood => exact hvalue .falsehood
  | number h => exact hvalue (.number h)
  | text h => exact hvalue (.text h)
  | empty object h => exact hvalue (.empty object h)
  | group object h => exact hvalue (.group object h)
  | @item u w u' hu hw =>
    obtain ⟨c, w', rfl, hc⟩ := hw.value_cons
    exact ⟨u, c, w' ++ u', hu, by rw [List.cons_append], hc⟩
  | member hu => exact ⟨_, '"', _, hu, rfl, by decide⟩
  | last _ _ ih => exact ih
  | more _ _ _ ih =>
    obtain ⟨v, c, w', hv, rfl, hc⟩ := ih
    exact ⟨v, c, _, hv, by rw [List.append_assoc, List.cons_append], hc⟩

theorem isBlank_of_not_mem_enders {c : Char} (h : c ∉ enders) : isBlank c = false := by
  unfold isBlank
  simp only [enders, List.mem_cons, not_or] at h
  simp only [Bool.or_eq_false_iff, beq_eq_false_iff_ne]
  exact ⟨⟨⟨h.1, h.2.1⟩, h.2.2.1⟩, h.2.2.2.1⟩

/-- What is found first in a word. -/
theorem Word.skipBlanks_eq {p : Piece} {w : List Char} (h : Word p w) (r : List Char) :
    ∃ c w', skipBlanks (w ++ r) = c :: w' ∧ c ∉ enders := by
  obtain ⟨u, c, w', hu, rfl, hc⟩ := h.opens
  refine ⟨c, w' ++ r, ?_, hc⟩
  rw [List.append_assoc, skipBlanks_append hu]
  exact List.dropWhile_cons_of_neg (ne_true_of_eq_false (isBlank_of_not_mem_enders hc))

/-- Blanks, and what ends a value. -/
theorem Blank.ends {u r : List Char} (h : Blank u) (hr : Ends r) : Ends (u ++ r) := by
  cases u with
  | nil => exact hr
  | cons c u =>
    rintro d ⟨⟩
    have hc := h c List.mem_cons_self
    refine Decidable.byContradiction fun hd => ?_
    rw [isBlank_of_not_mem_enders hd] at hc
    exact Bool.false_ne_true hc

end Grammar

/-! ## What is taken -/

open Grammar

variable {ε α β : Type}

/-- A scan takes texts of some kind, which may depend on the value that it comes to. -/
def Scan.Takes (p : α → List Char → Prop) (s : Scan α) : Prop :=
  ∀ ⦃cs v r⦄, s cs = .ok (v, r) → ∃ w, cs = w ++ r ∧ p v w

/-- A reader takes texts of some kind. -/
def Reader.Takes (p : α → List Char → Prop) (read : Reader ε α) : Prop :=
  Scan.Takes p fun cs => (read cs).result

namespace Scan.Takes

variable {p : α → List Char → Prop} {q : α → β → List Char → Prop} {P : β → List Char → Prop}
  {s s' : Scan α}

theorem imp (h : Takes p s) {p' : α → List Char → Prop} (hp : ∀ {v w}, p v w → p' v w) :
    Takes p' s := fun _ _ _ hs =>
  let ⟨w, hcs, hw⟩ := h hs
  ⟨w, hcs, hp hw⟩

theorem pure {v : α} (h : p v []) : Takes p fun r => .ok (v, r) := by
  rintro cs w r ⟨⟩
  exact ⟨[], rfl, h⟩

theorem fail (e : List Char → Fault) : Takes p fun cs => .error (e cs) := nofun

theorem andThen (h : Takes p s) {f : α → Scan β} (hf : ∀ v, Takes (q v) (f v))
    (hq : ∀ {v b w w'}, p v w → q v b w' → P b (w ++ w')) : Takes P (s.andThen f) := by
  intro cs b r hs
  obtain ⟨⟨v, r'⟩, hv, hb⟩ := exists_of_bind_ok hs
  obtain ⟨w, rfl, hw⟩ := h hv
  obtain ⟨w', rfl, hw'⟩ := hf v hb
  exact ⟨w ++ w', (List.append_assoc _ _ _).symm, hq hw hw'⟩

theorem mapTo (h : Takes p s) {f : α → β} (hf : ∀ {v w}, p v w → P (f v) w) :
    Takes P (s.mapTo f) := by
  intro cs b r hs
  obtain ⟨v, hv, rfl⟩ := Scan.exists_of_mapTo_ok hs
  obtain ⟨w, hcs, hw⟩ := h hv
  exact ⟨w, hcs, hf hw⟩

/-- What follows takes nothing. -/
theorem close {W : List Char → Prop} (h : Takes (fun _ => W) s) {f : α → Scan β}
    (hf : ∀ v, Takes (fun _ w => w = []) (f v)) : Takes (fun _ => W) (s.andThen f) := by
  refine h.andThen hf ?_
  rintro v b w _ hw rfl
  rwa [List.append_nil]

/-- A scan whose first character has been looked at, and that takes it. -/
theorem cons (h : Takes p s) (hne : ∀ v, ¬ p v []) (c : Char) :
    Takes (fun v w => p v (c :: w)) fun r => s (c :: r) := by
  intro cs v r hs
  obtain ⟨w, hcs, hw⟩ := h hs
  cases w with
  | nil => exact absurd hw (hne v)
  | cons d w =>
    obtain ⟨rfl, rfl⟩ := List.cons.inj hcs
    exact ⟨w, rfl, hw⟩

theorem next : Takes (fun c w => w = [c]) next := by
  intro cs c r hs
  cases cs with
  | nil => cases hs
  | cons d cs =>
    cases hs
    exact ⟨[c], rfl, rfl⟩

theorem peek : Takes (fun _ => Blank) peek := by
  intro cs c r hs
  obtain ⟨u, hu, hcs⟩ := exists_blank cs
  refine ⟨u, ?_, hu⟩
  cases h : skipBlanks cs with
  | nil =>
    rw [peek_of_nil h] at hs
    cases hs
  | cons d r' =>
    rw [peek_of_cons h] at hs
    cases hs
    rw [hcs, h, ← h]

/-- What goes on behind blanks. -/
theorem front {W : β → List Char → Prop} {f : Char → Scan β}
    (hf : ∀ c, Takes (fun v w => W v (c :: w)) (f c)) :
    Takes (fun v => Spaced (W v)) (Scan.andThen front f) := by
  intro cs v r hs
  obtain ⟨⟨c, r'⟩, hc, hv⟩ := exists_of_bind_ok hs
  obtain ⟨u, hu, hcs⟩ := exists_blank cs
  obtain ⟨w, hw, hW⟩ := hf c hv
  cases h : skipBlanks cs with
  | nil =>
    rw [front_of_nil h] at hc
    cases hc
  | cons d r'' =>
    rw [front_of_cons h] at hc
    cases hc
    refine ⟨u ++ c :: w, ?_, .mk hu hW⟩
    have hr : r' = w ++ r := hw
    rw [hcs, h, hr, List.append_assoc, List.cons_append]

theorem literal (ws : List Char) : Takes (fun _ w => w = ws) (literal ws) := by
  intro cs v r hs
  refine ⟨ws, ?_, rfl⟩
  induction ws generalizing cs with
  | nil =>
    cases hs
    rfl
  | cons c ws ih =>
    cases cs with
    | nil => cases hs
    | cons d cs =>
      unfold Json.literal at hs
      split at hs
      · next hd => rw [hd, ih hs, List.cons_append]
      · cases hs

theorem mark (m : Char) : Takes (fun _ => Spaced (· = [m])) (mark m) :=
  front fun c => by
    split
    · next h => exact .pure (by rw [h])
    · exact .fail _

theorem want (P : Char → Bool) : Takes (fun c w => w = [c] ∧ P c = true) (want P) := by
  intro cs c r hs
  cases cs with
  | nil => cases hs
  | cons d cs =>
    rw [want_cons] at hs
    split at hs
    · next h =>
      cases hs
      exact ⟨[c], rfl, rfl, h⟩
    · cases hs

theorem ite {c : Prop} [Decidable c] (h : Takes p s) (h' : Takes p s') :
    Takes p fun cs => if c then s cs else s' cs := by
  split
  · exact h
  · exact h'

theorem ifDigit (h : Takes p s) (h' : Takes p s') : Takes p (ifDigit s s') := by
  intro cs v r hs
  unfold Json.ifDigit at hs
  split at hs
  · exact h hs
  · exact h' hs

theorem behind {c : Char} (h : Takes (fun v w => p v (c :: w)) s) (h' : Takes p s') :
    Takes p (behind c s s') := by
  intro cs v r hs
  cases cs with
  | nil => exact h' hs
  | cons d cs =>
    rw [behind_cons] at hs
    split at hs
    · next hd =>
      obtain ⟨w, rfl, hw⟩ := h hs
      exact ⟨c :: w, by rw [hd, List.cons_append], hw⟩
    · exact h' hs

end Scan.Takes

namespace Reader.Takes

variable {p : α → List Char → Prop} {q : α → β → List Char → Prop} {P : β → List Char → Prop}
  {read : Reader ε α}

theorem ofScan {s : Scan α} (h : Scan.Takes p s) : Takes (ε := ε) p (Reader.ofScan s) := h

theorem pure {v : α} (h : p v []) : Takes (ε := ε) p fun r => Pure.pure (.ok (v, r)) :=
  Scan.Takes.pure h

theorem fail (e : List Char → Fault) : Takes (ε := ε) p fun cs => Reader.fail (e cs) := nofun

theorem andThen (h : Takes p read) {f : α → Reader ε β} (hf : ∀ v, Takes (q v) (f v))
    (hq : ∀ {v b w w'}, p v w → q v b w' → P b (w ++ w')) :
    Takes P fun cs => Reader.andThen (read cs) f := by
  intro cs b r hs
  refine Scan.Takes.andThen (f := fun v r => (f v r).result) h hf hq ?_
  change (Reader.andThen (read cs) f).result = _ at hs
  rwa [Reader.result_andThen] at hs

theorem mapTo (h : Takes p read) {f : α → β} (hf : ∀ {v w}, p v w → P (f v) w) :
    Takes P fun cs => Reader.mapTo f (read cs) := by
  refine h.andThen (q := fun v b w => b = f v ∧ w = []) (fun v => .pure ⟨rfl, rfl⟩) ?_
  rintro v _ w _ hw ⟨rfl, rfl⟩
  rw [List.append_nil]
  exact hf hw

/-- What does not look at the text takes nothing. -/
theorem leaving (x : Log ε (Except Fault α)) :
    Takes (fun _ w => w = []) fun r => Reader.leaving r x := by
  intro cs v r hs
  obtain ⟨l, _ | w⟩ := x
  · cases hs
  · cases hs
    exact ⟨[], rfl, rfl⟩

/-- What follows takes nothing. -/
theorem close {W : List Char → Prop} (h : Takes (fun _ => W) read) {f : α → Reader ε β}
    (hf : ∀ v, Takes (fun _ w => w = []) (f v)) :
    Takes (fun _ => W) fun cs => Reader.andThen (read cs) f := by
  refine h.andThen hf ?_
  rintro v b w _ hw rfl
  rwa [List.append_nil]

theorem ite {c : Prop} [Decidable c] {read' : Reader ε α} (h : Takes p read)
    (h' : Takes p read') : Takes p (if c then read else read') := by
  split
  · exact h
  · exact h'

end Reader.Takes

end Refinement.Json
