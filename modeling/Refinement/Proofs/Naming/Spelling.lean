import Refinement.Proofs.Naming.Quoted
import Refinement.TypeName

/-!
# Type names read back from their letters

How a type name is laid out, apart from its letters: words with arguments, tuples and sequences.
The marks that separate the parts do not stand in plain words, and quoted characters show where they
end, so the letters of a name give its layout back, whatever follows the name.

* `Spelling.write`: the letters of a name in front of other letters.
* `Spelling.write_inj`: the letters determine the name and where it ends.
* `TypeName.write_spelling`: the text of a type name is its spelling, written.
-/

namespace Refinement

/-- The layout of a name. -/
inductive Spelling where
  /-- A word with its arguments. -/
  | word (letters : List Char) (arguments : List Spelling)
  /-- A tuple. -/
  | tuple (items : List Spelling)
  /-- A sequence, perhaps of a fixed length. -/
  | sequence (item : Spelling) (length : Option Nat)

namespace Spelling

/-! ## Letters -/

/-- What stands behind the only item of a tuple. -/
def tupleEnd : List Spelling → List Char
  | [] => [',']
  | _ :: _ => []

/-- What stands behind the item of a sequence. -/
def lengthLetters : Option Nat → List Char
  | none => []
  | some n => ';' :: ' ' :: Nat.toDigits 10 n

mutual

/-- The letters of a name in front of `r`. -/
def write : Spelling → List Char → List Char
  | .word w as, r => w ++ writeArguments as r
  | .tuple as, r => '(' :: writeItems as r
  | .sequence a n, r => '[' :: a.write (lengthLetters n ++ ']' :: r)

/-- The letters of the arguments of a word in front of `r`. -/
def writeArguments : List Spelling → List Char → List Char
  | [], r => r
  | a :: as, r => '<' :: a.write (writeTail as ('>' :: r))

/-- The letters of the items of a tuple in front of `r`. -/
def writeItems : List Spelling → List Char → List Char
  | [], r => ')' :: r
  | a :: as, r => a.write (writeTail as (tupleEnd as ++ ')' :: r))

/-- The letters of the names that follow the first of a list, in front of `r`. -/
def writeTail : List Spelling → List Char → List Char
  | [], r => r
  | a :: as, r => ',' :: ' ' :: a.write (writeTail as r)

end

/-! ## Words -/

/-- The marks that stand behind a name. -/
def closers : List Char := [',', '>', ')', ']', ';']

/-- The marks that do not stand in a plain word. -/
def marks : List Char := '<' :: '\'' :: '(' :: '[' :: closers

/-- A plain word: some letters, and no marks among them. -/
def isPlain (w : List Char) : Bool := !w.isEmpty && w.all fun c => !marks.contains c

/-- Words are plain or a quoted character. -/
inductive IsWord : List Char → Prop where
  | plain {w : List Char} (h : isPlain w = true) : IsWord w
  | quoted (c : Char) : IsWord (Text.quoteChar c)

/-- A name ends in front of `r`: nothing stands there, or a mark that closes. -/
def IsEnd (r : List Char) : Prop := ∀ c ∈ r.head?, c ∈ closers

theorem isPlain_iff {w : List Char} : isPlain w = true ↔ w ≠ [] ∧ ∀ c ∈ w, c ∉ marks := by
  simp [isPlain]

theorem isPlain_append {w v : List Char} (hw : isPlain w = true) (hv : isPlain v = true) :
    isPlain (w ++ v) = true := by
  obtain ⟨hne, hw⟩ := isPlain_iff.1 hw
  exact isPlain_iff.2 ⟨List.append_ne_nil_of_left_ne_nil hne v,
    List.forall_mem_append.2 ⟨hw, (isPlain_iff.1 hv).2⟩⟩

theorem mem_marks {c : Char} (h : c ∈ '(' :: '[' :: closers) : c ∈ marks :=
  List.mem_cons_of_mem _ (List.mem_cons_of_mem _ h)

theorem mem_marks_of_mem_closers {c : Char} (h : c ∈ closers) : c ∈ marks :=
  mem_marks (List.mem_cons_of_mem _ (List.mem_cons_of_mem _ h))

theorem isEnd_cons {c : Char} {r : List Char} (h : c ∈ closers) : IsEnd (c :: r) := by
  simpa [IsEnd] using h

theorem not_mem_marks_of_isDigit {c : Char} (h : c.isDigit = true) : c ∉ marks := by
  have hmarks : marks.all (fun d => !d.isDigit) = true := by decide
  intro hc
  simpa [h] using List.all_eq_true.1 hmarks c hc

theorem not_mem_marks_of_mem_toDigits (n : Nat) : ∀ c ∈ Nat.toDigits 10 n, c ∉ marks :=
  fun _ h => not_mem_marks_of_isDigit (Nat.isDigit_of_mem_toDigits (by decide) (by decide) h)

/-- Integers are plain words. -/
theorem isPlain_toString_int (n : Int) : isPlain (toString n).toList = true := by
  refine isPlain_iff.2 ⟨?_, fun c hc => ?_⟩
  · rw [Text.toList_toString_int]
    split
    · exact Nat.toDigits_ne_nil
    · exact List.cons_ne_nil _ _
  · rcases Text.isDigit_of_mem_toString_int hc with hdigit | rfl
    · exact not_mem_marks_of_isDigit hdigit
    · decide

/-- No plain word starts with a mark. -/
theorem plain_append_ne_cons {w r s : List Char} (h : isPlain w = true) {c : Char}
    (hc : c ∈ marks) : w ++ r ≠ c :: s := by
  obtain ⟨hne, hw⟩ := isPlain_iff.1 h
  obtain ⟨d, w, rfl⟩ := List.exists_cons_of_ne_nil hne
  intro heq
  have hd : d = c := (List.cons.inj heq).1
  exact hw d List.mem_cons_self (hd ▸ hc)

/-- Words are told apart in front of marks. -/
theorem IsWord.append_inj {w w' r s : List Char} (hw : IsWord w) (hw' : IsWord w')
    (hr : ∀ c ∈ r.head?, c ∈ marks) (hs : ∀ c ∈ s.head?, c ∈ marks) (h : w ++ r = w' ++ s) :
    w = w' ∧ r = s := by
  cases hw with
  | plain hw =>
    cases hw' with
    | plain hw' =>
      exact Text.append_inj_of_stops (isPlain_iff.1 hw).2 (isPlain_iff.1 hw').2 hr hs h
    | quoted d => exact absurd h (plain_append_ne_cons hw (by decide))
  | quoted c =>
    cases hw' with
    | plain hw' => exact absurd h.symm (plain_append_ne_cons hw' (by decide))
    | quoted d =>
      obtain ⟨rfl, hrs⟩ := Text.quoteChar_append_inj h
      exact ⟨rfl, hrs⟩

/-- No word starts with a bracket or with a mark that closes. -/
theorem IsWord.append_ne_cons {w r s : List Char} (h : IsWord w) {c : Char}
    (hc : c ∈ '(' :: '[' :: closers) : w ++ r ≠ c :: s := by
  cases h with
  | plain h => exact plain_append_ne_cons h (mem_marks hc)
  | quoted d =>
    intro heq
    have hd : '\'' = c := (List.cons.inj heq).1
    exact absurd (hd ▸ hc) (by decide)

/-! ## Legible names -/

mutual

/-- All words of the name are words. -/
def Legible : Spelling → Prop
  | .word w as => IsWord w ∧ AllLegible as
  | .tuple as => AllLegible as
  | .sequence a _ => a.Legible

/-- All words of the names of a list are words. -/
def AllLegible : List Spelling → Prop
  | [] => True
  | a :: as => a.Legible ∧ AllLegible as

end

/-- No name starts with a mark that closes. -/
theorem Legible.write_ne_cons {t : Spelling} (h : t.Legible) {c : Char} {r s : List Char}
    (hc : c ∈ closers) : t.write r ≠ c :: s := by
  cases t with
  | word w as => exact h.1.append_ne_cons (List.mem_cons_of_mem _ (List.mem_cons_of_mem _ hc))
  | tuple as =>
    intro heq
    exact absurd ((List.cons.inj heq).1 ▸ hc) (by decide)
  | sequence a n =>
    intro heq
    exact absurd ((List.cons.inj heq).1 ▸ hc) (by decide)

/-! ## Names are told apart -/

theorem isEnd_writeTail (as : List Spelling) {r : List Char} (h : IsEnd r) :
    IsEnd (writeTail as r) := by
  cases as with
  | nil => exact h
  | cons a as => exact isEnd_cons (by decide)

theorem stops_writeArguments (as : List Spelling) {r : List Char} (h : IsEnd r) :
    ∀ c ∈ (writeArguments as r).head?, c ∈ marks := by
  cases as with
  | nil => exact fun c hc => mem_marks_of_mem_closers (h c hc)
  | cons a as => simp [writeArguments, marks]

theorem isEnd_tupleEnd (as : List Spelling) (r : List Char) : IsEnd (tupleEnd as ++ ')' :: r) := by
  cases as with
  | nil => exact isEnd_cons (by decide)
  | cons a as => exact isEnd_cons (by decide)

theorem isEnd_lengthLetters (n : Option Nat) (r : List Char) :
    IsEnd (lengthLetters n ++ ']' :: r) := by
  cases n with
  | none => exact isEnd_cons (by decide)
  | some n => exact isEnd_cons (by decide)

theorem lengthLetters_inj {m n : Option Nat} {r s : List Char}
    (h : lengthLetters m ++ ']' :: r = lengthLetters n ++ ']' :: s) : m = n ∧ r = s := by
  cases m with
  | none =>
    cases n with
    | none => exact ⟨rfl, (List.cons.inj h).2⟩
    | some n => exact absurd (List.cons.inj h).1 (by decide)
  | some m =>
    cases n with
    | none => exact absurd (List.cons.inj h).1 (by decide)
    | some n =>
      have hstop : ∀ {t : List Char}, ∀ c ∈ (']' :: t).head?, c ∈ marks := by simp [marks, closers]
      obtain ⟨hmn, hrs⟩ := Text.append_inj_of_stops (not_mem_marks_of_mem_toDigits m)
        (not_mem_marks_of_mem_toDigits n) hstop hstop (List.cons.inj (List.cons.inj h).2).2
      exact ⟨congrArg some (Text.toDigits_ten_injective hmn), (List.cons.inj hrs).2⟩

mutual

/-- The letters of a name determine the name and where it ends. -/
theorem write_inj : ∀ (t u : Spelling), t.Legible → u.Legible → ∀ {r s : List Char},
    IsEnd r → IsEnd s → t.write r = u.write s → t = u ∧ r = s
  | .word _ as, .word _ bs, ⟨hw, has⟩, ⟨hw', hbs⟩, _, _, hr, hs, h => by
    obtain ⟨rfl, harguments⟩ :=
      hw.append_inj hw' (stops_writeArguments as hr) (stops_writeArguments bs hs) h
    obtain ⟨rfl, hrs⟩ := writeArguments_inj as bs has hbs hr hs harguments
    exact ⟨rfl, hrs⟩
  | .tuple as, .tuple bs, has, hbs, _, _, _, _, h => by
    obtain ⟨rfl, hrs⟩ := writeItems_inj as bs has hbs (List.cons.inj h).2
    exact ⟨rfl, hrs⟩
  | .sequence a m, .sequence b n, ha, hb, r, s, _, _, h => by
    obtain ⟨rfl, hlength⟩ := write_inj a b ha hb (isEnd_lengthLetters m r)
      (isEnd_lengthLetters n s) (List.cons.inj h).2
    obtain ⟨rfl, hrs⟩ := lengthLetters_inj hlength
    exact ⟨rfl, hrs⟩
  | .word _ _, .tuple _, ⟨hw, _⟩, _, _, _, _, _, h => absurd h (hw.append_ne_cons (by decide))
  | .word _ _, .sequence _ _, ⟨hw, _⟩, _, _, _, _, _, h =>
    absurd h (hw.append_ne_cons (by decide))
  | .tuple _, .word _ _, _, ⟨hw, _⟩, _, _, _, _, h =>
    absurd h.symm (hw.append_ne_cons (by decide))
  | .sequence _ _, .word _ _, _, ⟨hw, _⟩, _, _, _, _, h =>
    absurd h.symm (hw.append_ne_cons (by decide))
  | .tuple _, .sequence _ _, _, _, _, _, _, _, h => absurd (List.cons.inj h).1 (by decide)
  | .sequence _ _, .tuple _, _, _, _, _, _, _, h => absurd (List.cons.inj h).1 (by decide)

theorem writeArguments_inj : ∀ (as bs : List Spelling), AllLegible as → AllLegible bs →
    ∀ {r s : List Char}, IsEnd r → IsEnd s →
    writeArguments as r = writeArguments bs s → as = bs ∧ r = s
  | [], [], _, _, _, _, _, _, h => ⟨rfl, h⟩
  | [], _ :: _, _, _, r, _, hr, _, h => by
    have hopen : '<' ∈ closers := hr '<' (by rw [show r = _ from h]; rfl)
    exact absurd hopen (by decide)
  | _ :: _, [], _, _, _, s, _, hs, h => by
    have hopen : '<' ∈ closers := hs '<' (by rw [show s = _ from h.symm]; rfl)
    exact absurd hopen (by decide)
  | a :: as, b :: bs, ⟨ha, has⟩, ⟨hb, hbs⟩, r, s, _, _, h => by
    obtain ⟨rfl, htail⟩ := write_inj a b ha hb (isEnd_writeTail as (isEnd_cons (by decide)))
      (isEnd_writeTail bs (isEnd_cons (by decide))) (List.cons.inj h).2
    obtain ⟨rfl, hrs⟩ := writeTail_inj as bs has hbs (by decide) (by decide) htail
    exact ⟨rfl, hrs⟩

theorem writeItems_inj : ∀ (as bs : List Spelling), AllLegible as → AllLegible bs →
    ∀ {r s : List Char}, writeItems as r = writeItems bs s → as = bs ∧ r = s
  | [], [], _, _, _, _, h => ⟨rfl, (List.cons.inj h).2⟩
  | [], _ :: _, _, ⟨hb, _⟩, _, _, h => absurd h.symm (hb.write_ne_cons (by decide))
  | _ :: _, [], ⟨ha, _⟩, _, _, _, h => absurd h (ha.write_ne_cons (by decide))
  | a :: as, b :: bs, ⟨ha, has⟩, ⟨hb, hbs⟩, r, s, h => by
    obtain ⟨rfl, hrest⟩ := write_inj a b ha hb (isEnd_writeTail as (isEnd_tupleEnd as r))
      (isEnd_writeTail bs (isEnd_tupleEnd bs s)) h
    obtain ⟨rfl, hrs⟩ := writeRest_inj as bs has hbs hrest
    exact ⟨rfl, hrs⟩

/-- The comma behind the only item of a tuple has no space behind it. -/
theorem writeRest_inj : ∀ (as bs : List Spelling), AllLegible as → AllLegible bs →
    ∀ {r s : List Char},
    writeTail as (tupleEnd as ++ ')' :: r) = writeTail bs (tupleEnd bs ++ ')' :: s) →
    as = bs ∧ r = s
  | [], [], _, _, _, _, h => ⟨rfl, (List.cons.inj (List.cons.inj h).2).2⟩
  | [], _ :: _, _, _, _, _, h => absurd (List.cons.inj (List.cons.inj h).2).1 (by decide)
  | _ :: _, [], _, _, _, _, h => absurd (List.cons.inj (List.cons.inj h).2).1 (by decide)
  | a :: as, b :: bs, ⟨ha, has⟩, ⟨hb, hbs⟩, r, s, h => by
    obtain ⟨rfl, htail⟩ := write_inj a b ha hb (isEnd_writeTail as (isEnd_cons (by decide)))
      (isEnd_writeTail bs (isEnd_cons (by decide))) (List.cons.inj (List.cons.inj h).2).2
    obtain ⟨rfl, hrs⟩ := writeTail_inj as bs has hbs (by decide) (by decide) htail
    exact ⟨rfl, hrs⟩

theorem writeTail_inj : ∀ (as bs : List Spelling), AllLegible as → AllLegible bs →
    ∀ {c : Char} {r s : List Char}, c ∈ closers → c ≠ ',' →
    writeTail as (c :: r) = writeTail bs (c :: s) → as = bs ∧ r = s
  | [], [], _, _, _, _, _, _, _, h => ⟨rfl, (List.cons.inj h).2⟩
  | [], _ :: _, _, _, _, _, _, _, hcomma, h => absurd (List.cons.inj h).1 hcomma
  | _ :: _, [], _, _, _, _, _, _, hcomma, h => absurd (List.cons.inj h).1.symm hcomma
  | a :: as, b :: bs, ⟨ha, has⟩, ⟨hb, hbs⟩, c, r, s, hc, hcomma, h => by
    obtain ⟨rfl, htail⟩ := write_inj a b ha hb (isEnd_writeTail as (isEnd_cons hc))
      (isEnd_writeTail bs (isEnd_cons hc)) (List.cons.inj (List.cons.inj h).2).2
    obtain ⟨rfl, hrs⟩ := writeTail_inj as bs has hbs hc hcomma htail
    exact ⟨rfl, hrs⟩

end

end Spelling

/-! ## Type names -/

namespace TypeName

/-- A name with the place where it stands. -/
def path (place : List String) (name : String) : String :=
  String.join (place.map (· ++ "::")) ++ name

theorem isPlain_path {place : List String} {name : String}
    (hplace : ∀ s ∈ place, Spelling.isPlain s.toList = true)
    (hname : Spelling.isPlain name.toList = true) :
    Spelling.isPlain (path place name).toList = true := by
  induction place with
  | nil => simpa [path] using hname
  | cons s place ih =>
    obtain ⟨hs, hplace⟩ := List.forall_mem_cons.1 hplace
    have hpath : (path (s :: place) name).toList =
        (s.toList ++ [':', ':']) ++ (path place name).toList := by
      simp [path]
    rw [hpath]
    exact Spelling.isPlain_append (Spelling.isPlain_append hs (by decide)) (ih hplace)

mutual

/-- The layout of a type name. -/
def spelling : TypeName → Spelling
  | .named place name as => .word (path place name).toList (spellings as)
  | .tuple as => .tuple (spellings as)
  | .slice a => .sequence a.spelling none
  | .array a n => .sequence a.spelling (some n)
  | .literal t => .word t.toList []

/-- The layouts of the names of a list. -/
def spellings : List TypeName → List Spelling
  | [] => []
  | a :: as => a.spelling :: spellings as

end

mutual

/-- The text of a type name is its spelling, written. -/
theorem write_spelling : ∀ (t : TypeName) (r : List Char), t.spelling.write r = t.text.toList ++ r
  | .named place name [], r => by
    simp [spelling, spellings, Spelling.write, Spelling.writeArguments, text, path]
  | .named place name (a :: as), r => by
    simp [spelling, spellings, Spelling.write, Spelling.writeArguments, text, path,
      write_spelling a, writeTail_spellings as]
  | .tuple [], r => by
    simp [spelling, spellings, Spelling.write, Spelling.writeItems, text]
  | .tuple [a], r => by
    simp [spelling, spellings, Spelling.write, Spelling.writeItems, Spelling.writeTail,
      Spelling.tupleEnd, text, write_spelling a]
  | .tuple (a :: b :: as), r => by
    simp [spelling, spellings, Spelling.write, Spelling.writeItems, Spelling.writeTail,
      Spelling.tupleEnd, text, write_spelling a, write_spelling b, writeTail_spellings as]
  | .slice a, r => by
    simp [spelling, Spelling.write, Spelling.lengthLetters, text, write_spelling a]
  | .array a n, r => by
    simp [spelling, Spelling.write, Spelling.lengthLetters, text, write_spelling a]
  | .literal t, r => by
    simp [spelling, Spelling.write, Spelling.writeArguments, text]

theorem writeTail_spellings : ∀ (as : List TypeName) (r : List Char),
    Spelling.writeTail (spellings as) r = (textTail as).toList ++ r
  | [], r => by simp [spellings, Spelling.writeTail, textTail]
  | a :: as, r => by
    simp [spellings, Spelling.writeTail, textTail, write_spelling a, writeTail_spellings as]

end

/-- Legible names are told apart by their texts. -/
theorem spelling_eq_of_text_eq {t u : TypeName} (ht : t.spelling.Legible) (hu : u.spelling.Legible)
    (h : t.text = u.text) : t.spelling = u.spelling := by
  have hnothing : Spelling.IsEnd [] := by simp [Spelling.IsEnd]
  refine (Spelling.write_inj _ _ ht hu hnothing hnothing ?_).1
  rw [write_spelling, write_spelling, h]

end TypeName

end Refinement
