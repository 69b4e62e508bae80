import Refinement.Proofs.Grammar.Skipping

/-!
# Values that are read are those of the grammar

Whatever type a value is read as, the text that it is read from is a value of the grammar: types ask
for more than the grammar does, and never for less.

* `readScalar_takes`, `readScalarName_takes`: scalars, and scalars that stand as names.
* `readArray_takes`, `readObject_takes`: what is read between brackets or braces.
* `Ty.read_takes`: values of every type.
-/

namespace Refinement

namespace Json

open Grammar
open Scan (andThen mapTo)

variable {ε α β : Type} {object first : Bool} {u w : List Char}

/-! ## Scalars -/

theorem readAnyNumber_takes (expected : String) :
    Scan.Takes (fun _ => Spaced Numeral) (readAnyNumber expected) := by
  rw [readAnyNumber_eq]
  refine .front fun c => ?_
  split
  · next hc => exact (readNumber_takes true).imp fun hw => hc ▸ .negative hw
  split
  · refine ((readNumber_takes false).cons (fun _ hnil => ?_) c).imp .plain
    obtain ⟨_, _, hne, -⟩ := hnil.opens
    cases hne
  · exact .fail _

theorem readInteger_takes (kind : IntKind) :
    Scan.Takes (fun _ => Spaced Numeral) (readInteger kind) := by
  rw [readInteger_eq]
  split
  · refine .front fun c => (readWide_takes kind).cons (fun _ hnil => ?_) c
    obtain ⟨_, _, hne, -⟩ := hnil.opens
    cases hne
  · refine (readAnyNumber_takes _).close fun x => ?_
    cases x with
    | float x => exact .fail _
    | integer m =>
      dsimp only
      cases kind.ofInt? m with
      | some v => exact .pure rfl
      | none => exact .fail _

theorem readFloat_takes (f : FloatFormat) :
    Scan.Takes (fun _ => Spaced Numeral) (readFloat f) := by
  rw [readFloat_eq]
  exact (readAnyNumber_takes _).mapTo id

theorem readNull_takes (expected : String) :
    Scan.Takes (fun _ => Spaced (Word .value)) (readNull expected) := by
  rw [readNull_eq]
  refine .front fun c => ?_
  split
  · next hc =>
    rw [hc]
    exact (Scan.Takes.literal _).imp fun h => h ▸ .null
  · exact .fail _

theorem readBool_takes : Scan.Takes (fun _ => Spaced (Word .value)) readBool := by
  rw [readBool_eq]
  refine .front fun c => ?_
  split
  · next hc =>
    rw [hc]
    exact (Scan.Takes.literal _).mapTo fun h => h ▸ .truth
  split
  · next hc =>
    rw [hc]
    exact (Scan.Takes.literal _).mapTo fun h => h ▸ .falsehood
  · exact .fail _

/-- The name of a member. -/
inductive Grammar.Name : List Char → Prop where
  | mk {q : List Char} : Quoted q → Name ('"' :: q)

theorem Grammar.Name.value (h : Name w) : Word .value w := by
  obtain ⟨hq⟩ := h
  exact .text hq

theorem readString_takes (expected : String) :
    Scan.Takes (fun _ => Spaced Name) (readString expected) := by
  rw [readString_eq]
  refine .front fun c => ?_
  split
  · next hc => exact readText_takes.imp fun hw => hc ▸ .mk hw
  · exact .fail _

theorem readChar_takes : Scan.Takes (fun _ => Spaced Name) readChar := by
  rw [readChar_eq]
  refine (readString_takes _).close fun s => ?_
  match s with
  | [c] => exact .pure rfl
  | [] => exact .fail _
  | _ :: _ :: _ => exact .fail _

/-- What is read as a key is a value. -/
theorem readKey_takes (k : Key) : Scan.Takes (fun _ => Spaced (Word .value)) (readKey k) := by
  cases k with
  | int kind => exact (readInteger_takes kind).imp (Spaced.imp .number)
  | bool => exact readBool_takes
  | char => exact readChar_takes.imp (Spaced.imp Name.value)
  | text => exact (readString_takes "a string").mapTo (Spaced.imp Name.value)

/-- What is read as a scalar is a value. -/
theorem readScalar_takes : ∀ s : Scalar, Scan.Takes (fun _ => Spaced (Word .value)) (readScalar s)
  | .key k => readKey_takes k
  | .float f => (readFloat_takes f).imp (Spaced.imp .number)
  | .count => (readInteger_takes .usize).imp (Spaced.imp .number)

/-! ## Names -/

/-- Characters that stand for themselves. -/
def Grammar.Plain (w : List Char) : Prop := ∀ c ∈ w, c ≠ '"' ∧ c ≠ '\\' ∧ 32 ≤ c.toNat

instance Grammar.decidablePlain : DecidablePred Plain := fun w => List.decidableBAll _ w

theorem Grammar.Plain.quoted (h : Plain w) : Quoted (w ++ ['"']) := by
  induction w with
  | nil => exact .close
  | cons c w ih =>
    obtain ⟨⟨hq, hb, hc⟩, hw⟩ := List.forall_mem_cons.1 h
    exact Quoted.item (w := [c]) (.plain hq hb hc) (ih hw)

theorem Grammar.Plain.append {w' : List Char} (h : Plain w) (h' : Plain w') : Plain (w ++ w') :=
  List.forall_mem_append.2 ⟨h, h'⟩

theorem Grammar.Digits.isPlain {ds : List Char} (h : Digits ds) : Plain ds := fun d hd => by
  have hdigit := h.isDigit d hd
  refine ⟨?_, ?_, ?_⟩
  · rintro rfl
    cases hdigit
  · rintro rfl
    cases hdigit
  · unfold Char.isDigit at hdigit
    simp only [Bool.and_eq_true, decide_eq_true_eq] at hdigit
    exact Nat.le_trans (by decide) hdigit.1

theorem Grammar.Exponent.isPlain (h : Exponent w) : Plain w := by
  cases h with
  | none => exact nofun
  | digits he hd =>
    obtain ⟨hs, hd⟩ := hd
    have hsign : ∀ sign ∈ [[], ['+'], ['-']], Plain sign := by decide
    have hletter : Plain ['e', 'E'] := by decide
    exact List.forall_mem_cons.2 ⟨hletter _ he, (hsign _ hs).append hd.isPlain⟩

theorem Grammar.Unsigned.isPlain (h : Unsigned w) : Plain w := by
  obtain @⟨i, f, e, hi, hf, he⟩ := h
  have hwhole : Plain i := by
    cases hi with
    | zero => decide
    | digits _ hd => exact hd.isPlain
  have hfraction : Plain f := by
    cases hf with
    | none => exact nofun
    | digits hd => exact List.forall_mem_cons.2 ⟨by decide, hd.isPlain⟩
  exact hwhole.append (hfraction.append he.isPlain)

theorem Grammar.Numeral.isPlain (h : Numeral w) : Plain w := by
  cases h with
  | plain h => exact h.isPlain
  | negative h => exact List.forall_mem_cons.2 ⟨by decide, h.isPlain⟩

/-- In front of a number there are no blanks. -/
theorem ifNumber_takes {W : List Char → Prop} {s : Scan α}
    (h : Scan.Takes (fun _ => Spaced W) s) : Scan.Takes (fun _ => W) (ifNumber s) := by
  intro cs v r hs
  cases cs with
  | nil => cases hs
  | cons c cs =>
    rw [ifNumber, inFront_cons] at hs
    split at hs
    · next hc =>
      obtain ⟨_, hcs, @⟨u, w, hu, hw⟩⟩ := h hs
      cases u with
      | nil => exact ⟨w, hcs, hw⟩
      | cons d u =>
        have hblank := hu d List.mem_cons_self
        obtain ⟨rfl, -⟩ := List.cons.inj hcs
        unfold isBlank at hblank
        simp only [Bool.or_eq_true, beq_iff_eq] at hblank
        obtain ((rfl | rfl) | rfl) | rfl := hblank
        all_goals exact absurd hc (by decide)
    · cases hs

theorem readNumberName_takes {read : Scan α} (h : Scan.Takes (fun _ => Spaced Numeral) read) :
    Scan.Takes (fun _ => Name) (readNumberName read) := by
  rw [readNumberName_eq]
  refine (Scan.Takes.want (· == '"')).andThen (q := fun _ _ => Quoted) (fun _ => ?_) ?_
  · refine ifNumber_takes (h.andThen (q := fun _ _ w => w = ['"']) (fun v => ?_) ?_)
    · refine (Scan.Takes.want _).mapTo ?_
      rintro c w ⟨rfl, hc⟩
      rw [beq_iff_eq.1 hc]
    · rintro v b w _ ⟨hu, hw⟩ rfl
      rw [List.append_assoc]
      exact ⟨hu, hw.isPlain.quoted⟩
  · rintro c v _ w ⟨rfl, hc⟩ hw
    rw [beq_iff_eq.1 hc]
    exact ⟨hw⟩

theorem readBoolName_takes : Scan.Takes (fun _ => Name) readBoolName := by
  have hword : ∀ w ∈ [['t', 'r', 'u', 'e'], ['f', 'a', 'l', 's', 'e']], Plain w := by decide
  rw [readBoolName_eq]
  refine (Scan.Takes.want (· == '"')).andThen (q := fun _ _ => Quoted) (fun _ => ?_) ?_
  · refine .behind ?_ (.behind ?_ ?_)
    · exact (Scan.Takes.literal _).mapTo fun h => h ▸ (hword ['t', 'r', 'u', 'e'] (by decide)).quoted
    · exact (Scan.Takes.literal _).mapTo fun h =>
        h ▸ (hword ['f', 'a', 'l', 's', 'e'] (by decide)).quoted
    · intro cs v r hs
      obtain ⟨_, -, hs⟩ := exists_of_bind_ok hs
      cases hs
  · rintro c v _ w ⟨rfl, hc⟩ hw
    rw [beq_iff_eq.1 hc]
    exact ⟨hw⟩

theorem Grammar.Spaced.of {W : List Char → Prop} (h : W w) : Spaced W w := ⟨.nil, h⟩

/-- What is read as a scalar that stands as a name is a name. -/
theorem readScalarName_takes : ∀ s : Scalar,
    Scan.Takes (fun _ => Spaced Name) (readScalarName s)
  | .key (.int kind) => (readNumberName_takes (readInteger_takes kind)).imp .of
  | .key .bool => readBoolName_takes.imp .of
  | .key .char => readChar_takes
  | .key .text => (readString_takes "a string").mapTo id
  | .float f => (readNumberName_takes (readFloat_takes f)).imp .of
  | .count => (readNumberName_takes (readInteger_takes .usize)).imp .of

theorem readNoName_takes {p : α → List Char → Prop} (expected : String) :
    Reader.Takes (ε := ε) p (readNoName expected) := by
  intro cs v r hs
  unfold readNoName at hs
  dsimp only at hs
  rw [Reader.result_andThen] at hs
  obtain ⟨_, -, hs⟩ := exists_of_bind_ok hs
  cases hs

/-! ## Parts -/

/-- What stands between the marks of an object or array: from the first part on, or behind it. -/
def Grammar.Inner (object : Bool) : Bool → List Char → Prop
  | true, w => Blank w ∨ Word (.parts object) w
  | false, w => Tail object w

theorem Grammar.Inner.blank (h : Blank u) : Inner object first u := by
  cases first with
  | true => exact .inl h
  | false => exact .none h

/-- Parts behind what stands in front of them. -/
theorem Grammar.Inner.cons (h : Gap (!first) u) (hw : Word (.parts object) w) :
    Inner object first (u ++ w) := by
  cases first with
  | true =>
    obtain ⟨hu⟩ := h
    exact .inr (hw.behind_parts hu)
  | false =>
    obtain _ | ⟨hu, hu'⟩ := h
    rw [List.append_assoc, List.cons_append]
    exact .items hu (hw.behind_parts hu')

theorem Grammar.Inner.value (h : Inner object true w) (hu : Blank u) :
    Word .value (opening object :: (w ++ (u ++ [closing object]))) := by
  rw [← List.append_assoc]
  rcases h with hw | hw
  · exact .empty object (hw.append hu)
  · exact .group object (hw.ahead_parts hu)

theorem Grammar.Spaced.item (h : Spaced (Word .value) w) : Word (.part false) w := by
  obtain ⟨hu, hw⟩ := h
  have := Word.item hu hw .nil
  rwa [List.append_nil] at this

theorem onNext_takes {part : Scan Bool}
    (hp : Scan.Takes (fun more => Gap (more && !first)) part) {go stop : Reader ε α}
    (hgo : Reader.Takes (fun _ => Word (.parts object)) go)
    (hstop : Reader.Takes (fun _ w => w = []) stop) :
    Reader.Takes (fun _ => Inner object first) (onNext part go stop) := by
  refine (Reader.Takes.ofScan hp).andThen
    (q := fun more _ w => if more then Word (.parts object) w else w = []) (fun more => ?_) ?_
  · split
    · exact hgo
    · exact hstop
  · rintro more v u w hu hw
    cases more with
    | true => exact .cons hu hw
    | false =>
      obtain ⟨hu⟩ := hu
      cases hw
      rw [List.append_nil]
      exact .blank hu

section Loops

variable {read : Reader ε α}

theorem item_takes (h : Reader.Takes (fun _ => Spaced (Word .value)) read) {f : α → Reader ε β}
    (hf : ∀ v, Reader.Takes (fun _ => Tail false) (f v)) :
    Reader.Takes (fun _ => Word (.parts false)) fun cs => Reader.andThen (read cs) f :=
  h.andThen hf fun hw ht => hw.item.cons ht

theorem readItems_takes (h : Reader.Takes (fun _ => Spaced (Word .value)) read) :
    Reader.Takes (fun _ => Inner false true) (readItems read) := by
  suffices hall : ∀ fuel first,
      Reader.Takes (fun _ => Inner false first) (readItemsWith read fuel first) from
    fun _ _ _ hs => hall _ true hs
  intro fuel
  induction fuel with
  | zero => exact fun first => .fail _
  | succ fuel ih =>
    intro first
    rw [readItemsWith_succ]
    refine onNext_takes (nextItem_takes first) ?_ (.pure rfl)
    exact item_takes h fun v => (ih false).mapTo id

theorem readExactly_takes (h : Reader.Takes (fun _ => Spaced (Word .value)) read)
    (expected : String) (n i : Nat) :
    Reader.Takes (fun _ => Inner false (i == 0)) (readExactly read expected n i) := by
  induction n generalizing i with
  | zero => exact .pure (.blank .nil)
  | succ n ih =>
    rw [readExactly_succ]
    refine onNext_takes (nextItem_takes _) ?_ (.fail _)
    exact item_takes h fun v => (ih (i + 1)).mapTo id

theorem readPart_takes (expected : String) (i : Nat)
    (h : Reader.Takes (fun _ => Spaced (Word .value)) read) {others : Reader ε β}
    (ho : Reader.Takes (fun _ => Tail false) others) :
    Reader.Takes (fun _ => Inner false (i == 0)) (readPart expected i read others) := by
  rw [readPart_eq]
  refine onNext_takes (nextItem_takes _) ?_ (.fail _)
  exact item_takes h fun v => ho.mapTo id

theorem skipItems_takes : Scan.Takes (fun _ => Tail false) skipItems := by
  intro cs _ r hs
  obtain ⟨w, r', rfl, rfl, hw⟩ := skipItems_sound hs
  exact ⟨w, rfl, hw⟩

theorem readPresentItems_takes (wrap : List α → Log ε β)
    (h : Reader.Takes (fun _ => Spaced (Word .value)) read) :
    Reader.Takes (fun _ => Inner false true) (readPresentItems wrap read) := by
  rw [readPresentItems_eq]
  refine onNext_takes (nextItem_takes true) (item_takes h fun v => ?_) (.leaving _)
  exact (Reader.Takes.ofScan skipItems_takes).close fun _ => .leaving _

/-! ## Members -/

/-- What stands behind the name of a member. -/
inductive Grammar.Labelled : List Char → Prop where
  | mk {u w : List Char} : Blank u → Word (.part false) w → Labelled (u ++ ':' :: w)

theorem Grammar.Labelled.member {n : List Char} (h : Labelled w) (hn : Spaced Name n) :
    Word (.part true) (n ++ w) := by
  obtain ⟨hu, ⟨hq⟩⟩ := hn
  obtain ⟨hu', hw⟩ := h
  rw [List.append_assoc, List.cons_append]
  exact .member hu hq hu' hw

theorem readValue_takes (h : Reader.Takes (fun _ => Spaced (Word .value)) read) :
    Reader.Takes (fun _ => Labelled) (readValue read) := by
  have hcolon : Reader.Takes (ε := ε) (fun _ => Spaced (· = [':'])) (Reader.ofScan colon) := by
    rw [colon_eq]
    exact .ofScan (.mark ':')
  refine hcolon.andThen (fun _ => h) ?_
  rintro _ _ _ w ⟨hu, rfl⟩ hw
  rw [List.append_assoc]
  exact ⟨hu, hw.item⟩

theorem readEntry_takes {κ : Type} {o : TotalOrder κ} {name : Reader ε κ}
    (hn : Reader.Takes (fun _ => Spaced Name) name)
    (h : Reader.Takes (fun _ => Spaced (Word .value)) read) (m : SortedMap o α) :
    Reader.Takes (fun _ => Word (.part true)) (readEntry name read m) :=
  hn.andThen (fun _ => (readValue_takes h).mapTo (P := fun _ => Labelled) id)
    fun hn hw => hw.member hn

theorem readMembers_takes {member : α → Reader ε α}
    (h : ∀ state, Reader.Takes (fun _ => Word (.part true)) (member state)) (state : α) :
    Reader.Takes (fun _ => Inner true true) (readMembers member state) := by
  have hnext (first : Bool) : Scan.Takes (fun more => Gap (more && !first)) (nextName first) := by
    rw [nextName_eq]
    exact nextPart_takes _ _ _
  suffices hall : ∀ fuel first state,
      Reader.Takes (fun _ => Inner true first) (readMembersWith member fuel first state) from
    fun _ _ _ hs => hall _ true state hs
  intro fuel
  induction fuel with
  | zero => exact fun first state => .fail _
  | succ fuel ih =>
    intro first state
    rw [readMembersWith_succ]
    refine onNext_takes (hnext first) ?_ (.pure rfl)
    exact (h state).andThen (fun state => ih false state) fun hw ht => hw.cons ht

theorem readField_takes (label : String)
    (h : Reader.Takes (fun _ => Spaced (Word .value)) read) (state : Option α × β) :
    Reader.Takes (fun _ => Labelled) (readField label read state) := by
  unfold readField
  cases state.1 with
  | some v => exact .fail _
  | none => exact (readValue_takes h).mapTo id

theorem readFields_takes {field : List Char → α → Reader ε α}
    (h : ∀ name state, Reader.Takes (fun _ => Labelled) (field name state)) (state : α) :
    Reader.Takes (fun _ => Inner true true) (readFields field state) :=
  readMembers_takes (fun state => (Reader.Takes.ofScan (readString_takes "a field")).andThen
    (fun name => h name state) fun hn hw => hw.member hn) state

/-! ## Brackets -/

theorem readGroup_takes (object : Bool) (expected : String) {body : Reader ε α}
    (h : Reader.Takes (fun _ => Inner object true) body) :
    Reader.Takes (fun _ => Spaced (Word .value)) (readGroup object expected body) := by
  have hbetween : Reader.Takes (fun _ w => Word .value (opening object :: w)) fun cs =>
      Reader.andThen (body cs) fun v r =>
        Reader.mapTo (fun _ => v) (Reader.ofScan (mark (closing object)) r) := by
    refine h.andThen (q := fun _ _ => Spaced (· = [closing object])) (fun v => ?_) ?_
    · exact (Reader.Takes.ofScan (.mark (closing object))).mapTo id
    · rintro v _ w _ hw ⟨hu, rfl⟩
      exact hw.value hu
  intro cs v r hs
  unfold readGroup at hs
  dsimp only at hs
  obtain ⟨u, hu, hcs⟩ := exists_blank cs
  split at hs
  · cases hs
  · next c r' hr =>
    split at hs
    · next hc =>
      obtain ⟨w, rfl, hw⟩ := hbetween hs
      refine ⟨u ++ opening object :: w, ?_, hu, hw⟩
      rw [hcs, hr, hc, List.append_assoc, List.cons_append]
    · cases hs

theorem readArray_takes (expected : String) {body : Reader ε α}
    (h : Reader.Takes (fun _ => Inner false true) body) :
    Reader.Takes (fun _ => Spaced (Word .value)) (readArray expected body) := by
  rw [readArray_eq]
  exact readGroup_takes false expected h

theorem readObject_takes (expected : String) {body : Reader ε α}
    (h : Reader.Takes (fun _ => Inner true true) body) :
    Reader.Takes (fun _ => Spaced (Word .value)) (readObject expected body) := by
  rw [readObject_eq]
  exact readGroup_takes true expected h

/-- A reader of what is behind blanks. -/
theorem Reader.Takes.of_skipBlanks {W : List Char → Prop}
    (h : Reader.Takes (fun _ => Spaced W) read) {cs r : List Char} {v : α}
    (hs : (read (skipBlanks cs)).result = .ok (v, r)) : ∃ w, cs = w ++ r ∧ Spaced W w := by
  obtain ⟨u, hu, hcs⟩ := exists_blank cs
  obtain ⟨w, hr, hw⟩ := h hs
  exact ⟨u ++ w, by rw [List.append_assoc, ← hr, ← hcs], hw.behind hu⟩

theorem readRecord_takes (name : String) (size : Nat) {parts : String → Reader ε α}
    (hp : ∀ expected, Reader.Takes (fun _ => Inner false true) (parts expected))
    {fields : Reader ε β} (hf : Reader.Takes (fun _ => Inner true true) fields)
    (complete : β → Log ε (Except Fault α)) :
    Reader.Takes (fun _ => Spaced (Word .value))
      (readRecord name size parts fields complete) := by
  have hobject : Reader.Takes (fun _ => Inner true true) fun cs =>
      Reader.andThen (fields cs) fun state r => Reader.leaving r (complete state) :=
    hf.close fun state => .leaving _
  intro cs v r hs
  unfold readRecord at hs
  dsimp only at hs
  split at hs
  · next r' hr =>
    rw [← hr] at hs
    exact Reader.Takes.of_skipBlanks (readArray_takes _ (hp _)) hs
  · exact Reader.Takes.of_skipBlanks (readObject_takes _ hobject) hs

/-! ## Single values -/

theorem readOption_takes (h : Reader.Takes (fun _ => Spaced (Word .value)) read) :
    Reader.Takes (fun _ => Spaced (Word .value)) (readOption read) := by
  intro cs v r hs
  unfold readOption at hs
  dsimp only at hs
  split at hs
  · next r' hr =>
    have hnull : Reader.Takes (ε := ε) (fun (_ : Option α) w => Word .value ('n' :: w))
        fun r => Reader.mapTo (fun _ => none) (Reader.ofScan (literal ['u', 'l', 'l']) r) :=
      (Reader.Takes.ofScan (.literal _)).mapTo fun h => h ▸ .null
    obtain ⟨u, hu, hcs⟩ := exists_blank cs
    obtain ⟨w, rfl, hw⟩ := hnull hs
    exact ⟨u ++ 'n' :: w, by rw [hcs, hr, List.append_assoc, List.cons_append], hu, hw⟩
  · exact Reader.Takes.of_skipBlanks (h.mapTo id) hs

theorem readChecked_takes {p : List Char → Prop} (check : α → Log ε (Except Fault β))
    (h : Reader.Takes (fun _ => p) read) : Reader.Takes (fun _ => p) (readChecked check read) :=
  h.close fun v => .leaving (check v)

end Loops

end Json

/-! ## Values of every type -/

open Json Grammar

theorem Ty.readName_takes : ∀ t : Ty, Reader.Takes (fun _ => Spaced Name) t.readName
  | .scalar s => .ofScan (readScalarName_takes s)
  | .option t => t.readName_takes.mapTo id
  | .refined t p => readChecked_takes (t.check p) t.readName_takes
  | .list .. | .array .. | .set _ | .map .. | .present _ | .tuple _ | .record .. => readNoName_takes _

mutual

/-- What is read as a value of some type is a value of the grammar. -/
theorem Ty.read_takes : ∀ t : Ty, Reader.Takes (fun _ => Spaced (Word .value)) t.read
  | .scalar s => .ofScan (readScalar_takes s)
  | .list _ t => readArray_takes _ (readItems_takes t.read_takes)
  | .array t n => readArray_takes _ (readExactly_takes t.read_takes _ n 0)
  | .set t => readArray_takes _ ((readItems_takes t.read_takes).mapTo id)
  | .map k t => readObject_takes _
    (readMembers_takes (fun m => readEntry_takes k.readName_takes t.read_takes m) _)
  | .option t => readOption_takes t.read_takes
  | .refined t p => readChecked_takes (t.check p) t.read_takes
  | .present t => readArray_takes _ (readPresentItems_takes _ t.read_takes)
  | .tuple .nil => (Reader.Takes.ofScan (readNull_takes _)).mapTo (f := fun _ => ()) id
  | .tuple (.cons label t r) => readArray_takes _ ((Row.cons label t r).readParts_takes _ 0)
  | .record _ name r => readRecord_takes name r.size (fun expected => r.readParts_takes expected 0)
    (readFields_takes r.readNamed_takes _) r.complete

theorem Row.readParts_takes : ∀ (r : Row) (expected : String) (i : Nat),
    Reader.Takes (fun _ => Inner false (i == 0)) (r.readParts expected i)
  | .nil, _, _ => .pure (.blank .nil)
  | .cons _ t r, expected, i =>
    readPart_takes expected i t.read_takes (r.readParts_takes expected (i + 1))

theorem Row.readNamed_takes : ∀ (r : Row) (name : List Char) (s : r.Partial),
    Reader.Takes (fun _ => Labelled) (r.readNamed name s)
  | .nil, _, _ => (readValue_takes (.ofScan skipValue_takes)).mapTo id
  | .cons label t r, name, s =>
    .ite (readField_takes label t.read_takes s) ((r.readNamed_takes name s.2).mapTo id)

end

end Refinement
