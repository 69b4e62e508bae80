import Refinement.Proofs.Grammar.LastingScalars

/-!
# Complete values last

No reader of values finds that a value of the grammar ends too early, of whatever type it reads them.
Inside arrays and objects readers come from one place of the grammar to the next, or to a place where
nothing of the grammar stands and where the text is malformed.

* `Grammar.AtValue`, `Grammar.AtPart`, `Grammar.Amid`: the places where readers begin.
* `Reader.Steady`: what is known of the readers of items and members.
* `nextOf_lasts`, `readGroup_lasts`: from place to place, and between the marks.
* `Ty.read_lasts`, `Ty.read_ne_truncated`: values of every type.
-/

namespace Refinement

namespace Json

open Grammar
open Scan (andThen mapTo)

variable {ε α β : Type} {object first : Bool} {u w r cs : List Char} {R : List Char → Prop}

/-! ## Readers that last -/

/-- A reader does not run out of the texts of some kind, and leaves texts of another kind. -/
def Reader.Lasts (P : List Char → Prop) (read : Reader ε α) (Q : α → List Char → Prop) : Prop :=
  Scan.Lasts P (fun cs => (read cs).result) Q

/-- What takes `k` characters leaves so many fewer. -/
theorem Scan.Lasts.shorter {P : List Char → Prop} {Q : α → List Char → Prop} {s : Scan α} {k j : Nat}
    (h : Scan.Lasts P s Q) (hl : Scan.Local k j s) (n : Nat) :
    Scan.Lasts (fun cs => P cs ∧ cs.length < n + k) s fun v r => Q v r ∧ r.length < n :=
  fun _ hcs => (h hcs.1).imp fun _ _ hs hq => ⟨hq, by have := hl.takes hs; have := hcs.2; omega⟩

namespace Reader.Lasts

variable {P : List Char → Prop} {Q : α → List Char → Prop} {S : β → List Char → Prop}
  {read : Reader ε α}

theorem ofScan {s : Scan α} (h : Scan.Lasts P s Q) : Lasts (ε := ε) P (Reader.ofScan s) Q := h

theorem pure {v : α} (h : ∀ cs, P cs → Q v cs) :
    Lasts (ε := ε) P (fun r => Pure.pure (.ok (v, r))) Q := h

theorem fail {f : Fault} (hf : f ≠ .truncated) : Lasts (ε := ε) P (fun _ => Reader.fail f) Q :=
  fun _ _ => hf

theorem andThen (h : Lasts P read Q) {f : α → Reader ε β} (hf : ∀ v, Lasts (Q v) (f v) S) :
    Lasts P (fun cs => Reader.andThen (read cs) f) S := by
  intro cs hcs
  dsimp only
  rw [Reader.result_andThen]
  exact Scan.Lasts.andThen (f := fun v r => (f v r).result) h hf hcs

theorem mapTo (h : Lasts P read Q) {f : α → β} (hf : ∀ v r, Q v r → S (f v) r) :
    Lasts P (fun cs => Reader.mapTo f (read cs)) S :=
  h.andThen fun v => .pure (hf v)

/-- What does not look at the text leaves it as it is. -/
theorem leaving {x : Log ε (Except Fault α)} (hx : x.result ≠ .error .truncated) :
    Lasts (fun cs => R cs) (fun r => Reader.leaving r x) fun _ => R := by
  intro cs hcs
  obtain ⟨l, f | v⟩ := x
  · exact fun hf => hx (congrArg Except.error hf)
  · exact hcs

theorem shorter {k j : Nat} (h : Lasts P read Q) (hl : Reader.Local k j read) (n : Nat) :
    Lasts (fun cs => P cs ∧ cs.length < n + k) read fun v r => Q v r ∧ r.length < n :=
  fun _ hcs => (h hcs.1).imp fun _ _ hs hq => ⟨hq, by have := hl.takes hs; have := hcs.2; omega⟩

theorem ite {c : Prop} [Decidable c] {read' : Reader ε α} (h : Lasts P read Q)
    (h' : Lasts P read' Q) : Lasts P (if c then read else read') Q := by
  split
  · exact h
  · exact h'

/-- A part is followed by another one or by none. -/
theorem onNext {part : Scan Bool} {W V : List Char → Prop}
    (h : Scan.Lasts P part fun more r => if more then W r else V r) {go stop : Reader ε α}
    (hgo : Lasts W go Q) (hstop : Lasts V stop Q) : Lasts P (onNext part go stop) Q := by
  refine (ofScan h).andThen fun more => ?_
  cases more with
  | true => exact hgo
  | false => exact hstop

/-- The same of texts that are shorter than `n`. -/
theorem onNext_shorter {part : Scan Bool} {W V : List Char → Prop}
    (h : Scan.Lasts P part fun more r => if more then W r else V r) {j n : Nat}
    (hl : Scan.Local 0 j part) {go stop : Reader ε α}
    (hgo : Lasts (fun cs => W cs ∧ cs.length < n) go Q) (hstop : Lasts V stop Q) :
    Lasts (fun cs => P cs ∧ cs.length < n) (Json.onNext part go stop) Q := by
  refine onNext (W := fun r => W r ∧ r.length < n) ((h.shorter hl n).imp (fun _ h => h) ?_) hgo hstop
  intro more r hr
  cases more with
  | true => exact hr
  | false => exact hr.1

end Reader.Lasts

/-! ## Places in a text -/

/-- A value behind blanks, and behind it a text of the kind `R`. -/
def Grammar.AtValue (R : List Char → Prop) (cs : List Char) : Prop :=
  Before (Word .value) R (skipBlanks cs)

/-- What stands inside an object or array up to its closing mark, and whatever stands behind that. -/
inductive Grammar.Inside (object first : Bool) : List Char → Prop where
  | mk {w r : List Char} : Inner object first w → Inside object first (w ++ closing object :: r)

/-- The place behind the opening mark, or behind a part that was read. What stands there is of the
grammar, or, where less than the part was read, something that ends no value. -/
inductive Grammar.Amid (object : Bool) : Bool → List Char → Prop where
  | inside {first : Bool} {cs : List Char} : Inside object first cs → Amid object first cs
  | stray {cs : List Char} : ¬ Ends cs → Amid object false cs

/-- The place where an item begins, or a member with its name. -/
def Grammar.AtPart : Bool → List Char → Prop
  | false => AtValue (Inside false false)
  | true => Before Name (Before Labelled (Inside true false))

/-- There is something other than blanks. -/
def Grammar.Nonblank (cs : List Char) : Prop := skipBlanks cs ≠ []

/-- No blanks stand in front of a value. -/
theorem Grammar.Word.skipBlanks_value (h : Word .value w) (r : List Char) :
    skipBlanks (w ++ r) = w ++ r := by
  obtain ⟨c, v, rfl, hc⟩ := h.value_cons
  exact skipBlanks_of_not_blank (isBlank_of_not_mem_enders hc) _

theorem Grammar.Word.atValue (h : Word (.part false) w)
    (hR : ∀ {u r}, Blank u → R r → R (u ++ r)) (hr : R r) : AtValue R (w ++ r) := by
  cases h with
  | item hu hw hu' =>
    rw [AtValue, List.append_assoc, List.append_assoc, skipBlanks_append hu, hw.skipBlanks_value]
    exact .mk hw (hR hu' hr)

theorem Grammar.AtValue.skipBlanks (h : AtValue R cs) : AtValue R (skipBlanks cs) := by
  rwa [AtValue, skipBlanks_skipBlanks]

theorem Grammar.AtValue.exists_cons (h : AtValue R cs) :
    ∃ c r, Json.skipBlanks cs = c :: r ∧ c ∉ enders := by
  unfold AtValue at h
  generalize Json.skipBlanks cs = cs at h
  obtain ⟨hw, -⟩ := h
  obtain ⟨c, v, rfl, hc⟩ := hw.value_cons
  exact ⟨c, _, rfl, hc⟩

theorem Grammar.AtValue.evident (h : AtValue Ends cs) : Evident (Json.skipBlanks cs) := by
  unfold AtValue at h
  generalize Json.skipBlanks cs = cs at h
  obtain ⟨hw, hr⟩ := h
  exact hw.evident hr

theorem Grammar.AtValue.imp {R' : List Char → Prop} (h : AtValue R cs) (hR : ∀ r, R r → R' r) :
    AtValue R' cs :=
  Before.imp (fun _ h => h) hR _ h

theorem Grammar.Tail.behind (h : Tail object w) (hu : Blank u) : Tail object (u ++ w) := by
  cases h with
  | none hu' => exact .none (hu.append hu')
  | items hu' hw =>
    rw [← List.append_assoc]
    exact .items (hu.append hu') hw

theorem Grammar.Inside.behind (hu : Blank u) (h : Inside object false cs) :
    Inside object false (u ++ cs) := by
  obtain ⟨hw⟩ := h
  rw [← List.append_assoc]
  exact ⟨Tail.behind hw hu⟩

theorem Grammar.Inside.ends (h : Inside object false cs) : Ends cs := by
  obtain ⟨hw⟩ := h
  exact Tail.ends hw _

theorem exists_of_not_ends (h : ¬ Ends cs) : ∃ c r, cs = c :: r ∧ c ∉ enders := by
  cases cs with
  | nil => exact absurd Ends.nil h
  | cons c r =>
    refine ⟨c, r, rfl, fun hc => h ?_⟩
    rintro d ⟨⟩
    exact hc

theorem Grammar.Inside.nonblank (h : Inside object first cs) : Nonblank cs := by
  obtain @⟨w, r, -⟩ := h
  intro hblank
  have hmem : closing object ∈ w ++ closing object :: r :=
    List.mem_append_right w List.mem_cons_self
  have hclosing := blank_of_skipBlanks hblank _ hmem
  rw [isBlank_closing] at hclosing
  cases hclosing

theorem Grammar.Amid.nonblank (h : Amid object first cs) : Nonblank cs := by
  cases h with
  | inside h => exact h.nonblank
  | stray h =>
    obtain ⟨c, r, rfl, hc⟩ := exists_of_not_ends h
    rw [Nonblank, skipBlanks_of_not_blank (isBlank_of_not_mem_enders hc)]
    exact List.cons_ne_nil c r

/-! ## From place to place -/

theorem mark_lasts (m : Char) : Scan.Lasts Nonblank (mark m) fun _ _ => True := by
  refine Scan.Lasts.front (W := fun _ => True) (fun cs h => ?_) fun c => ?_
  · obtain ⟨c, r, hcs⟩ := List.exists_cons_of_ne_nil h
    exact ⟨c, r, hcs, trivial⟩
  · split
    · exact .pure fun _ _ => trivial
    · exact .fail nofun

/-- Several parts are a first one and what may stand between it and the closing mark. -/
theorem Grammar.Word.exists_tail (h : Word (.parts object) w) :
    ∃ v t, w = v ++ t ∧ Word (.part object) v ∧ Tail object t := by
  cases h with
  | last _ h => exact ⟨w, [], (List.append_nil w).symm, h, .none .nil⟩
  | more _ h h' => exact ⟨_, _, rfl, h, .items .nil h'⟩

theorem Grammar.Inner.cases (h : Inner object first w) : Blank w ∨
    ∃ u v t, w = u ++ (v ++ t) ∧ Gap (!first) u ∧ Word (.part object) v ∧ Tail object t := by
  cases first with
  | true =>
    refine h.imp id fun hw => ?_
    obtain ⟨v, t, rfl, hv, ht⟩ := hw.exists_tail
    exact ⟨[], v, t, rfl, .blank .nil, hv, ht⟩
  | false =>
    cases h with
    | none hu => exact .inl hu
    | @items u w hu hw =>
      obtain ⟨v, t, rfl, hv, ht⟩ := hw.exists_tail
      refine .inr ⟨u ++ [','], v, t, ?_, .comma hu .nil, hv, ht⟩
      rw [List.append_assoc, List.singleton_append]

/-- What a part begins with. -/
theorem Grammar.Word.atPart (h : Word (.part object) w) (hr : Inside object false r) :
    ∃ c r', Json.skipBlanks (w ++ r) = c :: r' ∧ begins object c = true ∧ AtPart object (c :: r') := by
  cases object with
  | false =>
    have hat := h.atValue Inside.behind hr
    obtain ⟨c, r', hcs, hc⟩ := hat.exists_cons
    exact ⟨c, r', hcs, bne_iff_ne.2 (not_mem_enders_ne_closing hc false), hcs ▸ hat.skipBlanks⟩
  | true =>
    cases h with
    | @member u q u' w hu hq hu' hw =>
      refine ⟨'"', q ++ ((u' ++ ':' :: w) ++ r), ?_, rfl, .mk (w := '"' :: q) ⟨hq⟩ ⟨⟨hu', hw⟩, hr⟩⟩
      simp only [List.append_assoc, List.cons_append]
      rw [skipBlanks_append hu, skipBlanks_of_not_blank (by decide)]

/-- Another part follows, or the closing mark, or something that is malformed. -/
theorem nextOf_lasts (object first : Bool) : Scan.Lasts (Amid object first) (nextOf object first)
    fun more r => if more then AtPart object r else Inside object false r := by
  rintro _ (hin | hstray)
  · obtain @⟨w, r, hw⟩ := hin
    rcases hw.cases with hu | ⟨u, v, t, rfl, hgap, hv, ht⟩
    · rw [nextOf_closing object first hu]
      exact Inside.mk (w := []) (.none .nil)
    · obtain ⟨c, r', hcs, hc, hat⟩ := hv.atPart (.mk (r := r) ht)
      rw [List.append_assoc, List.append_assoc, nextOf_part object first hgap hcs hc]
      exact hat
  · obtain ⟨c, r, rfl, hc⟩ := exists_of_not_ends hstray
    rw [nextOf_stray object hc]
    nofun

theorem nextItem_lasts (first : Bool) : Scan.Lasts (Amid false first) (nextItem first)
    fun more r => if more then AtPart false r else Inside false false r := by
  rw [nextItem_eq]
  exact nextOf_lasts false first

theorem nextName_lasts (first : Bool) : Scan.Lasts (Amid true first) (nextName first)
    fun more r => if more then AtPart true r else Inside true false r := by
  rw [nextName_eq]
  exact nextOf_lasts true first

theorem skipItems_lasts : Scan.Lasts (Amid false false) skipItems fun _ => Nonblank := by
  rintro _ (hin | hstray)
  · obtain @⟨w, r, hw⟩ := hin
    have hskip := skipItems_complete hw r
    rw [closing, if_neg Bool.false_ne_true, hskip]
    have hclosing : Inside false false ([] ++ closing false :: r) := ⟨.none .nil⟩
    exact hclosing.nonblank
  · obtain ⟨c, r, rfl, hc⟩ := exists_of_not_ends hstray
    rw [skipItems_stray hc]
    exact Fault.noConfusion

theorem colon_lasts : Scan.Lasts (Before Labelled (Inside true false)) colon
    fun _ => AtValue (Inside true false) := by
  rintro _ ⟨⟨hu, hw⟩, hr⟩
  have hmark := mark_append hu (m := ':') (by decide)
  rw [colon_eq, List.append_assoc, List.cons_append, hmark]
  exact hw.atValue Inside.behind hr

/-! ## Values, items and members -/

/-- What is known of a reader of values: it takes them from the front of a text, looks at nothing
behind them, and does not run out of those of the grammar. -/
structure Reader.Steady (read : Reader ε α) : Prop where
  takes : Reader.Takes (fun _ => Spaced (Word .value)) read
  isLocal : Reader.Local 1 1 read
  lasts : Reader.Lasts (AtValue Ends) read fun _ _ => True

section Loops

variable {read : Reader ε α}

/-- A value is read to its end, or leaves something that cannot go on there. -/
theorem Reader.Steady.amid (h : Reader.Steady read) :
    Reader.Lasts (AtValue (Inside object false)) read fun _ => Amid object false := by
  refine (h.lasts.imp (fun cs h => h.imp fun _ => Inside.ends) fun _ _ h => h).leaves ?_
  intro cs v r hat hs
  obtain ⟨w, rfl, @⟨u, w, hu, hw⟩⟩ := h.takes hs
  by_cases hr : Ends r
  · -- what is read is skipped up to there, and so is the value of the grammar
    have hskip := hw.isSkipped hr
    rw [AtValue, List.append_assoc, skipBlanks_append hu, hw.skipBlanks_value] at hat
    generalize w ++ r = cs at hat hskip
    obtain ⟨hw', hr'⟩ := hat
    rw [hw'.isSkipped hr'.ends] at hskip
    cases hskip
    exact .inside hr'
  · exact .stray hr

theorem readItems_lasts (h : Reader.Steady read) :
    Reader.Lasts (Amid false true) (readItems read) fun _ => Nonblank := by
  suffices hall : ∀ fuel first, Reader.Lasts (fun cs => Amid false first cs ∧ cs.length < fuel)
      (readItemsWith read fuel first) fun _ => Nonblank from
    fun cs hcs => hall _ true ⟨hcs, Nat.lt_succ_self _⟩
  intro fuel
  induction fuel with
  | zero => exact fun first cs hcs => absurd hcs.2 (Nat.not_lt_zero _)
  | succ fuel ih =>
    intro first
    rw [readItemsWith_succ]
    refine .onNext_shorter (nextItem_lasts first) (nextItem_local first) ?_
      (.pure fun _ => Inside.nonblank)
    exact (h.amid.shorter h.isLocal fuel).andThen fun v => (ih false).mapTo fun _ _ h => h

theorem readExactly_lasts (h : Reader.Steady read) (expected : String) (n i : Nat) :
    Reader.Lasts (Amid false (i == 0)) (readExactly read expected n i) fun _ => Nonblank := by
  induction n generalizing i with
  | zero => exact .pure fun _ => Amid.nonblank
  | succ n ih =>
    rw [readExactly_succ]
    refine .onNext (nextItem_lasts _) (h.amid.andThen fun v => ?_) (.fail nofun)
    exact (ih (i + 1)).mapTo fun _ _ h => h

theorem readPart_lasts (expected : String) (i : Nat) (h : Reader.Steady read) {others : Reader ε β}
    (ho : Reader.Lasts (Amid false false) others fun _ => Nonblank) :
    Reader.Lasts (Amid false (i == 0)) (readPart expected i read others) fun _ => Nonblank := by
  rw [readPart_eq]
  refine .onNext (nextItem_lasts _) (h.amid.andThen fun v => ?_) (.fail nofun)
  exact ho.mapTo fun _ _ h => h

theorem readPresentItems_lasts (wrap : List α → Log ε β) (h : Reader.Steady read) :
    Reader.Lasts (Amid false true) (readPresentItems wrap read) fun _ => Nonblank := by
  have hwrap (vs : List α) :
      (Except.ok (ε := Fault) <$> wrap vs).result ≠ .error .truncated := nofun
  rw [readPresentItems_eq]
  refine .onNext (nextItem_lasts true) (h.amid.andThen fun v => ?_) ?_
  · exact (Reader.Lasts.ofScan skipItems_lasts).andThen fun _ => .leaving (hwrap [v])
  · exact fun r hr => Reader.Lasts.leaving (hwrap []) hr.nonblank

theorem readValue_lasts (h : Reader.Steady read) :
    Reader.Lasts (Before Labelled (Inside true false)) (readValue read) fun _ => Amid true false :=
  (Reader.Lasts.ofScan colon_lasts).andThen fun _ => h.amid

theorem readEntry_lasts {κ : Type} {o : TotalOrder κ} {name : Reader ε κ}
    (hn : ∀ R, Reader.Lasts (Before Name R) name fun _ => R) (h : Reader.Steady read)
    (m : SortedMap o α) : Reader.Lasts (AtPart true) (readEntry name read m) fun _ => Amid true false :=
  (hn _).andThen fun _ => (readValue_lasts h).mapTo fun _ _ h => h

theorem readMembers_lasts {member : α → Reader ε α} (hl : ∀ state, Reader.Local 1 1 (member state))
    (h : ∀ state, Reader.Lasts (AtPart true) (member state) fun _ => Amid true false) (state : α) :
    Reader.Lasts (Amid true true) (readMembers member state) fun _ => Nonblank := by
  suffices hall : ∀ fuel first state,
      Reader.Lasts (fun cs => Amid true first cs ∧ cs.length < fuel)
        (readMembersWith member fuel first state) fun _ => Nonblank from
    fun cs hcs => hall _ true state ⟨hcs, Nat.lt_succ_self _⟩
  intro fuel
  induction fuel with
  | zero => exact fun first state cs hcs => absurd hcs.2 (Nat.not_lt_zero _)
  | succ fuel ih =>
    intro first state
    rw [readMembersWith_succ]
    refine .onNext_shorter (nextName_lasts first) (nextName_local first) ?_
      (.pure fun _ => Inside.nonblank)
    exact ((h state).shorter (hl state) fuel).andThen fun state => ih false state

theorem readField_lasts (label : String) (h : Reader.Steady read) (state : Option α × β) :
    Reader.Lasts (Before Labelled (Inside true false)) (readField label read state)
      fun _ => Amid true false := by
  unfold readField
  cases state.1 with
  | some v => exact .fail nofun
  | none => exact (readValue_lasts h).mapTo fun _ _ h => h

theorem readFields_lasts {field : List Char → α → Reader ε α}
    (hl : ∀ name state, Reader.Local 1 1 (field name state))
    (h : ∀ name state, Reader.Lasts (Before Labelled (Inside true false)) (field name state)
      fun _ => Amid true false) (state : α) :
    Reader.Lasts (Amid true true) (readFields field state) fun _ => Nonblank := by
  refine readMembers_lasts (fun state => ?_) (fun state => ?_) state
  · exact (Reader.Local.ofScan (readString_local "a field")).follow fun name =>
      (hl name state).weaken
  · exact (Reader.Lasts.ofScan (readString_lasts_name "a field")).andThen fun name => h name state

/-! ## Objects and arrays -/

theorem Grammar.Before.amid (h : Before (Word .value) R (opening object :: r)) :
    Amid object true r := by
  generalize hcs : opening object :: r = cs at h
  obtain ⟨hw, -⟩ := h
  have hopening {o : Bool} {c : Char} (hc : opening o = c) (hne : c ∉ ['[', '\x7b']) : False := by
    cases o <;> exact hne (hc ▸ by decide)
  have hinside {o : Bool} {v s : List Char} (ho : opening object = opening o) (hv : Inner o true v)
      (hr : r = (v ++ [closing o]) ++ s) : Amid object true r := by
    obtain rfl : object = o := by
      cases object <;> cases o <;> first | rfl | exact absurd ho (by decide)
    rw [hr, List.append_assoc]
    exact .inside ⟨hv⟩
  cases hw with
  | null | truth | falsehood | text => exact (hopening (List.cons.inj hcs).1 (by decide)).elim
  | number h =>
    obtain h | h := h
    · obtain ⟨c, w, rfl, hc⟩ := h.opens
      refine (hopening (List.cons.inj hcs).1 fun hmem => ?_).elim
      simp only [List.mem_cons, List.not_mem_nil, or_false] at hmem
      rcases hmem with rfl | rfl <;> cases hc
    · exact (hopening (List.cons.inj hcs).1 (by decide)).elim
  | empty o hv => exact hinside (List.cons.inj hcs).1 (.inl hv) (List.cons.inj hcs).2
  | group o hv => exact hinside (List.cons.inj hcs).1 (.inr hv) (List.cons.inj hcs).2

theorem readGroup_lasts (object : Bool) (expected : String) {body : Reader ε α}
    (h : Reader.Lasts (Amid object true) body fun _ => Nonblank) :
    Reader.Lasts (AtValue Ends) (readGroup object expected body) fun _ _ => True := by
  have hbetween : Reader.Lasts (Amid object true) (fun cs => Reader.andThen (body cs) fun v r =>
      Reader.mapTo (fun _ => v) (Reader.ofScan (mark (closing object)) r)) fun _ _ => True :=
    h.andThen fun v => (Reader.Lasts.ofScan (mark_lasts _)).mapTo fun _ _ _ => trivial
  intro cs hcs
  have hevident := hcs.evident
  obtain ⟨c, r, hskip, -⟩ := hcs.exists_cons
  rw [AtValue, hskip] at hcs
  unfold readGroup
  dsimp only
  rw [hskip] at hevident ⊢
  dsimp only
  split
  · next hc =>
    subst hc
    exact hbetween hcs.amid
  · exact hevident.wrongKind_ne expected

theorem readArray_lasts (expected : String) {body : Reader ε α}
    (h : Reader.Lasts (Amid false true) body fun _ => Nonblank) :
    Reader.Lasts (AtValue Ends) (readArray expected body) fun _ _ => True := by
  rw [readArray_eq]
  exact readGroup_lasts false expected h

theorem readObject_lasts (expected : String) {body : Reader ε α}
    (h : Reader.Lasts (Amid true true) body fun _ => Nonblank) :
    Reader.Lasts (AtValue Ends) (readObject expected body) fun _ _ => True := by
  rw [readObject_eq]
  exact readGroup_lasts true expected h

theorem readRecord_lasts (name : String) (size : Nat) {parts : String → Reader ε α}
    (hp : ∀ expected, Reader.Lasts (Amid false true) (parts expected) fun _ => Nonblank)
    {fields : Reader ε β} (hf : Reader.Lasts (Amid true true) fields fun _ => Nonblank)
    {complete : β → Log ε (Except Fault α)} (hc : ∀ s, (complete s).result ≠ .error .truncated) :
    Reader.Lasts (AtValue Ends) (readRecord name size parts fields complete) fun _ _ => True := by
  have hobject : Reader.Lasts (Amid true true)
      (fun cs => Reader.andThen (fields cs) fun state r => Reader.leaving r (complete state))
      fun _ => Nonblank :=
    hf.andThen fun state => .leaving (hc state)
  intro cs hcs
  have hskip := hcs.skipBlanks
  unfold readRecord
  dsimp only
  split
  · next hr =>
    rw [hr] at hskip
    exact readArray_lasts _ (hp _) hskip
  · exact readObject_lasts _ hobject hskip

/-! ## Single values -/

theorem readOption_lasts (h : Reader.Lasts (AtValue Ends) read fun _ _ => True) :
    Reader.Lasts (AtValue Ends) (readOption read) fun _ _ => True := by
  intro cs hcs
  have hevident := hcs.evident
  unfold readOption
  dsimp only
  split
  · next hr =>
    rw [hr] at hevident
    have hnull := Lasting.of_ne (map_ne_truncated.1 hevident)
    exact Reader.Lasts.mapTo (P := fun r' => r' = _) (f := fun _ => none)
      (.ofScan (fun r' (hr' : r' = _) => hr' ▸ hnull)) (fun _ _ _ => trivial) rfl
  · exact (h.mapTo fun _ _ _ => trivial) hcs.skipBlanks

theorem readChecked_lasts {P : List Char → Prop} {check : α → Log ε (Except Fault β)}
    (hc : ∀ v, (check v).result ≠ .error .truncated) (h : Reader.Lasts P read fun _ => R) :
    Reader.Lasts P (readChecked check read) fun _ => R :=
  h.andThen fun v => .leaving (hc v)

theorem readNoName_lasts (expected : String) :
    Reader.Lasts (ε := ε) (Before Name R) (readNoName (α := α) expected) fun _ => R :=
  (Reader.Lasts.ofScan (readString_lasts_name expected)).andThen fun _ => .fail nofun

end Loops

end Json

/-! ## Values of every type -/

open Json Grammar

theorem Json.andThen_ne_truncated {ε α β : Type} {x : Log ε (Except Fault α)}
    {f : α → Log ε (Except Fault β)} (hx : x.result ≠ .error .truncated)
    (hf : ∀ v, (f v).result ≠ .error .truncated) : (x.andThen f).result ≠ .error .truncated := by
  obtain ⟨l, e | v⟩ := x
  · exact fun he => hx (congrArg Except.error (Except.error.inj he))
  · exact hf v

theorem Ty.check_ne_truncated (t : Ty) (p : Predicate) (v : t.Val) :
    (t.check p v).result ≠ .error .truncated := by
  unfold Ty.check
  rw [Log.result_bind]
  split <;> nofun

theorem Ty.absent_ne_truncated (label : String) : ∀ t : Ty,
    (t.absent label).result ≠ .error .truncated
  | .option _ => nofun
  | .refined t p => andThen_ne_truncated (t.absent_ne_truncated label) (t.check_ne_truncated p)
  | .scalar _ | .list .. | .array .. | .set _ | .map .. | .present _ | .tuple _ | .record .. => nofun

theorem Row.complete_ne_truncated : ∀ (r : Row) (s : r.Partial),
    (r.complete s).result ≠ .error .truncated
  | .nil, _ => nofun
  | .cons label t r, s => by
    have hfield : (fieldOr (t.absent label) s.1).result ≠ .error .truncated := by
      unfold fieldOr
      split
      · nofun
      · exact t.absent_ne_truncated label
    refine andThen_ne_truncated hfield fun v => ?_
    exact andThen_ne_truncated (r.complete_ne_truncated s.2) fun vs => nofun

theorem Ty.readName_lasts {R : List Char → Prop} : ∀ t : Ty,
    Reader.Lasts (Before Name R) t.readName fun _ => R
  | .scalar s => .ofScan (readScalarName_lasts s)
  | .option t => t.readName_lasts.mapTo fun _ _ h => h
  | .refined t p => readChecked_lasts (t.check_ne_truncated p) t.readName_lasts
  | .list .. | .array .. | .set _ | .map .. | .present _ | .tuple _ | .record .. =>
    readNoName_lasts _

theorem Json.skipValue_steady : Reader.Steady (ε := Event) (Reader.ofScan skipValue) where
  takes := .ofScan skipValue_takes
  isLocal := .ofScan skipValue_local
  lasts cs hcs := by
    unfold AtValue at hcs
    show Lasting _ (skipValue cs)
    rw [← skipValue_fronted.skips]
    generalize skipBlanks cs = cs at hcs
    obtain ⟨hw, hr⟩ := hcs
    rw [hw.isSkipped hr]
    trivial

theorem Ty.steady {t : Ty} (h : Reader.Lasts (AtValue Ends) t.read fun _ _ => True) :
    Reader.Steady t.read :=
  ⟨t.read_takes, t.read_local, h⟩

mutual

/-- No value of the grammar ends too early, whatever type it is read as. -/
theorem Ty.read_lasts : ∀ t : Ty, Reader.Lasts (AtValue Ends) t.read fun _ _ => True
  | .scalar s => .ofScan ((readScalar_lasts s).imp (fun _ h => h.evident) fun _ _ h => h)
  | .list _ t => readArray_lasts _ (readItems_lasts (Ty.steady t.read_lasts))
  | .array t n => readArray_lasts _ (readExactly_lasts (Ty.steady t.read_lasts) _ n 0)
  | .set t => readArray_lasts _ ((readItems_lasts (Ty.steady t.read_lasts)).mapTo fun _ _ h => h)
  | .map k t => readObject_lasts _ (readMembers_lasts
    (readEntry_local k.readName_local t.read_local)
    (readEntry_lasts (fun _ => k.readName_lasts) (Ty.steady t.read_lasts)) _)
  | .option t => readOption_lasts t.read_lasts
  | .refined t p => readChecked_lasts (R := fun _ => True) (t.check_ne_truncated p) t.read_lasts
  | .present t => readArray_lasts _ (readPresentItems_lasts _ (Ty.steady t.read_lasts))
  | .tuple .nil => (Reader.Lasts.ofScan ((readNull_lasts _).imp (fun _ h => h.evident)
    fun _ _ h => h)).andThen fun _ => .pure fun _ _ => trivial
  | .tuple (.cons label t r) => readArray_lasts _ ((Row.cons label t r).readParts_lasts _ 0)
  | .record _ name r => readRecord_lasts name r.size (fun expected => r.readParts_lasts expected 0)
    (readFields_lasts r.readNamed_local r.readNamed_lasts _) r.complete_ne_truncated

theorem Row.readParts_lasts : ∀ (r : Row) (expected : String) (i : Nat),
    Reader.Lasts (Amid false (i == 0)) (r.readParts expected i) fun _ => Nonblank
  | .nil, _, _ => .pure fun _ => Amid.nonblank
  | .cons _ t r, expected, i =>
    readPart_lasts expected i (Ty.steady t.read_lasts) (r.readParts_lasts expected (i + 1))

theorem Row.readNamed_lasts : ∀ (r : Row) (name : List Char) (s : r.Partial),
    Reader.Lasts (Before Labelled (Inside true false)) (r.readNamed name s) fun _ => Amid true false
  | .nil, _, _ => (readValue_lasts skipValue_steady).mapTo fun _ _ h => h
  | .cons label t r, name, s =>
    .ite (readField_lasts label (Ty.steady t.read_lasts) s)
      ((r.readNamed_lasts name s.2).mapTo fun _ _ h => h)

end

/-- A value of the grammar, with what ends it, is not found to end too early. -/
theorem Ty.read_ne_truncated (t : Ty) {w r : List Char} (h : Word (.part false) w) (hr : Ends r) :
    (t.read (w ++ r)).result ≠ .error .truncated :=
  (t.read_lasts (h.atValue Blank.ends hr)).ne

end Refinement
