import Refinement.Proofs.Locality.Structure
import Refinement.Proofs.RoundTrip.Words

/-!
# Values, read locally

* `Reader.Fronted`: readers that skip blanks, and need something behind them.
* `Reader.Fronted.isLocal`: such a reader is local if it is so from its first character on.
* `readItems_local`, `readMembers_local`: the loops over items and members.
* `readGroup_local`: what stands between the marks of an object or array.
* `Ty.read_fronted`, `Ty.read_local`: readers of values of every type.
-/

namespace Refinement

namespace Json

variable {ε α β : Type} {j k : Nat}

open Reader (Local)

/-! ## Readers that begin behind blanks -/

theorem skipBlanks_skipBlanks (cs : List Char) : skipBlanks (skipBlanks cs) = skipBlanks cs := by
  cases h : skipBlanks cs with
  | nil => rfl
  | cons c r => exact skipBlanks_of_not_blank (isBlank_of_skipBlanks h) r

/-- Scans that skip blanks, and need something behind them. -/
structure Scan.Fronted (s : Scan α) : Prop where
  /-- Blanks make no difference. -/
  skips : ∀ cs, s (skipBlanks cs) = s cs
  /-- Something is needed. -/
  nil : s [] = .error .truncated

namespace Scan.Fronted

theorem front : Scan.Fronted front where
  skips cs := congrArg next (skipBlanks_skipBlanks cs)
  nil := rfl

theorem andThen {s : Scan α} (h : Scan.Fronted s) (f : α → Scan β) :
    Scan.Fronted (s.andThen f) where
  skips cs := by
    unfold Scan.andThen
    rw [h.skips]
  nil := Scan.andThen_of_error h.nil f

theorem mapTo {s : Scan α} (h : Scan.Fronted s) (f : α → β) : Scan.Fronted (s.mapTo f) where
  skips cs := by
    unfold Scan.mapTo
    rw [h.skips]
  nil := by
    unfold Scan.mapTo
    rw [h.nil]
    rfl

end Scan.Fronted

/-- Readers that skip blanks, and need something behind them. -/
structure Reader.Fronted (read : Reader ε α) : Prop where
  /-- Blanks make no difference. -/
  skips : ∀ cs, read (skipBlanks cs) = read cs
  /-- Something is needed. -/
  nil : (read []).result = .error .truncated

namespace Reader

variable {read : Reader ε α}

theorem Local.cons (h : Local 1 j read) (c : Char) : Local 0 j fun r => read (c :: r) where
  takes hs := Nat.le_of_succ_le_succ (h.takes hs)
  grows cs _ he := h.grows (c :: cs) he
  logs cs _ he := h.logs (c :: cs) he

namespace Fronted

theorem ofScan {s : Scan α} (h : Scan.Fronted s) : Fronted (ε := ε) (Reader.ofScan s) where
  skips cs := congrArg pure (h.skips cs)
  nil := h.nil

theorem andThen (h : Fronted read) (f : α → Reader ε β) :
    Fronted fun cs => Reader.andThen (read cs) f where
  skips cs := congrArg (Reader.andThen · f) (h.skips cs)
  nil := by rw [Reader.result_andThen, h.nil]; rfl

theorem result_of_nil (h : Fronted read) {cs : List Char} (hcs : skipBlanks cs = []) :
    (read cs).result = .error .truncated := by
  rw [← h.skips, hcs, h.nil]

theorem length_lt (h : Fronted read)
    (hcons : ∀ c, isBlank c = false → Local 0 1 fun r => read (c :: r)) {cs r : List Char} {v : α}
    (hs : (read cs).result = .ok (v, r)) : r.length + 1 ≤ (skipBlanks cs).length := by
  rw [← h.skips] at hs
  cases hcs : skipBlanks cs with
  | nil =>
    rw [hcs, h.nil] at hs
    cases hs
  | cons c r' =>
    rw [hcs] at hs
    exact Nat.succ_le_succ ((hcons c (isBlank_of_skipBlanks hcs)).takes hs)

/-- A reader that begins behind blanks is local if it is so from its first character on. -/
theorem isLocal (h : Fronted read)
    (hcons : ∀ c, isBlank c = false → Local 0 1 fun r => read (c :: r)) : Local 1 1 read where
  takes {cs v r} hs := by
    have := h.length_lt hcons hs
    have := length_skipBlanks_le cs
    omega
  grows cs rest he := by
    cases hcs : skipBlanks cs with
    | nil =>
      rw [h.result_of_nil hcs]
      refine .short fun v r hr => ?_
      have hlt := h.length_lt hcons hr
      have := length_skipBlanks_le rest
      rw [skipBlanks_append_of_nil hcs] at hlt
      omega
    | cons c r =>
      rw [← h.skips cs, ← h.skips (cs ++ rest), hcs, skipBlanks_append_of_cons hcs]
      exact (hcons c (isBlank_of_skipBlanks hcs)).grows r he
  logs cs rest he hshort := by
    cases hcs : skipBlanks cs with
    | nil => exact absurd (h.result_of_nil hcs) hshort
    | cons c r =>
      rw [← h.skips cs, hcs] at hshort
      rw [← h.skips cs, ← h.skips (cs ++ rest), hcs, skipBlanks_append_of_cons hcs]
      exact (hcons c (isBlank_of_skipBlanks hcs)).logs r he hshort

end Fronted

end Reader

/-! ## Arrays -/

/-- Goes on with `go` where another part follows, and with `stop` where none does. -/
def onNext (part : Scan Bool) (go stop : Reader ε α) : Reader ε α := fun cs =>
  Reader.andThen (Reader.ofScan part cs) fun more => if more then go else stop

theorem onNext_eq (part : Scan Bool) (go stop : Reader ε α) (cs : List Char) :
    onNext part go stop cs = match part cs with
      | .error e => Reader.fail e
      | .ok (false, r) => stop r
      | .ok (true, r) => go r := by
  unfold onNext Reader.ofScan
  cases part cs with
  | error e => rfl
  | ok x =>
    obtain ⟨_ | _, r⟩ := x
    · exact Log.pure_ok_andThen _ _
    · exact Log.pure_ok_andThen _ _

theorem onNext_local {part : Scan Bool} (h : Scan.Local 0 0 part) {go stop : Reader ε α}
    (hgo : Local 0 0 go) (hstop : Local 0 0 stop) : Local 0 0 (onNext part go stop) := by
  refine (Local.ofScan h).andThen (k := 0) (fun more => ?_) (Nat.le_refl 0)
  split
  · exact hgo
  · exact hstop

theorem nextItem_local (first : Bool) : Scan.Local 0 0 (nextItem first) := by
  rw [nextItem_eq]
  exact nextPart_local _ _ _

theorem nextName_local (first : Bool) : Scan.Local 0 0 (nextName first) := by
  rw [nextName_eq]
  exact nextPart_local _ _ _

/-- What follows an item need not take a character. -/
theorem Reader.Local.item {read : Reader ε α} (h : Local 1 1 read) {f : α → Reader ε β}
    (hf : ∀ v, Local 0 0 (f v)) : Local 0 0 fun cs => Reader.andThen (read cs) f :=
  (h.andThen hf (Nat.zero_le _)).mono (Nat.zero_le _) (Nat.le_refl 0)

section Loops

variable {read : Reader ε α}

theorem readItemsWith_succ (read : Reader ε α) (fuel : Nat) (first : Bool) :
    readItemsWith read (fuel + 1) first = onNext (nextItem first)
      (fun r => Reader.andThen (read r) fun v r =>
        Reader.mapTo (v :: ·) (readItemsWith read fuel false r))
      fun r => pure (.ok ([], r)) :=
  funext fun cs => (onNext_eq _ _ _ cs).symm

theorem readItemsWith_local (h : Local 1 1 read) (fuel : Nat) (first : Bool) :
    Local 0 0 (readItemsWith read fuel first) := by
  induction fuel generalizing first with
  | zero => exact .fail _ _ _
  | succ fuel ih =>
    rw [readItemsWith_succ]
    refine onNext_local (nextItem_local first) ?_ (.pure _ _)
    exact h.item fun v => (ih false).mapTo _

theorem onNext_congr {part : Scan Bool} {go go' stop : Reader ε α} {cs : List Char}
    (h : ∀ r, part cs = .ok (true, r) → go r = go' r) :
    onNext part go stop cs = onNext part go' stop cs := by
  refine Reader.andThen_congr fun more r hr => ?_
  cases more with
  | false => rfl
  | true => exact h r hr

theorem readItems_burns (h : Local 1 1 read) :
    Burns (fun (_ : Bool) cs => cs.length) (readItemsWith read) fun s first =>
      onNext (nextItem first)
        (fun r => Reader.andThen (read r) fun v r => Reader.mapTo (v :: ·) (s false r))
        fun r => pure (.ok ([], r)) where
  round n := funext fun first => readItemsWith_succ read n first
  shrinks {n s first cs} hs := by
    refine onNext_congr fun r hr => Reader.andThen_congr fun v r' hr' => ?_
    have := length_of_nextItem hr
    have := h.takes hr'
    rw [hs false r' (by omega)]
  grows _ cs rest := by
    rw [List.length_append]
    omega

theorem readItems_local (h : Local 1 1 read) : Local 0 0 (readItems read) :=
  (readItems_burns h).reader_local (fun n first => readItemsWith_local h n first) true

theorem readExactly_succ (read : Reader ε α) (expected : String) (n i : Nat) :
    readExactly read expected (n + 1) i = onNext (nextItem (i == 0))
      (fun r => Reader.andThen (read r) fun v r =>
        Reader.mapTo (fun vs => ⟨v :: vs.val, by simp [vs.property]⟩)
          (readExactly read expected n (i + 1) r))
      fun _ => Reader.fail (.data (.invalidLength i expected)) :=
  funext fun cs => (onNext_eq _ _ _ cs).symm

theorem readExactly_local (h : Local 1 1 read) (expected : String) (n i : Nat) :
    Local 0 0 (readExactly read expected n i) := by
  induction n generalizing i with
  | zero => exact .pure _ _
  | succ n ih =>
    rw [readExactly_succ]
    refine onNext_local (nextItem_local _) ?_ (.fail _ _ _)
    exact h.item fun v => (ih (i + 1)).mapTo _

theorem readPart_eq (expected : String) (i : Nat) (read : Reader ε α) (others : Reader ε β) :
    readPart expected i read others = onNext (nextItem (i == 0))
      (fun r => Reader.andThen (read r) fun v r => Reader.mapTo (fun vs => (v, vs)) (others r))
      fun _ => Reader.fail (.data (.invalidLength i expected)) :=
  funext fun cs => (onNext_eq _ _ _ cs).symm

theorem readPart_local (expected : String) (i : Nat) (h : Local 1 1 read) {others : Reader ε β}
    (ho : Local 0 0 others) : Local 0 0 (readPart expected i read others) := by
  rw [readPart_eq]
  refine onNext_local (nextItem_local _) ?_ (.fail _ _ _)
  exact h.item fun v => ho.mapTo _

theorem readPresentItems_eq {β : Type} (wrap : List α → Log ε β) (read : Reader ε α) :
    readPresentItems wrap read = onNext (nextItem true)
      (fun r => Reader.andThen (read r) fun v r =>
        Reader.andThen (Reader.ofScan skipItems r) fun _ r => Reader.leaving r (.ok <$> wrap [v]))
      fun r => Reader.leaving r (.ok <$> wrap []) :=
  funext fun cs => (onNext_eq _ _ _ cs).symm

theorem readPresentItems_local {β : Type} (wrap : List α → Log ε β) (h : Local 1 1 read) :
    Local 0 0 (readPresentItems wrap read) := by
  rw [readPresentItems_eq]
  refine onNext_local (nextItem_local _) ?_ (.leaving _ _)
  refine h.item fun v => (Local.ofScan skipItems_local).andThen (k := 0) (fun _ => ?_) (Nat.le_refl 0)
  exact .leaving _ _

/-! ## Objects -/

theorem readMembersWith_succ (member : α → Reader ε α) (fuel : Nat) (first : Bool) (state : α) :
    readMembersWith member (fuel + 1) first state = onNext (nextName first)
      (fun r => Reader.andThen (member state r) fun state r =>
        readMembersWith member fuel false state r)
      fun r => pure (.ok (state, r)) :=
  funext fun cs => (onNext_eq _ _ _ cs).symm

theorem readMembersWith_local {member : α → Reader ε α} (h : ∀ state, Local 1 1 (member state))
    (fuel : Nat) (first : Bool) (state : α) :
    Local 0 0 (readMembersWith member fuel first state) := by
  induction fuel generalizing first state with
  | zero => exact .fail _ _ _
  | succ fuel ih =>
    rw [readMembersWith_succ]
    refine onNext_local (nextName_local first) ?_ (.pure _ _)
    exact (h state).item fun state => ih false state

theorem readMembers_burns {member : α → Reader ε α} (h : ∀ state, Local 1 1 (member state)) :
    Burns (fun (_ : Bool × α) cs => cs.length) (fun n a => readMembersWith member n a.1 a.2)
      fun s a => onNext (nextName a.1)
        (fun r => Reader.andThen (member a.2 r) fun state r => s (false, state) r)
        fun r => pure (.ok (a.2, r)) where
  round n := funext fun a => readMembersWith_succ member n a.1 a.2
  shrinks {n s a cs} hs := by
    refine onNext_congr fun r hr => Reader.andThen_congr fun state r' hr' => ?_
    have : r.length ≤ cs.length := (nextName_local a.1).takes hr
    have := (h a.2).takes hr'
    exact hs (false, state) r' (by omega)
  grows _ cs rest := by
    rw [List.length_append]
    omega

theorem readMembers_local {member : α → Reader ε α} (h : ∀ state, Local 1 1 (member state))
    (state : α) : Local 0 0 (readMembers member state) :=
  (readMembers_burns h).reader_local (fun n a => readMembersWith_local h n a.1 a.2) (true, state)

theorem readValue_local (h : Local 1 1 read) : Local 1 1 (readValue read) := by
  have hcolon : Local (ε := ε) 1 1 (Reader.ofScan colon) := by
    rw [colon_eq]
    exact .ofScan (mark_local _)
  exact hcolon.follow fun _ => h.weaken

theorem readEntry_local {κ : Type} {o : TotalOrder κ} {name : Reader ε κ} (hn : Local 1 1 name)
    (h : Local 1 1 read) (m : SortedMap o α) : Local 1 1 (readEntry name read m) :=
  hn.follow fun _ => ((readValue_local h).mapTo _).weaken

theorem readField_local {β : Type} (label : String) (h : Local 1 1 read) (state : Option α × β) :
    Local 1 1 (readField label read state) := by
  unfold readField
  cases state.1 with
  | some v => exact .fail _ _ _
  | none => exact (readValue_local h).mapTo _

theorem readFields_local {field : List Char → α → Reader ε α}
    (h : ∀ name state, Local 1 1 (field name state)) (state : α) :
    Local 0 0 (readFields field state) :=
  readMembers_local (fun state =>
    (Local.ofScan (readString_local "a field")).follow fun name => (h name state).weaken) state

/-! ## Brackets -/

/-- Reads an object or array: its opening mark, what `body` reads, and its closing mark. -/
def readGroup (object : Bool) (expected : String) (body : Reader ε α) : Reader ε α := fun cs =>
  match skipBlanks cs with
  | [] => Reader.fail .truncated
  | c :: r =>
    if c = opening object then
      Reader.andThen (body r) fun v r =>
        Reader.mapTo (fun _ => v) (Reader.ofScan (mark (closing object)) r)
    else Reader.fail (wrongKind expected (c :: r))

theorem readArray_eq (expected : String) (body : Reader ε α) :
    readArray expected body = readGroup false expected body := by
  funext cs
  unfold readArray readGroup
  rw [endArray_eq]
  generalize skipBlanks cs = cs
  split
  · rfl
  · exact (if_pos rfl).symm
  · next hnil hmark =>
    obtain _ | ⟨c, r⟩ := cs
    · exact absurd rfl hnil
    have hc : c ≠ '[' := fun hc => hmark r (by rw [hc])
    exact (if_neg hc).symm

theorem readObject_eq (expected : String) (body : Reader ε α) :
    readObject expected body = readGroup true expected body := by
  funext cs
  unfold readObject readGroup
  rw [endObject_eq]
  generalize skipBlanks cs = cs
  split
  · rfl
  · exact (if_pos rfl).symm
  · next hnil hmark =>
    obtain _ | ⟨c, r⟩ := cs
    · exact absurd rfl hnil
    have hc : c ≠ '\x7b' := fun hc => hmark r (by rw [hc])
    exact (if_neg hc).symm

theorem readGroup_fronted (object : Bool) (expected : String) (body : Reader ε α) :
    Reader.Fronted (readGroup object expected body) where
  skips cs := by
    unfold readGroup
    rw [skipBlanks_skipBlanks]
  nil := rfl

theorem readGroup_local (object : Bool) (expected : String) {body : Reader ε α}
    (h : Local 0 0 body) : Local 1 1 (readGroup object expected body) := by
  refine (readGroup_fronted object expected body).isLocal fun c hc => ?_
  unfold readGroup
  simp only [skipBlanks_of_not_blank hc]
  split
  · refine (h.andThen (k := 1) (fun v => ?_) (Nat.le_refl 1)).weaken
    exact (Local.ofScan (mark_local (closing object))).mapTo fun _ => v
  · exact .ofScan (wrongKind_local 0 expected c)

theorem readArray_fronted (expected : String) (body : Reader ε α) :
    Reader.Fronted (readArray expected body) := by
  rw [readArray_eq]
  exact readGroup_fronted false expected body

theorem readObject_fronted (expected : String) (body : Reader ε α) :
    Reader.Fronted (readObject expected body) := by
  rw [readObject_eq]
  exact readGroup_fronted true expected body

theorem readArray_local (expected : String) {body : Reader ε α} (h : Local 0 0 body) :
    Local 1 1 (readArray expected body) := by
  rw [readArray_eq]
  exact readGroup_local false expected h

theorem readObject_local (expected : String) {body : Reader ε α} (h : Local 0 0 body) :
    Local 1 1 (readObject expected body) := by
  rw [readObject_eq]
  exact readGroup_local true expected h

theorem readNull_fronted (expected : String) : Scan.Fronted (readNull expected) := by
  rw [readNull_eq]
  exact Scan.Fronted.front.andThen _

theorem readTuple_fronted (expected : String) (size : Nat) (parts : Reader ε α) :
    Reader.Fronted (readTuple expected size parts) := by
  unfold readTuple
  split
  · exact (Reader.Fronted.ofScan (readNull_fronted expected)).andThen _
  · exact readArray_fronted expected parts

theorem readRecord_fronted {β : Type} (name : String) (size : Nat) (parts : String → Reader ε α)
    (fields : Reader ε β) (complete : β → Log ε (Except Fault α)) :
    Reader.Fronted (readRecord name size parts fields complete) where
  skips cs := by
    unfold readRecord
    rw [skipBlanks_skipBlanks]
  nil := rfl

theorem readRecord_local {β : Type} (name : String) (size : Nat) {parts : String → Reader ε α}
    (hp : ∀ expected, Local 0 0 (parts expected)) {fields : Reader ε β} (hf : Local 0 0 fields)
    (complete : β → Log ε (Except Fault α)) :
    Local 1 1 (readRecord name size parts fields complete) := by
  refine (readRecord_fronted name size parts fields complete).isLocal fun c hc => ?_
  by_cases hb : c = '['
  · subst hb
    exact (readArray_local (recordWords name size) (hp _)).cons '['
  · have hobject : (fun r => readRecord name size parts fields complete (c :: r)) = fun r =>
        readObject ("struct " ++ name) (fun cs => Reader.andThen (fields cs) fun state r =>
          Reader.leaving r (complete state)) (c :: r) := by
      funext r
      unfold readRecord
      rw [skipBlanks_of_not_blank hc]
      split
      · next h => exact absurd (List.cons.inj h).1 hb
      · rfl
    rw [hobject]
    refine (readObject_local _ ?_).cons c
    exact hf.andThen (k := 0) (fun state => .leaving _ _) (Nat.le_refl 0)

/-! ## Single values -/

theorem readOption_fronted (h : Reader.Fronted read) : Reader.Fronted (readOption read) where
  skips cs := by
    unfold readOption
    rw [skipBlanks_skipBlanks]
  nil := by
    show (Reader.mapTo some (read [])).result = _
    unfold Reader.mapTo
    rw [Reader.result_andThen, h.nil]
    rfl

theorem readOption_local (hfront : Reader.Fronted read) (h : Local 1 1 read) :
    Local 1 1 (readOption read) := by
  refine (readOption_fronted hfront).isLocal fun c hc => ?_
  by_cases hn : c = 'n'
  · subst hn
    exact ((Local.ofScan (literal_local _ _)).mapTo _).weaken
  · have hsome : (fun r => readOption read (c :: r)) = fun r => Reader.mapTo some (read (c :: r)) := by
      funext r
      unfold readOption
      rw [skipBlanks_of_not_blank hc]
      split
      · next h => exact absurd (List.cons.inj h).1 hn
      · rfl
    rw [hsome]
    exact (h.mapTo some).cons c

theorem readChecked_fronted (check : α → Log ε (Except Fault β)) (h : Reader.Fronted read) :
    Reader.Fronted (readChecked check read) where
  skips cs := by
    unfold readChecked
    rw [h.skips]
  nil := by
    unfold readChecked
    rw [Reader.result_andThen, h.nil]
    rfl

theorem readChecked_local (check : α → Log ε (Except Fault β)) (h : Local 1 1 read) :
    Local 1 1 (readChecked check read) :=
  h.follow fun v => .leaving _ (check v)

end Loops

end Json

/-! ## Values of every type -/

open Json Reader

theorem Json.readNoName_local (expected : String) :
    Local (ε := ε) (α := α) 1 1 (readNoName expected) :=
  (Local.ofScan (readString_local expected)).follow fun _ => .fail _ _ _

theorem Ty.readName_local : ∀ t : Ty, Local 1 1 t.readName
  | .scalar s => .ofScan (readScalarName_local s)
  | .option t => t.readName_local.mapTo some
  | .refined t p => readChecked_local (t.check p) t.readName_local
  | .list .. | .array .. | .set _ | .map .. | .present _ | .tuple _ | .record .. => readNoName_local _

namespace Json

theorem readAnyNumber_fronted (expected : String) : Scan.Fronted (readAnyNumber expected) := by
  rw [readAnyNumber_eq]
  exact Scan.Fronted.front.andThen _

theorem readInteger_fronted (kind : IntKind) : Scan.Fronted (readInteger kind) := by
  rw [readInteger_eq]
  split
  · exact Scan.Fronted.front.andThen _
  · exact (readAnyNumber_fronted _).andThen _

theorem readString_fronted (expected : String) : Scan.Fronted (readString expected) := by
  rw [readString_eq]
  exact Scan.Fronted.front.andThen _

theorem readScalar_fronted : ∀ s : Scalar, Scan.Fronted (readScalar s)
  | .key (.int kind) => readInteger_fronted kind
  | .key .bool => by
    show Scan.Fronted readBool
    rw [readBool_eq]
    exact Scan.Fronted.front.andThen _
  | .key .char => by
    show Scan.Fronted readChar
    rw [readChar_eq]
    exact (readString_fronted _).andThen _
  | .key .text => (readString_fronted "a string").mapTo String.ofList
  | .float f => by
    show Scan.Fronted (readFloat f)
    rw [readFloat_eq]
    exact (readAnyNumber_fronted _).mapTo _
  | .count => readInteger_fronted .usize

end Json

theorem Ty.read_fronted : ∀ t : Ty, Fronted t.read
  | .scalar s => .ofScan (readScalar_fronted s)
  | .list .. | .array .. | .set _ | .present _ => readArray_fronted _ _
  | .tuple _ => readTuple_fronted _ _ _
  | .map .. => readObject_fronted _ _
  | .option t => readOption_fronted t.read_fronted
  | .refined t p => readChecked_fronted (t.check p) t.read_fronted
  | .record .. => readRecord_fronted _ _ _ _ _

mutual

/-- What stands behind a value does not matter to its reader. -/
theorem Ty.read_local : ∀ t : Ty, Local 1 1 t.read
  | .scalar s => .ofScan (readScalar_local s)
  | .list _ t => readArray_local _ (readItems_local t.read_local)
  | .array t n => readArray_local _ (readExactly_local t.read_local _ n 0)
  | .set t => readArray_local _ ((readItems_local t.read_local).mapTo _)
  | .map k t => readObject_local _
    (readMembers_local (fun m => readEntry_local k.readName_local t.read_local m) _)
  | .option t => readOption_local t.read_fronted t.read_local
  | .refined t p => readChecked_local (t.check p) t.read_local
  | .present t => readArray_local _ (readPresentItems_local _ t.read_local)
  | .tuple .nil => (Local.ofScan (readNull_local _)).follow fun _ => .pure _ _
  | .tuple (.cons label t r) => readArray_local _ ((Row.cons label t r).readParts_local _ 0)
  | .record _ name r => readRecord_local name r.size (fun expected => r.readParts_local expected 0)
    (readFields_local r.readNamed_local _) r.complete

theorem Row.readParts_local : ∀ (r : Row) (expected : String) (i : Nat),
    Local 0 0 (r.readParts expected i)
  | .nil, _, _ => .pure _ _
  | .cons _ t r, expected, i =>
    readPart_local expected i t.read_local (r.readParts_local expected (i + 1))

theorem Row.readNamed_local : ∀ (r : Row) (name : List Char) (s : r.Partial),
    Local 1 1 (r.readNamed name s)
  | .nil, _, _ => (readValue_local (.ofScan skipValue_local)).mapTo _
  | .cons label t r, name, s =>
    .ite (readField_local label t.read_local s) ((r.readNamed_local name s.2).mapTo _)

end

end Refinement
