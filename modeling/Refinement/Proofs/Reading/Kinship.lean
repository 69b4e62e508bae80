import Refinement.Json.Reader

/-!
# Relations between readers

Two readers that take the same steps, but make something else of what they read, are related by
what comes of it and by what they log. A `Kinship` is a relation between logged outcomes that
holds of equal silent outcomes and is kept when one step follows another; every reader that is
built from others by the combinators of JSON reading then relates as its parts do.

The relation between the results may depend on what the second reader has logged so far, which is
the list that comes first in it.

* `Kinship.Reads`: two readers relate at every text, and leave the same rest of it.
* `Kinship.readItems`, `Kinship.readExactly`, `Kinship.readMembers`, `Kinship.readRecord`, and one
  such lemma for every other combinator.
-/

namespace Refinement

open Json

/-- A relation between logged outcomes for every relation between results. -/
structure Kinship (δ ε : Type) where
  /-- The relation between outcomes; the results relate if there are any. -/
  Rel {α β : Type} : (List ε → α → β → Prop) → Log δ (Except Fault α) → Log ε (Except Fault β) → Prop
  /-- Silent results relate if they do so after an empty log. -/
  ok {α β : Type} {R : List ε → α → β → Prop} {a : α} {b : β} :
    R [] a b → Rel R (pure (.ok a)) (pure (.ok b))
  /-- Equal silent faults relate. -/
  error {α β : Type} {R : List ε → α → β → Prop} (e : Fault) :
    Rel R (pure (.error e)) (pure (.error e))
  /-- Outcomes relate if the first steps do and what follows related results does. -/
  andThen {α β γ ζ : Type} {R : List ε → α → β → Prop} {S : List ε → γ → ζ → Prop}
    {x : Log δ (Except Fault α)} {y : Log ε (Except Fault β)}
    {f : α → Log δ (Except Fault γ)} {g : β → Log ε (Except Fault ζ)} :
    Rel R x y → (∀ l a b, R l a b → Rel (fun m => S (l ++ m)) (f a) (g b)) →
    Rel S (x.andThen f) (y.andThen g)

/-- Equal faults, or results that relate. -/
inductive Agree {φ α β : Type} (R : α → β → Prop) : Except φ α → Except φ β → Prop where
  | ok {a : α} {b : β} : R a b → Agree R (.ok a) (.ok b)
  | error (e : φ) : Agree R (.error e) (.error e)

namespace Kinship

variable {δ ε α β γ ζ : Type} (K : Kinship δ ε)
variable {R : List ε → α → β → Prop} {S : List ε → γ → ζ → Prop}

/-- What was read relates, and the rest of the text is the same. -/
def Leaving (R : List ε → α → β → Prop) (l : List ε) (p : α × List Char) (q : β × List Char) :
    Prop :=
  p.2 = q.2 ∧ R l p.1 q.1

/-- Two readers relate at every text. -/
def Reads (R : List ε → α → β → Prop) (read : Reader δ α) (read' : Reader ε β) : Prop :=
  ∀ cs, K.Rel (Leaving R) (read cs) (read' cs)

variable {K}

/-- Related outcomes stay related under a weaker relation between results. -/
theorem mono {R S : List ε → α → β → Prop} {x : Log δ (Except Fault α)}
    {y : Log ε (Except Fault β)} (h : K.Rel R x y) (hRS : ∀ l v w, R l v w → S l v w) :
    K.Rel S x y := by
  rw [← Log.andThen_ok x, ← Log.andThen_ok y]
  refine K.andThen h fun l v w hvw => K.ok ?_
  rw [List.append_nil]
  exact hRS l v w hvw

theorem Reads.mono {R S : List ε → α → β → Prop} {read : Reader δ α} {read' : Reader ε β}
    (h : K.Reads R read read') (hRS : ∀ l v w, R l v w → S l v w) : K.Reads S read read' :=
  fun cs => Kinship.mono (h cs) fun l _ _ hvw => ⟨hvw.1, hRS l _ _ hvw.2⟩

theorem Reads.ite {p : Prop} [Decidable p] {yes no : Reader δ α} {yes' no' : Reader ε β}
    (h : K.Reads R yes yes') (h' : K.Reads R no no') :
    K.Reads R (if p then yes else no) (if p then yes' else no') := by
  split
  · exact h
  · exact h'

theorem ok_leaving {v : α} {w : β} (r : List Char) (h : R [] v w) :
    K.Rel (Leaving R) (pure (.ok (v, r))) (pure (.ok (w, r))) :=
  K.ok ⟨rfl, h⟩

theorem fail (e : Fault) : K.Rel (Leaving R) (Reader.fail e) (Reader.fail e) := K.error e

theorem readAndThen {x : Log δ (Except Fault (α × List Char))}
    {y : Log ε (Except Fault (β × List Char))}
    {f : α → List Char → Log δ (Except Fault (γ × List Char))}
    {g : β → List Char → Log ε (Except Fault (ζ × List Char))} (hx : K.Rel (Leaving R) x y)
    (hf : ∀ l v w r, R l v w → K.Rel (Leaving fun m => S (l ++ m)) (f v r) (g w r)) :
    K.Rel (Leaving S) (Reader.andThen x f) (Reader.andThen y g) := by
  refine K.andThen hx ?_
  rintro l ⟨v, r⟩ ⟨w, r'⟩ ⟨hr, h⟩
  cases hr
  exact hf l v w r h

theorem mapTo {x : Log δ (Except Fault (α × List Char))}
    {y : Log ε (Except Fault (β × List Char))} {f : α → γ} {g : β → ζ}
    (hx : K.Rel (Leaving R) x y) (hf : ∀ l v w, R l v w → S l (f v) (g w)) :
    K.Rel (Leaving S) (Reader.mapTo f x) (Reader.mapTo g y) := by
  refine readAndThen hx fun l v w r h => ok_leaving r ?_
  rw [List.append_nil]
  exact hf l v w h

theorem leaving {x : Log δ (Except Fault α)} {y : Log ε (Except Fault β)} (r : List Char)
    (hx : K.Rel R x y) : K.Rel (Leaving R) (Reader.leaving r x) (Reader.leaving r y) := by
  refine K.andThen hx fun l v w h => ok_leaving r ?_
  rw [List.append_nil]
  exact h

theorem ofScan (s : Scan α) {R : List ε → α → α → Prop} (h : ∀ v, R [] v v) :
    K.Reads R (Reader.ofScan s) (Reader.ofScan s) := by
  intro cs
  simp only [Reader.ofScan]
  cases s cs with
  | error e => exact K.error e
  | ok x => exact K.ok ⟨rfl, h x.1⟩

/-- The relation of equal results, reached in silence. -/
def Same (l : List ε) (v w : α) : Prop := l = [] ∧ v = w

/-- What follows characters that both readers read in the same way. -/
theorem scanAndThen (s : Scan α) (cs : List Char)
    {f : α → List Char → Log δ (Except Fault (γ × List Char))}
    {g : α → List Char → Log ε (Except Fault (ζ × List Char))}
    (hf : ∀ v r, K.Rel (Leaving S) (f v r) (g v r)) :
    K.Rel (Leaving S) (Reader.andThen (Reader.ofScan s cs) f)
      (Reader.andThen (Reader.ofScan s cs) g) := by
  refine readAndThen (ofScan s (R := Same) (fun v => ⟨rfl, rfl⟩) cs) ?_
  rintro l v w r ⟨rfl, rfl⟩
  exact hf v r

/-! ## Arrays -/

/-- Lists whose items relate one by one; what was logged is what was logged at the items. -/
inductive Items (R : List ε → α → β → Prop) : List ε → List α → List β → Prop where
  | nil : Items R [] [] []
  | cons {l m : List ε} {v : α} {w : β} {vs : List α} {ws : List β} :
    R l v w → Items R m vs ws → Items R (l ++ m) (v :: vs) (w :: ws)

theorem readItemsWith {read : Reader δ α} {read' : Reader ε β} (h : K.Reads R read read')
    (fuel : Nat) (first : Bool) :
    K.Reads (Items R) (Json.readItemsWith read fuel first)
      (Json.readItemsWith read' fuel first) := by
  induction fuel generalizing first with
  | zero => exact fun cs => fail .truncated
  | succ fuel ih =>
    intro cs
    simp only [Json.readItemsWith]
    split
    · exact fail _
    · exact ok_leaving _ .nil
    · refine readAndThen (h _) fun l v w r hvw => ?_
      exact mapTo (ih false r) fun m vs ws hs => .cons hvw hs

theorem readItems {read : Reader δ α} {read' : Reader ε β} (h : K.Reads R read read') :
    K.Reads (Items R) (Json.readItems read) (Json.readItems read') :=
  fun cs => readItemsWith h (cs.length + 1) true cs

theorem readExactly {read : Reader δ α} {read' : Reader ε β} (h : K.Reads R read read')
    (expected : String) (n i : Nat) :
    K.Reads (fun l vs ws => Items R l vs.val ws.val) (Json.readExactly read expected n i)
      (Json.readExactly read' expected n i) := by
  induction n generalizing i with
  | zero => exact fun cs => ok_leaving cs .nil
  | succ n ih =>
    intro cs
    simp only [Json.readExactly]
    split
    · exact fail _
    · exact fail _
    · refine readAndThen (h _) fun l v w r hvw => ?_
      exact mapTo (ih (i + 1) r) fun m vs ws hs => .cons hvw hs

/-- What is read between brackets relates as the bodies do. -/
theorem readArray {body : Reader δ α} {body' : Reader ε β} (expected : String)
    (h : K.Reads R body body') :
    K.Reads R (Json.readArray expected body) (Json.readArray expected body') := by
  intro cs
  simp only [Json.readArray]
  split
  · exact fail _
  · refine readAndThen (h _) fun l v w r hvw => mapTo (ofScan endArray (R := Same) (fun v => ⟨rfl, rfl⟩) r) ?_
    rintro m a b ⟨rfl, -⟩
    rwa [List.append_nil]
  · exact fail _

/-- What is read as a tuple relates as the parts do. -/
theorem readTuple {parts : Reader δ α} {parts' : Reader ε β} (expected : String) (size : Nat)
    (h : K.Reads R parts parts') :
    K.Reads R (Json.readTuple expected size parts) (Json.readTuple expected size parts') := by
  unfold Json.readTuple
  refine .ite (fun cs => ?_) (readArray expected h)
  exact scanAndThen (readNull expected) cs fun _ r => h r

theorem readPart {read : Reader δ α} {read' : Reader ε β} {others : Reader δ γ}
    {others' : Reader ε ζ} (expected : String) (i : Nat) (h : K.Reads R read read')
    (ho : K.Reads S others others') :
    K.Reads (fun l v w => ∃ m n, l = m ++ n ∧ R m v.1 w.1 ∧ S n v.2 w.2)
      (Json.readPart expected i read others) (Json.readPart expected i read' others') := by
  intro cs
  simp only [Json.readPart]
  split
  · exact fail _
  · exact fail _
  · refine readAndThen (h _) fun l v w r hvw => ?_
    exact mapTo (ho r) fun m vs ws hs => ⟨l, m, rfl, hvw, hs⟩

/-! ## Objects -/

/-- A relation between what came of the members so far is kept if every member keeps it. -/
theorem readMembersWith {member : α → Reader δ α} {member' : β → Reader ε β}
    (h : ∀ l v w, R l v w → K.Reads (fun m => R (l ++ m)) (member v) (member' w)) (fuel : Nat)
    (first : Bool) {l : List ε} {v : α} {w : β} (hvw : R l v w) :
    K.Reads (fun m => R (l ++ m)) (Json.readMembersWith member fuel first v)
      (Json.readMembersWith member' fuel first w) := by
  induction fuel generalizing first l v w with
  | zero => exact fun cs => fail .truncated
  | succ fuel ih =>
    intro cs
    simp only [Json.readMembersWith]
    split
    · exact fail _
    · exact ok_leaving _ (by rwa [List.append_nil])
    · refine readAndThen (h l v w hvw _) fun m v' w' r hvw' => ?_
      simpa only [List.append_assoc] using ih false hvw' r

theorem readMembers {member : α → Reader δ α} {member' : β → Reader ε β}
    (h : ∀ l v w, R l v w → K.Reads (fun m => R (l ++ m)) (member v) (member' w)) {v : α} {w : β}
    (hvw : R [] v w) : K.Reads R (Json.readMembers member v) (Json.readMembers member' w) :=
  fun cs => readMembersWith h (cs.length + 1) true hvw cs

theorem readObject {body : Reader δ α} {body' : Reader ε β} (expected : String)
    (h : K.Reads R body body') :
    K.Reads R (Json.readObject expected body) (Json.readObject expected body') := by
  intro cs
  simp only [Json.readObject]
  split
  · exact fail _
  · refine readAndThen (h _) fun l v w r hvw => mapTo (ofScan endObject (R := Same) (fun v => ⟨rfl, rfl⟩) r) ?_
    rintro m a b ⟨rfl, -⟩
    rwa [List.append_nil]
  · exact fail _

theorem readValue {read : Reader δ α} {read' : Reader ε β} (h : K.Reads R read read') :
    K.Reads R (Json.readValue read) (Json.readValue read') :=
  fun cs => scanAndThen colon cs fun _ r => h r

theorem readEntry {κ κ' : Type} {o : TotalOrder κ} {o' : TotalOrder κ'}
    {N : List ε → κ → κ' → Prop} {M : List ε → SortedMap o α → SortedMap o' β → Prop}
    {name : Reader δ κ} {name' : Reader ε κ'} {read : Reader δ α} {read' : Reader ε β}
    (hn : K.Reads N name name') (h : K.Reads R read read') {l : List ε} {v : SortedMap o α}
    {w : SortedMap o' β}
    (hm : ∀ m n key key' a b, N m key key' → R n a b →
      M (l ++ (m ++ n)) (v.insert key a) (w.insert key' b)) :
    K.Reads (fun m => M (l ++ m)) (Json.readEntry name read v) (Json.readEntry name' read' w) := by
  intro cs
  refine readAndThen (hn cs) fun m key key' r hk => mapTo (readValue h r) fun n a b hab => ?_
  exact hm m n key key' a b hk hab

theorem readField {label : String} {read : Reader δ α} {read' : Reader ε β}
    {P : List ε → Option α × γ → Option β × ζ → Prop} (h : K.Reads R read read')
    {v : Option α × γ} {w : Option β × ζ} {l : List ε} (hs : v.1.isSome = w.1.isSome)
    (hp : ∀ m a b, v.1 = none → R m a b → P (l ++ m) (some a, v.2) (some b, w.2)) :
    K.Reads (fun m => P (l ++ m)) (Json.readField label read v)
      (Json.readField label read' w) := by
  intro cs
  simp only [Json.readField]
  rcases hv : v.1 with _ | a <;> rcases hw : w.1 with _ | b
  · exact mapTo (readValue h cs) fun m a b hab => hp m a b hv hab
  · simp [hv, hw] at hs
  · simp [hv, hw] at hs
  · exact fail _

theorem readFields {field : List Char → α → Reader δ α} {field' : List Char → β → Reader ε β}
    (h : ∀ name l v w, R l v w → K.Reads (fun m => R (l ++ m)) (field name v) (field' name w))
    {v : α} {w : β} (hvw : R [] v w) :
    K.Reads R (Json.readFields field v) (Json.readFields field' w) := by
  refine readMembers (fun l v w hvw cs => ?_) hvw
  exact scanAndThen (readString "a field") cs fun name r => h name l v w hvw r

theorem readRecord {name : String} {size : Nat} {parts : String → Reader δ α}
    {parts' : String → Reader ε β} {fields : Reader δ γ} {fields' : Reader ε ζ}
    {complete : γ → Log δ (Except Fault α)} {complete' : ζ → Log ε (Except Fault β)}
    (hp : ∀ expected, K.Reads R (parts expected) (parts' expected)) (hf : K.Reads S fields fields')
    (hc : ∀ l v w, S l v w → K.Rel (fun m => R (l ++ m)) (complete v) (complete' w)) :
    K.Reads R (Json.readRecord name size parts fields complete)
      (Json.readRecord name size parts' fields' complete') := by
  intro cs
  simp only [Json.readRecord]
  split
  · exact readArray _ (hp _) _
  · refine readObject _ (fun cs => ?_) _
    exact readAndThen (hf cs) fun l v w r hvw => leaving r (hc l v w hvw)

/-! ## Single values -/

theorem readOption {read : Reader δ α} {read' : Reader ε β} {O : List ε → Option α → Option β → Prop}
    (h : K.Reads R read read') (hn : O [] none none)
    (hs : ∀ l v w, R l v w → O l (some v) (some w)) :
    K.Reads O (Json.readOption read) (Json.readOption read') := by
  intro cs
  simp only [Json.readOption]
  split
  · refine mapTo (ofScan _ (R := Same) (fun v => ⟨rfl, rfl⟩) _) ?_
    rintro l v w ⟨rfl, -⟩
    exact hn
  · exact mapTo (h _) hs

/-- Nothing changes where every value passes in silence. -/
theorem readChecked_ok (read : Reader δ α) :
    Json.readChecked (fun v => pure (.ok v)) read = read := by
  funext cs
  simp only [Json.readChecked, Reader.andThen, Reader.leaving, Log.pure_ok_andThen]
  exact Log.andThen_ok (read cs)

theorem readChecked {check : α → Log δ (Except Fault γ)} {check' : β → Log ε (Except Fault ζ)}
    {read : Reader δ α} {read' : Reader ε β} (h : K.Reads R read read')
    (hc : ∀ l v w, R l v w → K.Rel (fun m => S (l ++ m)) (check v) (check' w)) :
    K.Reads S (Json.readChecked check read) (Json.readChecked check' read') :=
  fun cs => readAndThen (h cs) fun l v w r hvw => leaving r (hc l v w hvw)

theorem readPresentItems {wrap : List α → Log δ γ} {wrap' : List β → Log ε ζ} {read : Reader δ α}
    {read' : Reader ε β} (h : K.Reads R read read')
    (he : K.Rel S (.ok <$> wrap []) (.ok <$> wrap' []))
    (hf : ∀ l v w, R l v w →
      K.Rel (fun m => S (l ++ m)) (.ok <$> wrap [v]) (.ok <$> wrap' [w])) :
    K.Reads S (Json.readPresentItems wrap read) (Json.readPresentItems wrap' read') := by
  intro cs
  simp only [Json.readPresentItems]
  split
  · exact fail _
  · exact leaving _ he
  · refine readAndThen (h _) fun l v w r hvw => scanAndThen skipItems r fun _ r' => ?_
    exact leaving r' (hf l v w hvw)

theorem readNoName (expected : String) :
    K.Reads R (Json.readNoName expected) (Json.readNoName expected) :=
  fun cs => scanAndThen (readString expected) cs fun _ _ => fail _

/-- What is read from a whole text relates as the readers do. -/
theorem readWhole {read : Reader δ α} {read' : Reader ε β} (h : K.Reads R read read')
    (text : String) : K.Rel R (Json.readWhole read text) (Json.readWhole read' text) := by
  refine K.andThen (h text.toList) ?_
  rintro l ⟨v, r⟩ ⟨w, r'⟩ ⟨hr, hvw⟩
  cases hr
  dsimp only
  cases skipBlanks r with
  | nil => exact K.ok (by rwa [List.append_nil])
  | cons c cs => exact K.error .malformed

end Kinship

end Refinement
