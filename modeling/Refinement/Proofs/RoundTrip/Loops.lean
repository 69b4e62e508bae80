import Refinement.Proofs.RoundTrip.Numbers

/-!
# Arrays and objects are read back

A reader that reads each of several words back reads the array of them back, and likewise for the
members of an object. The words have to open as values do, so that none is taken for the end.

* `Yields`: a reader comes to a value and leaves a rest.
* `Opens`: how the text of a value begins.
* `readItemsWith_joined`, `readExactly_joined`: the items of an array.
* `readMembersWith_joined`: the members of an object, told by a `Chain` of what comes of them.
-/

namespace Refinement.Json

variable {ε α β : Type}

/-! ## Single steps -/

/-- The outcome is the value `v`, and `r` is left of the text. -/
def Yields (x : Log ε (Except Fault (α × List Char))) (v : α) (r : List Char) : Prop :=
  x.result = .ok (v, r)

namespace Yields

variable {x : Log ε (Except Fault (α × List Char))} {v : α} {r : List Char}

theorem of_eq {y : Log ε (Except Fault (α × List Char))} (e : x = y) (h : Yields y v r) :
    Yields x v r :=
  e ▸ h

theorem andThen (h : Yields x v r) {f : α → List Char → Log ε (Except Fault (β × List Char))}
    {w : β} {r' : List Char} (hf : Yields (f v r) w r') : Yields (Reader.andThen x f) w r' := by
  obtain ⟨l, x⟩ := x
  cases (h : x = .ok (v, r))
  exact hf

theorem mapTo (h : Yields x v r) (f : α → β) : Yields (Reader.mapTo f x) (f v) r :=
  h.andThen rfl

theorem ofScan {s : Scan α} {cs : List Char} (h : s cs = .ok (v, r)) :
    Yields (ε := ε) (Reader.ofScan s cs) v r := h

theorem leaving {x : Log ε (Except Fault α)} (h : x.result = .ok v) (r : List Char) :
    Yields (Reader.leaving r x) v r := by
  obtain ⟨l, x⟩ := x
  cases (h : x = .ok v)
  rfl

end Yields

/-! ## Words -/

/-- How the text of a value begins: not with a blank, and not as the end of an array. -/
def Opens (w : List Char) : Prop := ∃ c cs, w = c :: cs ∧ isBlank c = false ∧ c ≠ ']'

/-- How the text of a name begins. -/
def OpensName (w : List Char) : Prop := ∃ cs, w = '"' :: cs

/-- Words with commas between them, and one before the first unless `first` says that it is. -/
def joined : Bool → List (List Char) → List Char
  | _, [] => []
  | first, w :: ws => (if first then w else ',' :: w) ++ joined false ws

theorem separated_eq_joined : ∀ ws : List (List Char), separated ws = joined true ws
  | [] => rfl
  | [w] => (List.append_nil w).symm
  | w :: u :: ws => by
    show w ++ ',' :: separated (u :: ws) = w ++ (',' :: u ++ joined false ws)
    rw [separated_eq_joined (u :: ws)]
    rfl

theorem Opens.skipBlanks_eq {w : List Char} (h : Opens w) (r : List Char) :
    skipBlanks (w ++ r) = w ++ r := by
  obtain ⟨c, cs, rfl, hc, -⟩ := h
  exact skipBlanks_of_not_blank hc _

theorem Opens.pos {w : List Char} (h : Opens w) : 0 < w.length := by
  obtain ⟨c, cs, rfl, -⟩ := h
  exact Nat.succ_pos _

theorem OpensName.pos {w : List Char} (h : OpensName w) : 0 < w.length := by
  obtain ⟨cs, rfl⟩ := h
  exact Nat.succ_pos _

/-- There are no more words than characters. -/
theorem length_le_joined (first : Bool) {ws : List (List Char)} (h : ∀ w ∈ ws, 0 < w.length) :
    ws.length ≤ (joined first ws).length := by
  induction ws generalizing first with
  | nil => exact Nat.le_refl 0
  | cons w ws ih =>
    obtain ⟨hw, h⟩ := List.forall_mem_cons.1 h
    have := ih false h
    cases first <;> simp only [joined, List.length_append, List.length_cons] <;> simp <;> omega

/-- What stands behind a word among others delimits it. -/
theorem delimits_joined (ws : List (List Char)) {r : List Char} (hr : Delimits r) :
    Delimits (joined false ws ++ r) := by
  cases ws with
  | nil => exact hr
  | cons w ws => exact .comma _

/-! ## Arrays -/

theorem nextItem_word (first : Bool) {w : List Char} (h : Opens w) (r : List Char) :
    nextItem first ((if first then w else ',' :: w) ++ r) = .ok (true, w ++ r) := by
  have hskip := h.skipBlanks_eq r
  obtain ⟨c, cs, rfl, hc, hb⟩ := h
  have hcomma : skipBlanks (',' :: (c :: cs ++ r)) = ',' :: (c :: cs ++ r) := skipBlanks_of_not_blank rfl _
  cases first with
  | true =>
    rw [if_pos rfl]
    unfold nextItem
    rw [hskip, List.cons_append]
    split
    · next h => cases h
    · next h => exact absurd (List.cons.inj h).1 hb
    · next h =>
      cases h
      rfl
  | false =>
    rw [if_neg Bool.false_ne_true, List.cons_append]
    unfold nextItem
    split
    · next h =>
      rw [hcomma] at h
      cases h
    · next h =>
      rw [hcomma] at h
      cases h
    · next h =>
      rw [hcomma] at h
      cases h
      rw [if_neg Bool.false_ne_true, if_pos rfl, hskip, List.cons_append]
      split
      · next h => cases h
      · next h => exact absurd (List.cons.inj h).1 hb
      · rfl

section Arrays

variable {read : Reader ε α} {write : α → List Char}

/-- Items that are read back one by one are read back from an array. -/
theorem readItemsWith_joined {vs : List α} (ho : ∀ v ∈ vs, Opens (write v))
    (h : ∀ v ∈ vs, ∀ r, Delimits r → Yields (read (write v ++ r)) v r) {fuel : Nat}
    (hf : vs.length < fuel) (first : Bool) (r : List Char) :
    Yields (readItemsWith read fuel first (joined first (vs.map write) ++ ']' :: r)) vs (']' :: r) := by
  induction vs generalizing fuel first with
  | nil =>
    obtain ⟨fuel, rfl⟩ : ∃ k, fuel = k + 1 := ⟨fuel - 1, by simp at hf; omega⟩
    exact rfl
  | cons v vs ih =>
    obtain ⟨fuel, rfl⟩ : ∃ k, fuel = k + 1 := ⟨fuel - 1, by omega⟩
    obtain ⟨hv, ho⟩ := List.forall_mem_cons.1 ho
    obtain ⟨hread, h⟩ := List.forall_mem_cons.1 h
    have hnext := nextItem_word first hv (joined false (vs.map write) ++ ']' :: r)
    rw [List.map_cons, joined, List.append_assoc]
    simp only [readItemsWith, hnext]
    refine (hread _ (delimits_joined _ (.bracket r))).andThen ?_
    exact (ih ho h (by simpa using hf) false).mapTo (v :: ·)

theorem readItems_joined {vs : List α} (ho : ∀ v ∈ vs, Opens (write v))
    (h : ∀ v ∈ vs, ∀ r, Delimits r → Yields (read (write v ++ r)) v r) (r : List Char) :
    Yields (readItems read (separated (vs.map write) ++ ']' :: r)) vs (']' :: r) := by
  have hpos : ∀ w ∈ vs.map write, 0 < w.length := by
    intro w hw
    obtain ⟨v, hv, rfl⟩ := List.mem_map.1 hw
    exact (ho v hv).pos
  have hlen := length_le_joined true hpos
  rw [separated_eq_joined]
  refine readItemsWith_joined ho h ?_ true r
  rw [List.length_map] at hlen
  rw [List.length_append]
  omega

/-- The items of an array of a fixed length, of which `i` stand before these. -/
theorem readExactly_joined (expected : String) {vs : List α} (ho : ∀ v ∈ vs, Opens (write v))
    (h : ∀ v ∈ vs, ∀ r, Delimits r → Yields (read (write v ++ r)) v r) {n : Nat}
    (hn : vs.length = n) (i : Nat) (r : List Char) :
    Yields (readExactly read expected n i (joined (i == 0) (vs.map write) ++ ']' :: r)) ⟨vs, hn⟩
      (']' :: r) := by
  subst hn
  induction vs generalizing i with
  | nil => exact rfl
  | cons v vs ih =>
    obtain ⟨hv, ho⟩ := List.forall_mem_cons.1 ho
    obtain ⟨hread, h⟩ := List.forall_mem_cons.1 h
    have hnext := nextItem_word (i == 0) hv (joined false (vs.map write) ++ ']' :: r)
    rw [List.map_cons, joined, List.append_assoc]
    simp only [List.length_cons, readExactly, hnext]
    refine (hread _ (delimits_joined _ (.bracket r))).andThen ?_
    exact (ih ho h (i + 1)).mapTo _

/-- A part of a tuple is read back if the parts behind it are. -/
theorem readPart_joined {β : Type} (expected : String) (i : Nat) {others : Reader ε β} {v : α}
    {vs : β} {w : List Char} {ws : List (List Char)} (ho : Opens w) {r : List Char}
    (h : ∀ r, Delimits r → Yields (read (w ++ r)) v r)
    (hs : Yields (others (joined false ws ++ ']' :: r)) vs (']' :: r)) :
    Yields (readPart expected i read others (joined (i == 0) (w :: ws) ++ ']' :: r)) (v, vs)
      (']' :: r) := by
  have hnext := nextItem_word (i == 0) ho (joined false ws ++ ']' :: r)
  rw [joined, List.append_assoc]
  simp only [readPart, hnext]
  exact (h _ (delimits_joined _ (.bracket r))).andThen (hs.mapTo _)

end Arrays

/-- An array is read back if its items are. -/
theorem readArray_writeArray (expected : String) {body : Reader ε α} {ws : List (List Char)} {v : α}
    {r : List Char} (h : Yields (body (separated ws ++ ']' :: r)) v (']' :: r)) :
    Yields (readArray expected body (writeArray ws ++ r)) v r := by
  have hw : writeArray ws ++ r = '[' :: (separated ws ++ ']' :: r) := by
    unfold writeArray
    rw [List.cons_append, List.cons_append, List.append_assoc]
    rfl
  rw [hw]
  show Yields (Reader.andThen (body (separated ws ++ ']' :: r)) _) v r
  refine h.andThen ?_
  exact (Yields.ofScan (s := endArray) rfl).mapTo _

/-- Of an array that stands for a value that is present, the only item is the value. -/
theorem readPresentItems_joined {β : Type} (wrap : List α → Log ε β) {read : Reader ε α}
    {write : α → List Char} {vs : List α} (hvs : vs.length ≤ 1) (ho : ∀ v ∈ vs, Opens (write v))
    (h : ∀ v ∈ vs, ∀ r, Delimits r → Yields (read (write v ++ r)) v r) (r : List Char) :
    Yields (readPresentItems wrap read (separated (vs.map write) ++ ']' :: r)) (wrap vs).result
      (']' :: r) := by
  match vs with
  | [] => exact Yields.leaving rfl _
  | [v] =>
    have hnext := nextItem_word true (ho v List.mem_cons_self) (']' :: r)
    show Yields (readPresentItems wrap read (write v ++ ']' :: r)) _ _
    rw [if_pos rfl] at hnext
    simp only [readPresentItems, hnext]
    refine (h v List.mem_cons_self _ (.bracket r)).andThen ?_
    refine (Yields.ofScan (s := skipItems) (v := ()) (r := ']' :: r) rfl).andThen ?_
    exact Yields.leaving rfl _
  | _ :: _ :: _ => exact absurd hvs (by simp)

/-! ## Objects -/

theorem nextName_word (first : Bool) {w : List Char} (h : OpensName w) (r : List Char) :
    nextName first ((if first then w else ',' :: w) ++ r) = .ok (true, w ++ r) := by
  obtain ⟨cs, rfl⟩ := h
  cases first with
  | true => rfl
  | false => rfl

/-- What comes of members that are read one after another, each from its own word. -/
inductive Chain (member : α → Reader ε α) : α → List (List Char) → α → Prop where
  | nil (s : α) : Chain member s [] s
  | cons {s s' s'' : α} {w : List Char} {ws : List (List Char)} (opens : OpensName w)
      (step : ∀ r, Delimits r → Yields (member s (w ++ r)) s' r) (rest : Chain member s' ws s'') :
      Chain member s (w :: ws) s''

theorem Chain.opens {member : α → Reader ε α} {s s' : α} {ws : List (List Char)}
    (h : Chain member s ws s') : ∀ w ∈ ws, OpensName w := by
  induction h with
  | nil => exact nofun
  | cons opens _ _ ih => exact List.forall_mem_cons.2 ⟨opens, ih⟩

theorem readMembersWith_joined {member : α → Reader ε α} {s s' : α} {ws : List (List Char)}
    (h : Chain member s ws s') {fuel : Nat} (hf : ws.length < fuel) (first : Bool)
    (r : List Char) :
    Yields (readMembersWith member fuel first s (joined first ws ++ '\x7d' :: r)) s' ('\x7d' :: r) := by
  induction h generalizing fuel first with
  | nil s =>
    obtain ⟨fuel, rfl⟩ : ∃ k, fuel = k + 1 := ⟨fuel - 1, by simp at hf; omega⟩
    exact rfl
  | @cons s s' s'' w ws opens step _ ih =>
    obtain ⟨fuel, rfl⟩ : ∃ k, fuel = k + 1 := ⟨fuel - 1, by omega⟩
    have hnext := nextName_word first opens (joined false ws ++ '\x7d' :: r)
    rw [joined, List.append_assoc]
    simp only [readMembersWith, hnext]
    exact (step _ (delimits_joined _ (.brace r))).andThen (ih (by simpa using hf) false)

/-- A member as it is written. -/
def memberText (m : List Char × List Char) : List Char := m.1 ++ ':' :: m.2

/-- An object is read back if its members are. -/
theorem readObject_writeObject (expected : String) {body : Reader ε α}
    {ms : List (List Char × List Char)} {v : α} {r : List Char}
    (h : Yields (body (separated (ms.map memberText) ++ '\x7d' :: r)) v ('\x7d' :: r)) :
    Yields (readObject expected body (writeObject ms ++ r)) v r := by
  have hw : writeObject ms ++ r = '\x7b' :: (separated (ms.map memberText) ++ '\x7d' :: r) := by
    unfold writeObject
    rw [List.cons_append, List.cons_append, List.append_assoc]
    rfl
  rw [hw]
  show Yields (Reader.andThen (body (separated (ms.map memberText) ++ '\x7d' :: r)) _) v r
  refine h.andThen ?_
  exact (Yields.ofScan (s := endObject) rfl).mapTo _

theorem readMembers_separated {member : α → Reader ε α} {s s' : α} {ws : List (List Char)}
    (h : Chain member s ws s') (r : List Char) :
    Yields (readMembers member s (separated ws ++ '\x7d' :: r)) s' ('\x7d' :: r) := by
  have hlen := length_le_joined true fun w hw => (h.opens w hw).pos
  rw [separated_eq_joined]
  refine readMembersWith_joined h ?_ true r
  rw [List.length_append]
  omega

/-- The value of a member is read back from behind its colon. -/
theorem readValue_colon {read : Reader ε α} {v : α} {w r : List Char}
    (h : Yields (read (w ++ r)) v r) : Yields (readValue read (':' :: w ++ r)) v r :=
  (Yields.ofScan (s := colon) (v := ()) rfl).andThen h

/-! ## Other readers -/

section Others

variable {read : Reader ε α}

theorem readOption_null (r : List Char) :
    Yields (readOption read ("null".toList ++ r)) none r :=
  (Yields.ofScan (s := literal ['u', 'l', 'l']) (literal_append ['u', 'l', 'l'] r)).mapTo _

/-- A value that does not begin as null does is read back where it is optional. -/
theorem readOption_some {v : α} {w r : List Char} (ho : Opens w) (hn : w.head? ≠ some 'n')
    (h : Yields (read (w ++ r)) v r) : Yields (readOption read (w ++ r)) (some v) r := by
  have hskip := ho.skipBlanks_eq r
  obtain ⟨c, cs, rfl, -⟩ := ho
  unfold readOption
  rw [hskip, List.cons_append]
  split
  · next h => exact absurd (congrArg some (List.cons.inj h).1) hn
  · exact h.mapTo some

theorem readChecked_ok {β : Type} {check : α → Log ε (Except Fault β)} {v : α} {x : β}
    {cs r : List Char} (h : Yields (read cs) v r) (hc : (check v).result = .ok x) :
    Yields (readChecked check read cs) x r :=
  h.andThen (Yields.leaving hc r)

end Others

end Refinement.Json
