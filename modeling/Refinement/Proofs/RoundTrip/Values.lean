import Refinement.Proofs.RoundTrip.Loops
import Refinement.Proofs.RoundTrip.Scalars

/-!
# Written values are read back

A value of every faithful type is read back from its text. Refined values are read back because what
they hold passes again, sets and maps because putting their own entries in gives them again, records
because their labels are distinct.

* `Ty.isFaithful`: no numbers are rounded, null stands for one value only, and the keys of maps are
  names.
* `Ty.read_write`: the round trip in front of any text.
* `Row.chain_writeParts`: the fields of a record are read one after another.
-/

namespace Refinement

open Json

/-! ## Faithful types -/

/-- Whether the text of a value may be null. -/
def Ty.isNullable : Ty → Bool
  | .option _ => true
  | .refined t _ => t.isNullable
  | .tuple .nil => true
  | _ => false

/-- Whether all values of a type can be names of members. -/
def Ty.isName : Ty → Bool
  | .scalar (.key _) => true
  | .refined t _ => t.isName
  | _ => false

/-- The names of the parts. -/
def Row.labels : Row → List String
  | .nil => []
  | .cons label _ r => label :: r.labels

mutual

/-- Whether values are told apart by their texts: there are no floating-point numbers and no counts
inside, an optional value is not null by itself, keys are names and fields have different names. -/
def Ty.isFaithful : Ty → Bool
  | .scalar (.key _) => true
  | .scalar _ => false
  | .list _ t => t.isFaithful
  | .array t _ => t.isFaithful
  | .set t => t.isFaithful
  | .map k t => k.isName && t.isFaithful
  | .option t => !t.isNullable && t.isFaithful
  | .refined t _ => t.isFaithful
  | .present t => t.isFaithful
  | .tuple r => r.isFaithful
  | .record _ _ r => decide r.labels.Nodup && r.isFaithful

/-- Whether this is so of all parts. -/
def Row.isFaithful : Row → Bool
  | .nil => true
  | .cons _ t r => t.isFaithful && r.isFaithful

end

/-! ## How texts begin -/

namespace Ty

/-- The text of a value begins neither with a blank nor as the end of an array, and as null only at
a type with a value that is null. -/
theorem write_eq_cons : ∀ (t : Ty) (v : t.Val), t.isFaithful = true →
    ∃ c cs, t.write v = c :: cs ∧ isBlank c = false ∧ c ≠ ']' ∧ (t.isNullable = false → c ≠ 'n')
  | .scalar (.key k), v, _ => by
    obtain ⟨c, cs, hw, hc, hb, hn⟩ := k.write_eq_cons v
    exact ⟨c, cs, hw, hc, hb, fun _ => hn⟩
  | .list _ _, _, _ => ⟨'[', _, rfl, rfl, by decide, fun _ => by decide⟩
  | .array _ _, _, _ => ⟨'[', _, rfl, rfl, by decide, fun _ => by decide⟩
  | .set _, _, _ => ⟨'[', _, rfl, rfl, by decide, fun _ => by decide⟩
  | .map _ _, _, _ => ⟨'\x7b', _, rfl, rfl, by decide, fun _ => by decide⟩
  | .option _, none, _ => ⟨'n', ['u', 'l', 'l'], rfl, rfl, by decide, nofun⟩
  | .option t, some v, h => by
    obtain ⟨-, ht⟩ := (Bool.and_eq_true _ _).mp h
    obtain ⟨c, cs, hw, hc, hb, -⟩ := t.write_eq_cons v ht
    exact ⟨c, cs, hw, hc, hb, nofun⟩
  | .refined t _, v, h => t.write_eq_cons v.value h
  | .present _, _, _ => ⟨'[', _, rfl, rfl, by decide, fun _ => by decide⟩
  | .tuple .nil, _, _ => ⟨'n', ['u', 'l', 'l'], rfl, rfl, by decide, nofun⟩
  | .tuple (.cons _ _ _), _, _ => ⟨'[', _, rfl, rfl, by decide, fun _ => by decide⟩
  | .record _ _ _, _, _ => ⟨'\x7b', _, rfl, rfl, by decide, fun _ => by decide⟩

variable {t : Ty}

theorem opens_write (h : t.isFaithful = true) (v : t.Val) : Opens (t.write v) := by
  obtain ⟨c, cs, hw, hc, hb, -⟩ := t.write_eq_cons v h
  exact ⟨c, cs, hw, hc, hb⟩

theorem head?_write_ne (h : t.isFaithful = true) (hn : t.isNullable = false) (v : t.Val) :
    (t.write v).head? ≠ some 'n' := by
  obtain ⟨c, cs, hw, -, -, hc⟩ := t.write_eq_cons v h
  rw [hw, List.head?_cons]
  exact fun h => hc hn (Option.some.inj h)

/-! ## Names -/

theorem hasForm_of_isName : ∀ t : Ty, t.isName = true → t.hasForm = true
  | .scalar (.key _), _ => rfl
  | .refined t _, h => t.hasForm_of_isName h

theorem hasName_of_isName : ∀ t : Ty, t.isName = true → ∀ v : t.Val, t.hasName v = true
  | .scalar (.key _), _, _ => rfl
  | .refined t _, h, v => t.hasName_of_isName h v.value

theorem opensName_writeName : ∀ (t : Ty), t.isName = true → ∀ v : t.Val, OpensName (t.writeName v)
  | .scalar (.key k), _, v => k.writeName_eq_cons v
  | .refined t _, h, v => t.opensName_writeName h v.value

/-- What a refined value holds passes when it is read again. -/
theorem check_value {p : Predicate} (x : Refined (t.requirement p)) :
    (t.check p x.value).result = .ok x := by
  unfold check
  rw [x.refine_value]
  rfl

/-- A value that can be the name of a member is read back from its name. -/
theorem readName_writeName : ∀ (t : Ty), t.isName = true → ∀ (v : t.Val) (r : List Char),
    Yields (t.readName (t.writeName v ++ r)) v r
  | .scalar (.key k), _, v, r => Yields.ofScan (readScalarName_writeName k v r)
  | .refined t _, h, v, r => readChecked_ok (t.readName_writeName h v.value r) (check_value v)

end Ty

/-! ## Sets and maps -/

namespace Json

variable {ε α κ : Type}

/-- A set is read back from its members. -/
theorem readSet_keys {o : TotalOrder α} {read : Reader ε α} {write : α → List Char}
    {m : SortedMap o Unit} (ho : ∀ v ∈ m.keys, Opens (write v))
    (h : ∀ v ∈ m.keys, ∀ r, Delimits r → Yields (read (write v ++ r)) v r) (r : List Char) :
    Yields (readSet (o := o) read (separated (m.keys.map write) ++ ']' :: r)) m (']' :: r) := by
  have hset := (readItems_joined ho h r).mapTo fun ks =>
    SortedMap.ofList (o := o) (ks.map fun key => (key, ()))
  rwa [SortedMap.ofList_keys] at hset

/-- The entries of a map are read back one after another. -/
theorem chain_entries {o : TotalOrder κ} {name : Reader ε κ} {read : Reader ε α}
    {writeName : κ → List Char} {write : α → List Char} {es : List (κ × α)}
    (ho : ∀ e ∈ es, OpensName (writeName e.1))
    (hn : ∀ e ∈ es, ∀ r, Yields (name (writeName e.1 ++ r)) e.1 r)
    (hv : ∀ e ∈ es, ∀ r, Delimits r → Yields (read (write e.2 ++ r)) e.2 r) (m : SortedMap o α) :
    Chain (readEntry name read) m (es.map fun e => memberText (writeName e.1, write e.2))
      (es.foldl (fun m e => m.insert e.1 e.2) m) := by
  induction es generalizing m with
  | nil => exact .nil m
  | cons e es ih =>
    obtain ⟨hoe, ho⟩ := List.forall_mem_cons.1 ho
    obtain ⟨hne, hn⟩ := List.forall_mem_cons.1 hn
    obtain ⟨hve, hv⟩ := List.forall_mem_cons.1 hv
    refine .cons ?_ ?_ (ih ho hn hv (m.insert e.1 e.2))
    · obtain ⟨cs, hcs⟩ := hoe
      exact ⟨_, congrArg (· ++ ':' :: write e.2) hcs⟩
    · intro r hr
      unfold memberText
      rw [List.append_assoc]
      exact (hne _).andThen ((readValue_colon (hve r hr)).mapTo _)

/-- A map is read back from its entries. -/
theorem readMembers_entries {o : TotalOrder κ} {name : Reader ε κ} {read : Reader ε α}
    {writeName : κ → List Char} {write : α → List Char} {m : SortedMap o α}
    (ho : ∀ e ∈ m.entries, OpensName (writeName e.1))
    (hn : ∀ e ∈ m.entries, ∀ r, Yields (name (writeName e.1 ++ r)) e.1 r)
    (hv : ∀ e ∈ m.entries, ∀ r, Delimits r → Yields (read (write e.2 ++ r)) e.2 r)
    (r : List Char) :
    Yields (readMembers (readEntry name read) (SortedMap.empty (o := o))
      (separated (m.entries.map fun e => memberText (writeName e.1, write e.2)) ++ '\x7d' :: r)) m
      ('\x7d' :: r) := by
  have hm : m.entries.foldl (fun m e => m.insert e.1 e.2) SortedMap.empty = m :=
    SortedMap.ofList_entries m
  have hchain := chain_entries ho hn hv (SortedMap.empty (o := o))
  rw [hm] at hchain
  exact readMembers_separated hchain r

/-- Reads a member as a field, behind which `field` reads its value. -/
def readMember (field : List Char → α → Reader ε α) (state : α) : Reader ε α := fun cs =>
  Reader.andThen (Reader.ofScan (readString "a field") cs) fun name r => field name state r

/-- A record is read back from an object if its fields are. -/
theorem readRecord_writeObject {β : Type} (label : String) (size : Nat) (parts : String → Reader ε α)
    {fields : Reader ε β} {complete : β → Log ε (Except Fault α)}
    {ms : List (List Char × List Char)} {s : β} {v : α} {r : List Char}
    (h : Yields (fields (separated (ms.map memberText) ++ '\x7d' :: r)) s ('\x7d' :: r))
    (hc : (complete s).result = .ok v) :
    Yields (readRecord label size parts fields complete (writeObject ms ++ r)) v r := by
  show Yields (readObject ("struct " ++ label) _ (writeObject ms ++ r)) v r
  exact readObject_writeObject _ (h.andThen (Yields.leaving hc _))

end Json

/-! ## Records -/

namespace Row

variable {label : String} {t : Ty} (r : Row)

theorem readNamed_first {v : t.Val} {w rest : List Char} (s : r.Partial)
    (h : Yields (t.read (w ++ rest)) v rest) :
    Yields ((Row.cons label t r).readNamed label.toList (none, s) (':' :: w ++ rest)) (some v, s)
      rest := by
  have hfield : (Row.cons label t r).readNamed label.toList (none, s) =
      readField label t.read (none, s) := if_pos rfl
  refine .of_eq (congrFun hfield _) ?_
  exact (readValue_colon h).mapTo _

theorem readNamed_other {name cs rest : List Char} {s s' : r.Partial} (hne : label.toList ≠ name)
    (o : Option t.Val) (h : Yields (r.readNamed name s cs) s' rest) :
    Yields ((Row.cons label t r).readNamed name (o, s) cs) (o, s') rest := by
  have hothers : (Row.cons label t r).readNamed name (o, s) =
      fun cs => Reader.mapTo (fun others => (o, others)) (r.readNamed name s cs) := if_neg hne
  refine .of_eq (congrFun hothers cs) ?_
  exact h.mapTo _

/-- All fields have been read. -/
def full : (r : Row) → r.Val → r.Partial
  | .nil, _ => ()
  | .cons _ _ r, v => (some v.1, r.full v.2)

/-- The record of all fields that were read is the record. -/
theorem complete_full (r : Row) (v : r.Val) : (r.complete (r.full v)).result = .ok v := by
  induction r with
  | nil => rfl
  | cons label t r ih =>
    have hrest := ih v.2
    unfold complete full
    show ((r.complete (r.full v.2)).andThen _).result = _
    generalize r.complete (r.full v.2) = x at hrest
    obtain ⟨l, x⟩ := x
    cases (hrest : x = .ok v.2)
    rfl

end Row

/-! ## Values -/

mutual

/-- A value is read back from its text. -/
theorem Ty.read_write : ∀ (t : Ty), t.isFaithful = true → ∀ (v : t.Val) (r : List Char), Delimits r →
    Yields (t.read (t.write v ++ r)) v r
  | .scalar (.key k), _, v, _, hr => Yields.ofScan (readKey_write k v hr)
  | .list _ t, h, vs, r, _ =>
    readArray_writeArray _
      (readItems_joined (fun v _ => t.opens_write h v) (fun v _ => t.read_write h v) r)
  | .array t n, h, vs, r, _ => by
    refine readArray_writeArray _ ?_
    rw [separated_eq_joined]
    exact readExactly_joined _ (fun v _ => t.opens_write h v) (fun v _ => t.read_write h v)
      vs.property 0 r
  | .set t, h, m, r, _ =>
    readArray_writeArray _
      (readSet_keys (o := t.order) (fun v _ => t.opens_write h v) (fun v _ => t.read_write h v) r)
  | .map k t, h, m, r, _ => by
    obtain ⟨hk, ht⟩ := (Bool.and_eq_true _ _).mp h
    refine readObject_writeObject _ ?_
    rw [List.map_map]
    exact readMembers_entries (o := k.order) (fun e _ => k.opensName_writeName hk e.1)
      (fun e _ => k.readName_writeName hk e.1) (fun e _ => t.read_write ht e.2) r
  | .option t, _, none, r, _ => readOption_null r
  | .option t, h, some v, r, hr => by
    obtain ⟨hn, ht⟩ := (Bool.and_eq_true _ _).mp h
    have hn : t.isNullable = false := by simpa using hn
    exact readOption_some (t.opens_write ht v) (t.head?_write_ne ht hn v) (t.read_write ht v r hr)
  | .refined t _, h, x, r, hr => readChecked_ok (t.read_write h x.value r hr) (Ty.check_value x)
  | .present t, h, x, r, _ => by
    refine readArray_writeArray _ ?_
    have hlen : (Present.toList x).length ≤ 1 := by
      cases x with
      | uninitialized => exact Nat.zero_le 1
      | holding v => exact Nat.le_refl 1
    have hitems := readPresentItems_joined (Present.ofFirst t.name) hlen
      (fun v _ => t.opens_write h v) (fun v _ => t.read_write h v) r
    have hwrap : (Present.ofFirst t.name (Present.toList x)).result = x := by cases x <;> rfl
    rwa [hwrap] at hitems
  | .tuple .nil, _, _, r, _ => Yields.ofScan (literal_append ['u', 'l', 'l'] r)
  | .tuple (.cons label t p), h, v, r, _ => by
    refine readArray_writeArray (Ty.tuple (.cons label t p)).words ?_
    rw [separated_eq_joined]
    exact (Row.cons label t p).readParts_writeParts h v _ 0 r
  | .record _ name p, h, v, r, _ => by
    obtain ⟨hl, hp⟩ := (Bool.and_eq_true _ _).mp h
    have hchain := p.chain_writeParts hp (of_decide_eq_true hl) v p.readNamed id
      fun _ _ _ _ _ _ h => h
    exact readRecord_writeObject name p.size _ (readMembers_separated hchain r) (p.complete_full v)

/-- Parts are read back one after another, where `i` stand before them. -/
theorem Row.readParts_writeParts : ∀ (p : Row), p.isFaithful = true → ∀ (v : p.Val)
    (expected : String) (i : Nat) (r : List Char),
    Yields (p.readParts expected i (joined (i == 0) ((p.writeParts v).map (·.2)) ++ ']' :: r)) v
      (']' :: r)
  | .nil, _, _, _, _, _ => rfl
  | .cons _ t p, h, v, expected, i, r => by
    obtain ⟨ht, hp⟩ := (Bool.and_eq_true _ _).mp h
    exact readPart_joined expected i (t.opens_write ht v.1) (t.read_write ht v.1)
      (p.readParts_writeParts hp v.2 expected (i + 1) r)

/-- The fields of a record are read one after another. The record may be the last fields of a
greater one, whose other fields have other names; `embed` is how it lies in it. -/
theorem Row.chain_writeParts : ∀ (p : Row), p.isFaithful = true → p.labels.Nodup → ∀ (v : p.Val)
    {α : Type} (field : List Char → α → Reader Event α) (embed : p.Partial → α),
    (∀ label ∈ p.labels, ∀ s s' cs cs', Yields (p.readNamed label.toList s cs) s' cs' →
      Yields (field label.toList (embed s) cs) (embed s') cs') →
    Chain (readMember field) (embed p.noFields) ((p.writeParts v).map memberText)
      (embed (p.full v))
  | .nil, _, _, _, _, _, _, _ => .nil _
  | .cons label t p, h, hl, v, _, field, embed, hfield => by
    obtain ⟨ht, hp⟩ := (Bool.and_eq_true _ _).mp h
    obtain ⟨hnew, hl⟩ := List.nodup_cons.1 hl
    have hstep : ∀ r, Delimits r → Yields
        (readMember field (embed (none, p.noFields))
          (memberText (writeText label.toList, t.write v.1) ++ r))
        (embed (some v.1, p.noFields)) r := by
      intro r hr
      unfold memberText
      rw [List.append_assoc]
      refine (Yields.ofScan (readString_writeText "a field" label.toList _)).andThen ?_
      apply hfield label List.mem_cons_self
      exact p.readNamed_first p.noFields (t.read_write ht v.1 r hr)
    have hrest := p.chain_writeParts hp hl v.2 field (fun s => embed (some v.1, s)) (by
      intro other hmem s s' cs cs' hs
      apply hfield other (List.mem_cons_of_mem _ hmem)
      -- the first field has another name, so that this one is among the others
      have hne : label.toList ≠ other.toList := fun h => hnew (String.toList_inj.1 h ▸ hmem)
      exact p.readNamed_other hne (some v.1) hs)
    exact .cons ⟨_, rfl⟩ hstep hrest

end

end Refinement
