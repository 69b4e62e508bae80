import Refinement.Proofs.Presence.Reading
import Refinement.Proofs.RoundTrip.Texts

/-!
# The parts of arrays and objects

Sets and maps are read part by part. What comes of an array or object is the list of what its parts
stand for, in their order and with all repetitions; only then are they put together, one after another.

* `Grammar.Listing`, `Grammar.Collection`: arrays and objects, and what their parts stand for.
* `readListing`: reads the parts of an array or object as a list.
* `ReadsParts`, `readCollection_yields`: a reader of single parts makes one of arrays or objects.
* `Ty.read_set`, `Ty.read_map`: sets and maps are read as lists of parts, which are put in afterwards.
* `Ty.ItemsText`, `Ty.EntriesText`: the texts of lists of items and of entries.
-/

namespace Refinement

namespace Json

open Grammar

variable {ε α κ : Type} {object first : Bool} {u w cs r : List Char}

/-! ## Texts -/

/-- What stands between the marks of an object or array, from the first part on or behind it, and what
the parts stand for. -/
inductive Grammar.Listing (part : List Char → α → Prop) : Bool → List Char → List α → Prop where
  | none {first : Bool} {u : List Char} : Blank u → Listing part first u []
  | more {first : Bool} {u w w' : List Char} {v : α} {vs : List α} : Gap (!first) u → part w v →
    Listing part false w' vs → Listing part first (u ++ (w ++ w')) (v :: vs)

/-- An object or array with the blanks around it, and what its parts stand for. -/
inductive Grammar.Collection (object : Bool) (part : List Char → α → Prop) :
    List Char → List α → Prop where
  | mk {u w u' : List Char} {vs : List α} : Blank u → Listing part true w vs → Blank u' →
    Collection object part (u ++ opening object :: (w ++ closing object :: u')) vs

/-- What stands behind a part ends it. -/
theorem Grammar.Listing.ends {part : List Char → α → Prop} {vs : List α} (h : Listing part false w vs)
    (object : Bool) (r : List Char) : Ends (w ++ closing object :: r) := by
  cases h with
  | none hu => exact hu.ends (ends_closing object r)
  | more hu _ _ =>
    obtain _ | ⟨hu, -⟩ := hu
    simp only [List.append_assoc, List.cons_append]
    refine hu.ends ?_
    rintro c ⟨⟩
    decide

/-- Texts of parts are parts with commas between them. -/
theorem Grammar.Listing.joined {part : List Char → α → Prop} {write : α → List Char} {vs : List α}
    (first : Bool) (h : ∀ v ∈ vs, part (write v) v) :
    Listing part first (joined first (vs.map write)) vs := by
  induction vs generalizing first with
  | nil => exact .none .nil
  | cons v vs ih =>
    obtain ⟨hv, h⟩ := List.forall_mem_cons.1 h
    cases first with
    | true =>
      have hgap : Gap (!true) [] := .blank .nil
      exact .more hgap hv (ih false h)
    | false =>
      have hgap : Gap (!false) [','] := .comma .nil .nil
      exact .more hgap hv (ih false h)

/-! ## Reading lists -/

/-- Reads the parts of an object or array up to the closing mark. -/
def readListingWith (object : Bool) (read : Reader ε α) : Nat → Bool → Reader ε (List α)
  | 0, _ => fun _ => Reader.fail .truncated
  | fuel + 1, first =>
    onNext (nextOf object first)
      (fun r => Reader.andThen (read r) fun v r =>
        Reader.mapTo (v :: ·) (readListingWith object read fuel false r))
      fun r => pure (.ok ([], r))

/-- Reads the parts of an object or array up to the closing mark. Each takes at least one character. -/
def readListing (object : Bool) (read : Reader ε α) : Reader ε (List α) := fun cs =>
  readListingWith object read (cs.length + 1) true cs

/-- Reads an object or array as the list of its parts. -/
def readCollection (object : Bool) (expected : String) (read : Reader ε α) : Reader ε (List α) :=
  readGroup object expected (readListing object read)

/-- Every text of a part is read, in front of whatever may stand behind it; only blanks are left. -/
def ReadsParts (object : Bool) (read : Reader ε α) (part : List Char → α → Prop) : Prop :=
  ∀ w v, part w v → ∀ r, Ends r → ∃ c cs b, skipBlanks (w ++ r) = c :: cs ∧
    begins object c = true ∧ Blank b ∧ Yields (read (c :: cs)) v (b ++ r)

section Parts

variable {read : Reader ε α} {part : List Char → α → Prop} {vs : List α}

theorem readListingWith_append (hu : Blank u) (fuel : Nat) (cs : List Char) :
    readListingWith object read fuel first (u ++ cs) = readListingWith object read fuel first cs := by
  cases fuel with
  | zero => rfl
  | succ fuel =>
    unfold readListingWith onNext Reader.ofScan
    rw [nextOf_append object first hu]

/-- There are no more parts than characters. -/
theorem ReadsParts.length_le (hread : ReadsParts object read part) (h : Listing part first w vs) :
    vs.length ≤ w.length := by
  induction h with
  | none => exact Nat.zero_le _
  | @more _ u w w' v vs _ hw _ ih =>
    have hpos : w ≠ [] := by
      rintro rfl
      obtain ⟨c, cs, b, hcs, -⟩ := hread [] v hw [] .nil
      cases hcs
    have := List.length_pos_iff.2 hpos
    simp only [List.length_append, List.length_cons]
    omega

theorem readListingWith_yields (hread : ReadsParts object read part) (h : Listing part first w vs)
    {fuel : Nat} (hf : vs.length < fuel) (r : List Char) :
    Yields (readListingWith object read fuel first (w ++ closing object :: r)) vs
      (closing object :: r) := by
  induction h generalizing fuel with
  | none hu =>
    obtain ⟨fuel, rfl⟩ : ∃ k, fuel = k + 1 := ⟨fuel - 1, by simp at hf; omega⟩
    unfold readListingWith
    rw [onNext_eq, nextOf_closing object _ hu]
    exact rfl
  | more hu hw h ih =>
    obtain ⟨fuel, rfl⟩ : ∃ k, fuel = k + 1 := ⟨fuel - 1, by omega⟩
    obtain ⟨c, cs, b, hcs, hc, hb, hv⟩ := hread _ _ hw _ (h.ends object r)
    unfold readListingWith
    rw [List.append_assoc, List.append_assoc, onNext_eq, nextOf_part object _ hu hcs hc]
    refine hv.andThen (Yields.mapTo ?_ _)
    -- the blanks that are left of the part belong to what follows it
    rw [readListingWith_append hb]
    exact ih (by simpa using hf)

/-- What the parts of an object or array stand for is read from it. -/
theorem readCollection_yields (hread : ReadsParts object read part) (expected : String)
    (h : Collection object part w vs) :
    ∃ b, Blank b ∧ Yields (readCollection object expected read w) vs b := by
  obtain @⟨u, w, b, vs, hu, hw, hb⟩ := h
  have hlen := hread.length_le hw
  have hlist : Yields (readListing object read (w ++ closing object :: b)) vs (closing object :: b) :=
    readListingWith_yields hread hw (by rw [List.length_append]; omega) b
  have hopen : skipBlanks (u ++ opening object :: (w ++ closing object :: b)) =
      opening object :: (w ++ closing object :: b) := by
    rw [skipBlanks_append hu]
    exact skipBlanks_of_not_blank (by cases object <;> decide) _
  refine ⟨b, hb, ?_⟩
  unfold readCollection readGroup
  rw [hopen]
  dsimp only
  rw [if_pos rfl]
  have hclose : Yields (ε := ε) (Reader.ofScan (mark (closing object)) (closing object :: b)) () b :=
    Yields.ofScan (mark_append .nil (isBlank_closing object) b)
  exact hlist.andThen (hclose.mapTo _)

end Parts

/-! ## Lists in the place of sets and maps -/

section Merging

variable {β : Type} {o : TotalOrder κ} {name : Reader ε κ} {read : Reader ε α}

theorem Reader.mapTo_mapTo {γ : Type} (f : α → β) (g : β → γ) (x : Log ε (Except Fault (α × List Char))) :
    Reader.mapTo g (Reader.mapTo f x) = Reader.mapTo (fun v => g (f v)) x := by
  refine (Log.andThen_assoc _ _ _).trans (Log.andThen_congr fun y _ => ?_)
  exact Log.pure_ok_andThen _ _

theorem Reader.andThen_mapTo {γ : Type} (f : α → β) (x : Log ε (Except Fault (α × List Char)))
    (g : β → List Char → Log ε (Except Fault (γ × List Char))) :
    Reader.andThen (Reader.mapTo f x) g = Reader.andThen x fun v r => g (f v) r := by
  refine (Log.andThen_assoc _ _ _).trans (Log.andThen_congr fun y _ => ?_)
  exact Log.pure_ok_andThen _ _

theorem Reader.mapTo_andThen {γ : Type} (f : β → γ) (x : Log ε (Except Fault (α × List Char)))
    (g : α → List Char → Log ε (Except Fault (β × List Char))) :
    Reader.mapTo f (Reader.andThen x g) = Reader.andThen x fun v r => Reader.mapTo f (g v r) :=
  Log.andThen_assoc _ _ _

/-- What is made of what stands between the marks may be made of it afterwards. -/
theorem readGroup_mapTo (expected : String) (f : α → β) (body : Reader ε α) (cs : List Char) :
    readGroup object expected (fun cs => Reader.mapTo f (body cs)) cs =
      Reader.mapTo f (readGroup object expected body cs) := by
  unfold readGroup
  dsimp only
  split
  · rfl
  · split
    · rw [Reader.andThen_mapTo, Reader.mapTo_andThen]
      simp only [Reader.mapTo_mapTo]
    · rfl

theorem readItems_eq (read : Reader ε α) : readItems read = readListing false read := by
  suffices hall : ∀ fuel first, readItemsWith read fuel first = readListingWith false read fuel first from
    funext fun cs => congrFun (hall _ true) cs
  intro fuel
  induction fuel with
  | zero => exact fun first => rfl
  | succ fuel ih =>
    intro first
    rw [readItemsWith_succ, nextItem_eq, ih]
    rfl

/-- Reads an entry of a map. -/
def readBinding (name : Reader ε κ) (read : Reader ε α) : Reader ε (κ × α) := fun cs =>
  Reader.andThen (name cs) fun key r => Reader.mapTo (key, ·) (readValue read r)

theorem readEntry_eq (name : Reader ε κ) (read : Reader ε α) (m : SortedMap o α) (cs : List Char) :
    readEntry name read m cs =
      Reader.mapTo (fun e => m.insert e.1 e.2) (readBinding name read cs) := by
  unfold readBinding
  rw [Reader.mapTo_andThen]
  simp only [Reader.mapTo_mapTo]
  rfl

/-- The entries of a map are read, and put in afterwards one after another. -/
theorem readMembersWith_readEntry (fuel : Nat) (first : Bool) (m : SortedMap o α) (cs : List Char) :
    readMembersWith (readEntry name read) fuel first m cs =
      Reader.mapTo (fun es => es.foldl (fun m e => m.insert e.1 e.2) m)
        (readListingWith true (readBinding name read) fuel first cs) := by
  induction fuel generalizing first m cs with
  | zero => rfl
  | succ fuel ih =>
    rw [readMembersWith_succ, nextName_eq]
    unfold readListingWith onNext
    rw [Reader.mapTo_andThen]
    refine Log.andThen_congr fun y _ => ?_
    obtain ⟨_ | _, r⟩ := y
    · exact (Log.pure_ok_andThen _ _).symm
    · simp only [if_true]
      rw [readEntry_eq, Reader.andThen_mapTo, Reader.mapTo_andThen]
      simp only [ih, Reader.mapTo_mapTo, List.foldl_cons]

end Merging

end Json

/-! ## Sets and maps -/

/-- The set of the keys in a list, put in one after another. -/
def SortedMap.ofKeys {α : Type} {o : TotalOrder α} (ks : List α) : SortedMap o Unit :=
  ofList (ks.map fun key => (key, ()))

namespace Ty

open Json Grammar

/-- A set is read as the list of its items, which are put in one after another. -/
theorem read_set (t : Ty) (cs : List Char) : (Ty.set t).read cs =
    Reader.mapTo (fun ks => (SortedMap.ofKeys ks : (Ty.set t).Val))
      (readCollection false (Ty.set t).words t.read cs) := by
  show readArray (Ty.set t).words (readSet t.read) cs = _
  rw [readArray_eq]
  unfold readSet
  rw [readGroup_mapTo, readItems_eq]
  rfl

/-- A map is read as the list of its entries, which are put in one after another. -/
theorem read_map (k t : Ty) (cs : List Char) : (Ty.map k t).read cs =
    Reader.mapTo (fun es => (SortedMap.ofList es : (Ty.map k t).Val))
      (readCollection true (Ty.map k t).words (readBinding k.readName t.read) cs) := by
  have hbody : readMembers (readEntry k.readName t.read) SortedMap.empty = fun cs =>
      Reader.mapTo (fun es => (SortedMap.ofList es : SortedMap k.order t.Val))
        (readListing true (readBinding k.readName t.read) cs) :=
    funext fun cs => readMembersWith_readEntry _ _ _ _
  show readObject (Ty.map k t).words (readMembers _ SortedMap.empty) cs = _
  rw [readObject_eq, hbody, readGroup_mapTo]
  rfl

/-! ## Texts of parts -/

/-- A text of an item. -/
def ItemText (t : Ty) (w : List Char) (v : t.Val) : Prop := (t.ofJson (String.ofList w)).result = .ok v

/-- A text of an entry: the name of its key, a colon, and a text of its value. -/
inductive EntryText (k t : Ty) : List Char → k.Val × t.Val → Prop where
  | mk {u w : List Char} {key : k.Val} {v : t.Val} : Blank u → t.ItemText w v →
    EntryText k t (k.writeName key ++ (u ++ ':' :: w)) (key, v)

/-- A text of an item is read in front of whatever may stand behind it. -/
theorem ItemText.yields {t : Ty} {w : List Char} {v : t.Val} (h : t.ItemText w v) {r : List Char}
    (hr : Ends r) : ∃ b, Blank b ∧ Yields (t.read (w ++ r)) v (b ++ r) := by
  obtain ⟨b, hread, hb⟩ := ofJson_ofList.1 h
  have hgrows := t.read_local.grows w hr
  rw [hread] at hgrows
  exact ⟨b, hb, hgrows.of_ok⟩

theorem readsParts_item (t : Ty) : ReadsParts false t.read t.ItemText := by
  intro w v h r hr
  obtain ⟨b, hb, hread⟩ := h.yields hr
  obtain ⟨b', hw, -⟩ := ofJson_ofList.1 h
  obtain ⟨c, cs, hcs, hc⟩ := skipBlanks_of_read hw r
  refine ⟨c, cs, b, hcs, bne_iff_ne.2 hc, hb, ?_⟩
  rwa [← hcs, t.read_fronted.skips]

theorem readsParts_entry {k : Ty} (hk : k.isName = true) (t : Ty) :
    ReadsParts true (readBinding k.readName t.read) (k.EntryText t) := by
  rintro _ _ @⟨u, w, key, v, hu, hw⟩ r hr
  obtain ⟨b, hb, hread⟩ := hw.yields hr
  obtain ⟨cs, hcs⟩ := k.opensName_writeName hk key
  have hname := k.readName_writeName hk key (u ++ ':' :: (w ++ r))
  rw [hcs, List.cons_append] at hname
  refine ⟨'"', cs ++ (u ++ ':' :: (w ++ r)), b, ?_, rfl, hb, ?_⟩
  · rw [hcs]
    simp only [List.append_assoc, List.cons_append]
    exact skipBlanks_of_not_blank rfl _
  · refine hname.andThen (Yields.mapTo ?_ _)
    have hcolon : colon (u ++ ':' :: (w ++ r)) = .ok ((), w ++ r) := by
      rw [colon_eq, mark_append hu rfl]
    exact (Yields.ofScan hcolon).andThen hread

/-- A text of an array of items. -/
abbrev ItemsText (t : Ty) (text : String) (vs : List t.Val) : Prop :=
  Collection false t.ItemText text.toList vs

/-- A text of an object of entries. -/
abbrev EntriesText (k t : Ty) (text : String) (es : List (k.Val × t.Val)) : Prop :=
  Collection true (k.EntryText t) text.toList es

/-- Every list of items has a text. -/
theorem itemsText_write {t : Ty} (hf : t.isFaithful = true) (vs : List t.Val) :
    t.ItemsText (String.ofList (writeArray (vs.map t.write))) vs := by
  unfold ItemsText writeArray
  rw [String.toList_ofList, separated_eq_joined]
  refine .mk .nil (.joined true fun v _ => ?_) .nil
  exact (ofJson_write hf v).2

/-- Every list of entries has a text. -/
theorem entriesText_write (k : Ty) {t : Ty} (hf : t.isFaithful = true) (es : List (k.Val × t.Val)) :
    k.EntriesText t
      (String.ofList (writeObject (es.map fun e => (k.writeName e.1, t.write e.2)))) es := by
  unfold EntriesText writeObject
  rw [String.toList_ofList, separated_eq_joined, List.map_map]
  refine .mk .nil (.joined true fun e _ => ?_) .nil
  exact .mk .nil (ofJson_write hf e.2).2

end Ty

end Refinement
