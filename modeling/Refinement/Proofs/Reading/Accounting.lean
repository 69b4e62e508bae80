import Refinement.Proofs.Reading.Kinship
import Refinement.Proofs.Reading.Survey

/-!
# Surveys account for the erased values

A survey comes to the same as reading at the erased type: the same value or the same fault. The
refined positions in the value are those that the survey has taken down; where maps have refined
types in their values, it may have taken down more, for entries that were replaced later.

* `Grows`: what notes say of the positions that are reached.
* `Ty.ofJson_accounts`: what reading at the erased type and the survey come to.
-/

namespace Refinement

open Json

/-! ## Positions and notes -/

/-- From the positions `cs` on, notes have led to the positions `ds`: none is new without a note,
and none is lost if nothing may be. -/
structure Grows (exact : Bool) (cs : List Checkpoint) (l : List Note) (ds : List Checkpoint) :
    Prop where
  /-- Every position is an old one or has a note. -/
  noted : ∀ c ∈ ds, c ∈ cs ∨ c ∈ Note.trail l
  /-- Old ones and those with a note are there if nothing may be lost. -/
  kept : exact = true → ∀ c, c ∈ cs ∨ c ∈ Note.trail l → c ∈ ds

/-- Notes that account for the positions `ds`. -/
abbrev Covers (exact : Bool) (l : List Note) (ds : List Checkpoint) : Prop := Grows exact [] l ds

namespace Grows

variable {x y : Bool} {cs ds es : List Checkpoint} {l m : List Note}

theorem refl (x : Bool) (cs : List Checkpoint) : Grows x cs [] cs :=
  ⟨fun _ => .inl, fun _ _ h => h.elim id fun h => absurd h (List.not_mem_nil)⟩

theorem trans (h : Grows x cs l ds) (h' : Grows x ds m es) : Grows x cs (l ++ m) es := by
  constructor
  · intro c hc
    rw [Note.trail_append, List.mem_append, ← or_assoc]
    exact (h'.noted c hc).imp_left (h.noted c)
  · intro hx c hc
    rw [Note.trail_append, List.mem_append, ← or_assoc] at hc
    exact h'.kept hx c (hc.imp_left (h.kept hx c))

/-- Positions in two parts, the first of which comes first. -/
theorem both {cs' ds' : List Checkpoint} (h : Grows x cs l ds) (h' : Grows y cs' m ds') :
    Grows (x && y) (cs ++ cs') (l ++ m) (ds ++ ds') := by
  constructor
  · intro c hc
    have := h.noted c
    have := h'.noted c
    simp only [Note.trail_append, List.mem_append] at hc ⊢
    grind
  · intro hxy c hc
    rw [Bool.and_eq_true] at hxy
    have := h.kept hxy.1 c
    have := h'.kept hxy.2 c
    simp only [Note.trail_append, List.mem_append] at hc ⊢
    grind

end Grows

namespace Covers

variable {x y : Bool} {cs ds : List Checkpoint} {l m : List Note}

theorem nil (x : Bool) : Covers x [] [] := Grows.refl x []

theorem append (h : Covers x l cs) (h' : Covers y m ds) : Covers (x && y) (l ++ m) (cs ++ ds) :=
  h.both h'

theorem append_same (h : Covers x l cs) (h' : Covers x m ds) : Covers x (l ++ m) (cs ++ ds) := by
  simpa only [Bool.and_self] using h.append h'

/-- Only the members of a list of positions matter. -/
theorem congr (h : Covers x l cs) (hc : ∀ c, c ∈ cs ↔ c ∈ ds) : Covers x l ds :=
  ⟨fun c hd => h.noted c ((hc c).2 hd), fun hx c hl => (hc c).1 (h.kept hx c hl)⟩

/-- The note of a position that is complete comes after the notes of those inside. -/
theorem completed (h : Covers x l cs) (c : Checkpoint) :
    Covers x (l ++ [.completed c]) (cs ++ [c]) := by
  refine h.append_same ⟨fun d hd => .inr ?_, fun _ d hd => ?_⟩
  · rwa [Note.trail_completed]
  · simpa only [Note.trail_completed, List.not_mem_nil, false_or] using hd

end Covers

/-! ## Types without refinements inside -/

mutual

theorem Ty.checkpoints_of_isPlain : ∀ t : Ty, t.isPlain = true → ∀ u, t.checkpoints u = []
  | .scalar _, _, _ => rfl
  | .list _ t, h, us => List.flatMap_eq_nil_iff.2 fun u _ => t.checkpoints_of_isPlain h u
  | .array t _, h, us => List.flatMap_eq_nil_iff.2 fun u _ => t.checkpoints_of_isPlain h u
  | .set t, h, m => List.flatMap_eq_nil_iff.2 fun u _ => t.checkpoints_of_isPlain h u
  | .map k t, h, m => List.flatMap_eq_nil_iff.2 fun e _ => by
    obtain ⟨hk, ht⟩ := Bool.and_eq_true_iff.1 h
    rw [k.checkpoints_of_isPlain hk, t.checkpoints_of_isPlain ht, List.append_nil]
  | .option t, h, u => List.flatMap_eq_nil_iff.2 fun u _ => t.checkpoints_of_isPlain h u
  | .present t, h, u => List.flatMap_eq_nil_iff.2 fun u _ => t.checkpoints_of_isPlain h u
  | .tuple r, h, u => r.checkpoints_of_isPlain h u
  | .record _ _ r, h, u => r.checkpoints_of_isPlain h u

theorem Row.checkpoints_of_isPlain : ∀ r : Row, r.isPlain = true → ∀ u, r.checkpoints u = []
  | .nil, _, _ => rfl
  | .cons _ t r, h, u => by
    obtain ⟨ht, hr⟩ := Bool.and_eq_true_iff.1 h
    show t.checkpoints u.1 ++ r.checkpoints u.2 = []
    rw [t.checkpoints_of_isPlain ht, r.checkpoints_of_isPlain hr, List.append_nil]

end

mutual

theorem Ty.mapsPlain_of_isPlain : ∀ t : Ty, t.isPlain = true → t.mapsPlain = true
  | .scalar _, _ => rfl
  | .list _ t, h => t.mapsPlain_of_isPlain h
  | .array t _, h => t.mapsPlain_of_isPlain h
  | .set t, h => t.mapsPlain_of_isPlain h
  | .map k t, h => by
    obtain ⟨hk, ht⟩ := Bool.and_eq_true_iff.1 h
    exact Bool.and_eq_true_iff.2 ⟨k.mapsPlain_of_isPlain hk, ht⟩
  | .option t, h => t.mapsPlain_of_isPlain h
  | .present t, h => t.mapsPlain_of_isPlain h
  | .tuple r, h => r.mapsPlain_of_isPlain h
  | .record _ _ r, h => r.mapsPlain_of_isPlain h

theorem Row.mapsPlain_of_isPlain : ∀ r : Row, r.isPlain = true → r.mapsPlain = true
  | .nil, _ => rfl
  | .cons _ t r, h => by
    obtain ⟨ht, hr⟩ := Bool.and_eq_true_iff.1 h
    exact Bool.and_eq_true_iff.2 ⟨t.mapsPlain_of_isPlain ht, r.mapsPlain_of_isPlain hr⟩

end

/-! ## Equal outcomes -/

/-- Equal faults, or results that relate to each other and to what the second reader has logged. -/
def Kinship.outcomes (δ ε : Type) : Kinship δ ε where
  Rel R x y := Agree (R y.events) x.result y.result
  ok := .ok
  error e := .error e
  andThen := by
    rintro α β γ ζ R S ⟨ex, x⟩ ⟨ey, y⟩ f g hxy hf
    cases hxy with
    | error e => exact .error e
    | ok hab => exact hf ey _ _ hab

/-! ## The two readers -/

@[simp] theorem Ty.words_erased : ∀ t : Ty, t.erased.words = t.words
  | .scalar _ | .list .. | .array _ 0 | .array _ (_ + 1) | .set _ | .map .. | .option _
  | .present _ | .record .. => rfl
  | .refined t _ => t.words_erased
  | .tuple r => by
    simp only [Ty.erased, Ty.words, Row.size_erased]

/-- The same value, and notes that account for its refined positions. -/
def Ty.Accounts (t : Ty) (l : List Note) (u u' : t.erased.Val) : Prop :=
  u = u' ∧ Covers t.mapsPlain l (t.checkpoints u')

/-- The same parts, and notes that account for their refined positions. -/
def Row.Accounts (r : Row) (l : List Note) (u u' : r.erased.Val) : Prop :=
  u = u' ∧ Covers r.mapsPlain l (r.checkpoints u')

/-- The refined positions in the fields that have been read. -/
def Row.partialCheckpoints : (r : Row) → r.erased.Partial → List Checkpoint
  | .nil, _ => []
  | .cons _ t r, s => (Option.toList s.1).flatMap t.checkpoints ++ r.partialCheckpoints s.2

/-- The same fields; the positions in them are those in the fields `s` and those in the notes. -/
def Row.Advances (r : Row) (s : r.erased.Partial) (l : List Note) (s' s'' : r.erased.Partial) :
    Prop :=
  s' = s'' ∧ Grows r.mapsPlain (r.partialCheckpoints s) l (r.partialCheckpoints s'')

theorem Row.partialCheckpoints_noFields (r : Row) :
    r.partialCheckpoints r.erased.noFields = [] := by
  induction r with
  | nil => rfl
  | cons label t r ih => exact ih

namespace Ty

variable {t : Ty} {l : List Note}

theorem Accounts.some {u u' : t.erased.Val} (h : t.Accounts l u u') :
    (Ty.option t).Accounts l (Option.some u) (Option.some u') := by
  obtain ⟨rfl, h⟩ := h
  refine ⟨rfl, h.congr fun c => ?_⟩
  show _ ↔ c ∈ [u].flatMap t.checkpoints
  rw [List.flatMap_singleton]

theorem Accounts.items {us us' : List t.erased.Val} (h : Kinship.Items t.Accounts l us us') :
    us = us' ∧ Covers t.mapsPlain l (us'.flatMap t.checkpoints) := by
  induction h with
  | nil => exact ⟨rfl, .nil _⟩
  | cons hu _ ih =>
    obtain ⟨rfl, hu⟩ := hu
    obtain ⟨rfl, ih⟩ := ih
    rw [List.flatMap_cons]
    exact ⟨rfl, hu.append_same ih⟩

/-- Taking down a position that is complete. -/
theorem Accounts.note {p : Predicate} {u u' : t.erased.Val} (h : t.Accounts l u u') :
    (Kinship.outcomes Event Note).Rel (fun m => (Ty.refined t p).Accounts (l ++ m))
      (pure (.ok u)) (t.note p u') := by
  obtain ⟨rfl, h⟩ := h
  exact .ok ⟨rfl, h.completed ⟨t, p, u⟩⟩

end Ty

theorem Ty.readName_accounts : ∀ t : Ty,
    (Kinship.outcomes Event Note).Reads t.Accounts t.erased.readName t.surveyName
  | .scalar s => Kinship.ofScan _ fun _ => ⟨rfl, .nil _⟩
  | .option t => fun cs => Kinship.mapTo (t.readName_accounts cs) fun _ _ _ h => h.some
  | .refined t p => by
    show Kinship.Reads _ _ t.erased.readName _
    rw [← Kinship.readChecked_ok t.erased.readName]
    exact Kinship.readChecked t.readName_accounts fun l u u' h => h.note
  | .list .. | .set _ | .map .. | .present _ | .record .. => Kinship.readNoName _
  | .array t n => by
    show Kinship.Reads _ _ (readNoName (Ty.array t n).erased.words) _
    rw [words_erased]
    exact Kinship.readNoName _
  | .tuple r => by
    show Kinship.Reads _ _ (readNoName (Ty.tuple r).erased.words) _
    rw [words_erased]
    exact Kinship.readNoName _

/-! ## Missing fields -/

theorem Ty.absent_accounts : ∀ (t : Ty) (label : String),
    (Kinship.outcomes Event Note).Rel t.Accounts (t.erased.absent label) (t.surveyAbsent label)
  | .option _, _ => .ok ⟨rfl, .nil _⟩
  | .refined t p, label => by
    show Kinship.Rel _ _ (t.erased.absent label) _
    rw [← Log.andThen_ok (t.erased.absent label)]
    exact (Kinship.outcomes _ _).andThen (t.absent_accounts label) fun l u u' h => h.note
  | .scalar _, _ | .list .., _ | .array .., _ | .set _, _ | .map .., _ | .present _, _ | .tuple _, _
  | .record .., _ => .error _

theorem Row.complete_accounts : ∀ (r : Row) (s : r.erased.Partial),
    (Kinship.outcomes Event Note).Rel
      (fun l u u' => u = u' ∧ Grows r.mapsPlain (r.partialCheckpoints s) l (r.checkpoints u'))
      (r.erased.complete s) (r.surveyComplete s)
  | .nil, _ => .ok ⟨rfl, .refl _ _⟩
  | .cons label t r, s => by
    have field : (Kinship.outcomes Event Note).Rel (fun l u u' => u = u' ∧
        Grows t.mapsPlain ((Option.toList s.1).flatMap t.checkpoints) l (t.checkpoints u'))
        (fieldOr (t.erased.absent label) s.1) (fieldOr (t.surveyAbsent label) s.1) := by
      cases s.1 with
      | none => exact t.absent_accounts label
      | some u =>
        refine .ok ⟨rfl, ?_⟩
        rw [Option.toList_some, List.flatMap_singleton]
        exact .refl _ _
    refine (Kinship.outcomes _ _).andThen field ?_
    rintro l u u' ⟨rfl, hu⟩
    refine (Kinship.outcomes _ _).andThen (r.complete_accounts s.2) ?_
    rintro m us us' ⟨rfl, hus⟩
    refine (Kinship.outcomes _ _).ok ⟨rfl, ?_⟩
    rw [List.append_nil]
    exact hu.both hus

/-! ## Sets and maps -/

namespace Ty

variable {l m n : List Note}

theorem accounts_ofList {t : Ty} {us : List t.erased.Val}
    (h : Covers t.mapsPlain l (us.flatMap t.checkpoints)) :
    (Ty.set t).Accounts l (SortedMap.ofList (us.map fun u => (u, ())))
      (SortedMap.ofList (us.map fun u => (u, ()))) := by
  refine ⟨rfl, h.congr fun c => ?_⟩
  have keys (u : t.erased.Val) :
      u ∈ (SortedMap.ofList (us.map fun u => (u, ())) : SortedMap t.erased.order Unit).keys ↔
        u ∈ us := by
    rw [SortedMap.mem_keys_ofList, List.map_map]
    simp
  simp only [checkpoints, List.mem_flatMap, keys]

/-- An entry that is put into a map brings its own positions, and those of an entry that it takes the
place of are lost, save the ones in the key. -/
theorem accounts_insert {k t : Ty} {u : SortedMap k.erased.order t.erased.Val}
    {key : k.erased.Val} {v : t.erased.Val}
    (hu : (Ty.map k t).Accounts l u u) (hk : k.Accounts m key key) (hv : t.Accounts n v v) :
    (Ty.map k t).Accounts (l ++ (m ++ n)) (u.insert key v) (u.insert key v) := by
  refine ⟨rfl, fun c hc => .inr ?_, fun hp c hc => ?_⟩
  · obtain ⟨e, he, hc⟩ := List.mem_flatMap.1 hc
    simp only [Note.trail_append, List.mem_append]
    rcases SortedMap.mem_insert he with rfl | he
    · rcases List.mem_append.1 hc with hc | hc
      · exact .inr (.inl ((hk.2.noted c hc).resolve_left List.not_mem_nil))
      · exact .inr (.inr ((hv.2.noted c hc).resolve_left List.not_mem_nil))
    · have hc : c ∈ (Ty.map k t).checkpoints u := List.mem_flatMap.2 ⟨e, he, hc⟩
      exact .inl ((hu.2.noted c hc).resolve_left List.not_mem_nil)
  · obtain ⟨hkp, htp⟩ := Bool.and_eq_true_iff.1 hp
    -- All positions are in keys, and no key is lost.
    have inKey (key' : k.erased.Val) (h : key' ∈ (u.insert key v).keys)
        (hc : c ∈ k.checkpoints key') : c ∈ (Ty.map k t).checkpoints (u.insert key v) := by
      obtain ⟨e, he, rfl⟩ := List.mem_map.1 h
      exact List.mem_flatMap.2 ⟨e, he, List.mem_append_left _ hc⟩
    simp only [Note.trail_append, List.mem_append, List.not_mem_nil, false_or] at hc
    rcases hc with hc | hc | hc
    · obtain ⟨e, he, hc⟩ := List.mem_flatMap.1 (hu.2.kept hp c (.inr hc))
      rw [t.checkpoints_of_isPlain htp, List.append_nil] at hc
      refine inKey e.1 ?_ hc
      rw [SortedMap.mem_keys_insert]
      exact .inr (List.mem_map.2 ⟨e, he, rfl⟩)
    · refine inKey key ?_ (hk.2.kept hkp c (.inr hc))
      rw [SortedMap.mem_keys_insert]
      exact .inl rfl
    · have hc := hv.2.kept (t.mapsPlain_of_isPlain htp) c (.inr hc)
      rw [t.checkpoints_of_isPlain htp] at hc
      exact absurd hc List.not_mem_nil

end Ty

/-! ## Values of every type -/

mutual

/-- Reading at the erased type and the survey come to the same, and the notes account for the refined
positions. -/
theorem Ty.read_accounts : ∀ t : Ty,
    (Kinship.outcomes Event Note).Reads t.Accounts t.erased.read t.survey
  | .scalar s => Kinship.ofScan _ fun _ => ⟨rfl, .nil _⟩
  | .list k t =>
    Kinship.readArray _ ((Kinship.readItems t.read_accounts).mono fun _ _ _ h => Ty.Accounts.items h)
  | .array t n => by
    show Kinship.Reads _ _ (readArray (Ty.array t n).erased.words
      (readExactly _ (Ty.array t n).erased.words n 0)) _
    rw [Ty.words_erased]
    refine Kinship.readArray _ ((Kinship.readExactly t.read_accounts _ n 0).mono fun l us us' h => ?_)
    obtain ⟨h, hc⟩ := Ty.Accounts.items h
    exact ⟨Subtype.ext h, hc⟩
  | .set t => Kinship.readArray _ fun cs => Kinship.mapTo (Kinship.readItems t.read_accounts cs)
    fun l us us' h => by
      obtain ⟨rfl, hc⟩ := Ty.Accounts.items h
      exact Ty.accounts_ofList hc
  | .map k t => by
    refine Kinship.readObject _ (Kinship.readMembers (fun l u u' hu => ?_) ⟨rfl, .nil _⟩)
    obtain ⟨rfl, _⟩ := id hu
    refine Kinship.readEntry k.readName_accounts t.read_accounts ?_
    rintro m n key key' v v' ⟨rfl, hk⟩ ⟨rfl, hv⟩
    exact Ty.accounts_insert hu ⟨rfl, hk⟩ ⟨rfl, hv⟩
  | .option t => Kinship.readOption t.read_accounts ⟨rfl, .nil _⟩ fun _ _ _ h => h.some
  | .refined t p => by
    show Kinship.Reads _ _ t.erased.read _
    rw [← Kinship.readChecked_ok t.erased.read]
    exact Kinship.readChecked t.read_accounts fun l u u' h => h.note
  | .present t => by
    refine Kinship.readArray _ (Kinship.readPresentItems t.read_accounts ?_ fun l u u' h => ?_)
    · exact .ok ⟨rfl, ⟨fun _ => .inl, fun _ c hc => hc.elim id id⟩⟩
    · obtain ⟨rfl, hc⟩ := h
      refine .ok ⟨rfl, ?_⟩
      show Covers _ (l ++ []) ([u].flatMap t.checkpoints)
      rwa [List.append_nil, List.flatMap_singleton]
  | .tuple r => by
    show Kinship.Reads _ _ (readTuple (Ty.tuple r).erased.words r.erased.size
      (r.erased.readParts (Ty.tuple r).erased.words 0)) _
    rw [Ty.words_erased, Row.size_erased]
    exact Kinship.readTuple _ r.size (r.readParts_accounts _ 0)
  | .record _ name r => by
    show Kinship.Reads _ _ (readRecord name r.erased.size _ _ _) _
    rw [Row.size_erased]
    refine Kinship.readRecord (fun expected => r.readParts_accounts expected 0)
      (Kinship.readFields (R := fun l s s' => s = s' ∧ Covers r.mapsPlain l (r.partialCheckpoints s'))
        (fun label l s s' hs => ?_) ?_) fun l s s' hs => ?_
    · obtain ⟨rfl, hs⟩ := hs
      exact (r.readNamed_accounts label s).mono fun m s' s'' h => ⟨h.1, hs.trans h.2⟩
    · rw [r.partialCheckpoints_noFields]
      exact ⟨rfl, .nil _⟩
    · obtain ⟨rfl, hs⟩ := hs
      exact Kinship.mono (r.complete_accounts s) fun m u u' h => ⟨h.1, hs.trans h.2⟩

theorem Row.readParts_accounts : ∀ (r : Row) (expected : String) (i : Nat),
    (Kinship.outcomes Event Note).Reads r.Accounts (r.erased.readParts expected i)
      (r.surveyParts expected i)
  | .nil, _, _ => fun cs => Kinship.ok_leaving cs ⟨rfl, .nil _⟩
  | .cons _ t r, expected, i => by
    refine (Kinship.readPart expected i t.read_accounts
      (r.readParts_accounts expected (i + 1))).mono ?_
    rintro l u u' ⟨m, n, rfl, ⟨h, hm⟩, ⟨h', hn⟩⟩
    exact ⟨Prod.ext h h', hm.append hn⟩

theorem Row.readNamed_accounts : ∀ (r : Row) (name : List Char) (s : r.erased.Partial),
    (Kinship.outcomes Event Note).Reads (r.Advances s) (r.erased.readNamed name s)
      (r.surveyNamed name s)
  | .nil, _, s => fun cs => by
    refine Kinship.mapTo
      (Kinship.readValue (Kinship.ofScan skipValue (R := Kinship.Same) fun _ => ⟨rfl, rfl⟩) cs) ?_
    rintro l _ _ ⟨rfl, -⟩
    exact ⟨rfl, .refl _ _⟩
  | .cons label t r, name, s => by
    refine Kinship.Reads.ite ?_ ?_
    · refine Kinship.readField (l := []) (P := (Row.cons label t r).Advances s) t.read_accounts rfl ?_
      rintro m u u' hs ⟨rfl, hu⟩
      refine ⟨rfl, ?_⟩
      show Grows _ ((Option.toList s.1).flatMap t.checkpoints ++ r.partialCheckpoints s.2) m
        ([u].flatMap t.checkpoints ++ r.partialCheckpoints s.2)
      rw [hs, List.flatMap_singleton]
      have h := hu.both (Grows.refl r.mapsPlain (r.partialCheckpoints s.2))
      rw [List.append_nil] at h
      exact h
    · refine fun cs => Kinship.mapTo (r.readNamed_accounts name s.2 cs) ?_
      rintro m s' s'' ⟨rfl, h⟩
      exact ⟨rfl, (Grows.refl t.mapsPlain _).both h⟩

end

/-! ## Whole texts -/

/-- Reading a text at the erased type and its survey come to the same, and the trail accounts for
the refined positions. -/
theorem Ty.ofJson_accounts (t : Ty) (text : String) :
    Agree (t.Accounts (t.surveyJson text).events) (t.erased.ofJson text).result
      (t.surveyJson text).result :=
  Kinship.readWhole t.read_accounts text

end Refinement
