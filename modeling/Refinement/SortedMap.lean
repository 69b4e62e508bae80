import Refinement.TotalOrder

/-!
# Sorted maps

A `SortedMap o β` holds entries in strictly ascending order `o` of their keys, so that two maps with
the same entries are the same map. A set is a map to `Unit`.

* `SortedMap.insert`: a later value replaces an earlier one under an equal key.
* `SortedMap.ofList`: the entries of a list, put in one after another.
* `SortedMap.get?_insert`: what is found after an insertion.
* `SortedMap.ofList_entries`: a map is what its own entries are put into.
-/

namespace Refinement

/-- Entries with strictly ascending keys. -/
structure SortedMap {α : Type} (o : TotalOrder α) (β : Type) where
  /-- The entries. -/
  entries : List (α × β)
  /-- Their keys ascend. -/
  ascending : entries.Pairwise fun a b => o.compare a.1 b.1 = .lt

namespace SortedMap

variable {α β : Type} {o : TotalOrder α}

/-- The map without entries. -/
def empty : SortedMap o β := ⟨[], .nil⟩

instance : Inhabited (SortedMap o β) := ⟨empty⟩

/-- Puts an entry at its place in an ascending list. -/
def insertEntry (o : TotalOrder α) (key : α) (value : β) : List (α × β) → List (α × β)
  | [] => [(key, value)]
  | e :: es =>
    match o.compare key e.1 with
    | .lt => (key, value) :: e :: es
    | .eq => (key, value) :: es
    | .gt => e :: insertEntry o key value es

theorem forall_insertEntry {P : α × β → Prop} {key : α} {value : β}
    {es : List (α × β)} (new : P (key, value)) (old : ∀ e ∈ es, P e) :
    ∀ e ∈ insertEntry o key value es, P e := by
  induction es with
  | nil => simpa [insertEntry] using new
  | cons e es ih =>
    simp only [insertEntry]
    split
    · simpa using ⟨new, old e (by simp), fun a b h => old (a, b) (by simp [h])⟩
    · simpa using ⟨new, fun a b h => old (a, b) (by simp [h])⟩
    · have := ih fun e h => old e (by simp [h])
      simpa using ⟨old e (by simp), fun a b h => this (a, b) h⟩

theorem pairwise_insertEntry (key : α) (value : β) {es : List (α × β)}
    (h : es.Pairwise fun a b => o.compare a.1 b.1 = .lt) :
    (insertEntry o key value es).Pairwise fun a b => o.compare a.1 b.1 = .lt := by
  induction es with
  | nil => simp [insertEntry]
  | cons e es ih =>
    obtain ⟨he, hes⟩ := List.pairwise_cons.1 h
    simp only [insertEntry]
    split
    · next hlt =>
      refine List.pairwise_cons.2 ⟨fun a ha => ?_, h⟩
      rcases List.mem_cons.1 ha with rfl | ha
      · exact hlt
      · exact Std.TransCmp.lt_trans hlt (he a ha)
    · next heq =>
      have hkey : key = e.1 := Std.LawfulEqCmp.eq_of_compare heq
      exact List.pairwise_cons.2 ⟨fun a ha => hkey ▸ he a ha, hes⟩
    · next hgt =>
      refine List.pairwise_cons.2 ⟨?_, ih hes⟩
      exact forall_insertEntry (Std.OrientedCmp.lt_of_gt hgt) he

/-- Puts an entry into a map, in the place of one with an equal key. -/
def insert (m : SortedMap o β) (key : α) (value : β) : SortedMap o β :=
  ⟨insertEntry o key value m.entries, pairwise_insertEntry key value m.ascending⟩

/-- The entries of a list, put in one after another. -/
def ofList (es : List (α × β)) : SortedMap o β :=
  es.foldl (fun m e => m.insert e.1 e.2) empty

/-- The number of entries. -/
def size (m : SortedMap o β) : Nat := m.entries.length

/-- The value under a key. -/
def get? (m : SortedMap o β) (key : α) : Option β :=
  (m.entries.find? fun e => o.compare key e.1 == .eq).map (·.2)

/-- The keys in ascending order. -/
def keys (m : SortedMap o β) : List α := m.entries.map (·.1)

theorem ext {m n : SortedMap o β} (h : m.entries = n.entries) : m = n := by
  cases m; cases n; simp_all

theorem find?_insertEntry [DecidableEq α] (key other : α) (value : β) (es : List (α × β)) :
    ((insertEntry o key value es).find? fun e => o.compare other e.1 == .eq).map (·.2) =
      if other = key then some value
      else (es.find? fun e => o.compare other e.1 == .eq).map (·.2) := by
  induction es with
  | nil =>
    by_cases h : other = key
    · simp [insertEntry, h, Std.ReflCmp.compare_self]
    · have : o.compare other key ≠ .eq := fun c => h (Std.LawfulEqCmp.eq_of_compare c)
      simp [insertEntry, h, this]
  | cons e es ih =>
    simp only [insertEntry]
    by_cases h : other = key
    · subst h
      split
      · simp [Std.ReflCmp.compare_self]
      · simp [Std.ReflCmp.compare_self]
      · next hgt => simp only [List.find?_cons, hgt]; simpa using ih
    · have hne : o.compare other key ≠ .eq := fun c => h (Std.LawfulEqCmp.eq_of_compare c)
      split
      · simp [List.find?_cons, hne, h]
      · next heq =>
        have hkey : key = e.1 := Std.LawfulEqCmp.eq_of_compare heq
        simp [hne, h, ← hkey]
      · simp only [List.find?_cons]
        split
        · simp [h]
        · simpa [h] using ih

/-- After an insertion the new value is found under its key, and the old ones under all others. -/
theorem get?_insert [DecidableEq α] (m : SortedMap o β) (key other : α) (value : β) :
    (m.insert key value).get? other = if other = key then some value else m.get? other :=
  find?_insertEntry key other value m.entries

/-! ## What is inside -/

theorem mem_insert {m : SortedMap o β} {key : α} {value : β} {e : α × β}
    (h : e ∈ (m.insert key value).entries) : e = (key, value) ∨ e ∈ m.entries :=
  forall_insertEntry (P := fun e => e = (key, value) ∨ e ∈ m.entries) (.inl rfl)
    (fun _ => .inr) e h

theorem mem_map_insertEntry (key k : α) (value : β) (es : List (α × β)) :
    k ∈ (insertEntry o key value es).map (·.1) ↔ k = key ∨ k ∈ es.map (·.1) := by
  induction es with
  | nil => simp [insertEntry]
  | cons e es ih =>
    simp only [insertEntry]
    split
    · simp
    · next heq =>
      have hkey : key = e.1 := Std.LawfulEqCmp.eq_of_compare heq
      simp [← hkey]
    · rw [List.map_cons, List.mem_cons, ih, List.map_cons, List.mem_cons]
      exact or_left_comm

/-- After an insertion the keys are the old ones and the new one. -/
theorem mem_keys_insert (m : SortedMap o β) (key k : α) (value : β) :
    k ∈ (m.insert key value).keys ↔ k = key ∨ k ∈ m.keys :=
  mem_map_insertEntry key k value m.entries

/-- The keys are those that were put in. -/
theorem mem_keys_ofList (es : List (α × β)) (k : α) :
    k ∈ (ofList es : SortedMap o β).keys ↔ k ∈ es.map (·.1) := by
  suffices h : ∀ m : SortedMap o β,
      k ∈ (es.foldl (fun m e => m.insert e.1 e.2) m).keys ↔ k ∈ m.keys ∨ k ∈ es.map (·.1) by
    exact (h empty).trans (or_iff_right List.not_mem_nil)
  induction es with
  | nil => simp
  | cons e es ih =>
    intro m
    rw [List.foldl_cons, ih, mem_keys_insert, List.map_cons, List.mem_cons]
    grind

/-! ## Putting in ascending entries -/

theorem insertEntry_append (key : α) (value : β) {es : List (α × β)}
    (h : ∀ e ∈ es, o.compare e.1 key = .lt) :
    insertEntry o key value es = es ++ [(key, value)] := by
  induction es with
  | nil => rfl
  | cons e es ih =>
    have hgt : o.compare key e.1 = .gt := Std.OrientedCmp.gt_of_lt (h e (by simp))
    simp only [insertEntry, hgt]
    rw [ih fun a ha => h a (by simp [ha]), List.cons_append]

theorem entries_foldl_insert (es : List (α × β)) (m : SortedMap o β)
    (h : (m.entries ++ es).Pairwise fun a b => o.compare a.1 b.1 = .lt) :
    (es.foldl (fun m e => m.insert e.1 e.2) m).entries = m.entries ++ es := by
  induction es generalizing m with
  | nil => simp
  | cons e es ih =>
    have hm : (m.insert e.1 e.2).entries = m.entries ++ [e] :=
      insertEntry_append e.1 e.2 fun a ha => (List.pairwise_append.1 h).2.2 a ha e (by simp)
    rw [List.foldl_cons, ih _ (by simpa [hm] using h), hm]
    simp

/-- Ascending entries are those of the map that they are put into. -/
theorem entries_ofList {es : List (α × β)}
    (h : es.Pairwise fun a b => o.compare a.1 b.1 = .lt) :
    (ofList es : SortedMap o β).entries = es :=
  entries_foldl_insert es empty h

/-- A map is what its own entries are put into. -/
theorem ofList_entries (m : SortedMap o β) : ofList m.entries = m :=
  ext (entries_ofList m.ascending)

/-- A set is what its own members are put into. -/
theorem ofList_keys (m : SortedMap o Unit) : ofList (m.keys.map fun key => (key, ())) = m := by
  have hkeys : (m.keys.map fun key => (key, ())) = m.entries := by
    unfold keys
    rw [List.map_map]
    exact List.map_id _
  rw [hkeys]
  exact ofList_entries m

/-! ## Changing keys and values -/

/-- The map with other keys and values. -/
def convert {γ δ : Type} {p : TotalOrder γ} (f : α → γ) (g : β → δ) (m : SortedMap o β) :
    SortedMap p δ :=
  ofList (m.entries.map (Prod.map f g))

section Convert

variable {γ δ : Type} {p : TotalOrder γ} {f : α → γ} (g : β → δ)

theorem insertEntry_map (hf : ∀ a b, p.compare (f a) (f b) = o.compare a b) (key : α) (value : β)
    (es : List (α × β)) :
    (insertEntry o key value es).map (Prod.map f g) =
      insertEntry p (f key) (g value) (es.map (Prod.map f g)) := by
  induction es with
  | nil => rfl
  | cons e es ih =>
    simp only [insertEntry, List.map_cons, Prod.map_fst, hf]
    cases o.compare key e.1 with
    | lt => rfl
    | eq => rfl
    | gt => simp only [List.map_cons, ih]

/-- Under new keys that compare as the old ones do, the entries keep their places. -/
theorem entries_convert (hf : ∀ a b, p.compare (f a) (f b) = o.compare a b) (m : SortedMap o β) :
    (m.convert f g : SortedMap p δ).entries = m.entries.map (Prod.map f g) := by
  apply entries_ofList
  rw [List.pairwise_map]
  refine m.ascending.imp fun h => ?_
  rwa [Prod.map_fst, Prod.map_fst, hf]

theorem compare_convert {q : TotalOrder β} {r : TotalOrder δ} {g : β → δ}
    (hf : ∀ a b, p.compare (f a) (f b) = o.compare a b)
    (hg : ∀ a b, r.compare (g a) (g b) = q.compare a b) (m n : SortedMap o β) :
    (p.pair r).list.compare (m.convert f g : SortedMap p δ).entries
        (n.convert f g : SortedMap p δ).entries =
      (o.pair q).list.compare m.entries n.entries := by
  rw [entries_convert g hf, entries_convert g hf]
  exact TotalOrder.compare_list_map (TotalOrder.compare_pair_map hf hg) m.entries n.entries

theorem convert_insert (hf : ∀ a b, p.compare (f a) (f b) = o.compare a b) (m : SortedMap o β)
    (key : α) (value : β) :
    ((m.insert key value).convert f g : SortedMap p δ) =
      (m.convert f g).insert (f key) (g value) := by
  apply ext
  rw [entries_convert g hf]
  show _ = insertEntry p (f key) (g value) (m.convert f g : SortedMap p δ).entries
  rw [entries_convert g hf]
  exact insertEntry_map g hf key value m.entries

theorem convert_ofList (hf : ∀ a b, p.compare (f a) (f b) = o.compare a b) (es : List (α × β)) :
    ((ofList es : SortedMap o β).convert f g : SortedMap p δ) =
      ofList (es.map (Prod.map f g)) := by
  suffices h : ∀ m : SortedMap o β,
      ((es.foldl (fun m e => m.insert e.1 e.2) m).convert f g : SortedMap p δ) =
        (es.map (Prod.map f g)).foldl (fun m e => m.insert e.1 e.2) (m.convert f g) from h empty
  induction es with
  | nil => exact fun m => rfl
  | cons e es ih =>
    intro m
    rw [List.map_cons, List.foldl_cons, List.foldl_cons, ih, convert_insert g hf]
    rfl

end Convert

end SortedMap

end Refinement
