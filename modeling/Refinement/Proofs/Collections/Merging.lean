import Mathlib.Data.Finset.Card
import Mathlib.Data.List.Sort
import Refinement.Proofs.Collections.Listing
import Refinement.Proofs.Markers.Answers
import Refinement.Proofs.Reading.Judgement
import Refinement.Vocabulary.Abbreviation

/-!
# Bounds on merged collections

What is read as a set or map is checked after its parts were put together. So a bound on the number of
members counts every key once, however often it stands in the text; and the value under a key is the
last one that stands there.

* `SortedMap.size_eq_card`: a map has as many entries as there are different keys.
* `SortedMap.get?_ofList`, `SortedMap.ext_keys`: what is found under a key, and sets with equal members.
* `Ty.ofJson_refined`: a value is checked when it was read.
* `Ty.Bounded`: how bounds on its number of members apply to a collection.
* `Ty.bounds_apply_merged`: they apply to sets and maps after they were merged.
-/

namespace Refinement

/-! ## Merging -/

variable {α β : Type}

instance TotalOrder.irrefl_lt (o : TotalOrder α) : Std.Irrefl fun a b => o.compare a b = .lt where
  irrefl a h := by
    rw [o.compare_self] at h
    cases h

instance TotalOrder.antisymm_lt (o : TotalOrder α) : Std.Antisymm fun a b => o.compare a b = .lt where
  antisymm a b h h' := by
    rw [Std.OrientedCmp.gt_of_lt h] at h'
    cases h'

namespace SortedMap

variable {o : TotalOrder α}

theorem pairwise_keys (m : SortedMap o β) : m.keys.Pairwise fun a b => o.compare a b = .lt :=
  List.pairwise_map.2 m.ascending

/-- A map has as many entries as there are different keys. -/
theorem size_eq_card [DecidableEq α] {m : SortedMap o β} {ks : List α}
    (h : ∀ k, k ∈ m.keys ↔ k ∈ ks) : m.size = ks.toFinset.card := by
  have hks : ks.toFinset = m.keys.toFinset := by
    ext k
    rw [List.mem_toFinset, List.mem_toFinset, h]
  rw [hks, List.toFinset_card_of_nodup m.pairwise_keys.nodup]
  exact (List.length_map _).symm

/-- Sets with the same members are equal. -/
theorem ext_keys {m n : SortedMap o Unit} (h : ∀ k, k ∈ m.keys ↔ k ∈ n.keys) : m = n := by
  rw [← ofList_keys m, ← ofList_keys n, m.pairwise_keys.eq_of_mem_iff n.pairwise_keys h]

theorem mem_keys_ofKeys (ks : List α) (k : α) : k ∈ (ofKeys ks : SortedMap o Unit).keys ↔ k ∈ ks := by
  have hks : (ks.map fun key => (key, ())).map (·.1) = ks := by
    rw [List.map_map]
    exact List.map_id ks
  unfold ofKeys
  rw [mem_keys_ofList, hks]

/-- Under each key is the last value that was put in. -/
theorem get?_ofList [DecidableEq α] (es : List (α × β)) (k : α) :
    (ofList es : SortedMap o β).get? k = es.reverse.lookup k := by
  suffices h : ∀ m : SortedMap o β, (es.foldl (fun m e => m.insert e.1 e.2) m).get? k =
      (es.reverse.lookup k).or (m.get? k) by
    exact (h empty).trans Option.or_none
  induction es with
  | nil => exact fun m => rfl
  | cons e es ih =>
    intro m
    rw [List.foldl_cons, ih, List.reverse_cons, List.lookup_append, Option.or_assoc, get?_insert]
    congr 1
    obtain ⟨key, value⟩ := e
    by_cases hk : k = key
    · rw [if_pos hk, List.lookup_cons, beq_iff_eq.2 hk]
      rfl
    · rw [if_neg hk, List.lookup_cons, beq_eq_false_iff_ne.2 hk]
      rfl

end SortedMap

/-! ## Checking -/

namespace Ty

open Json Grammar

variable {t : Ty} {p : Predicate} {text : String} {v : t.Val}

theorem check_ok_iff {x : Refined (t.requirement p)} :
    (t.check p v).result = .ok x ↔ x.value = v := by
  constructor
  · intro h
    cases hv : (t.requirement p).accepts v with
    | true =>
      rw [check_of_accepts hv] at h
      cases h
      rfl
    | false =>
      rw [check_of_rejects hv] at h
      cases h
  · rintro rfl
    exact check_value x

theorem exists_check_ok_iff :
    (∃ x, (t.check p v).result = .ok x) ↔ p.accepts t.facet v = true := by
  constructor
  · rintro ⟨x, hx⟩
    rw [← check_ok_iff.1 hx]
    exact x.accepted
  · intro h
    exact ⟨⟨v, h⟩, check_ok_iff.2 rfl⟩

/-- A value that is read from a text is checked then. -/
theorem ofJson_refined (h : (t.ofJson text).result = .ok v) :
    ((Ty.refined t p).ofJson text).result = (t.check p v).result := by
  obtain ⟨u, hread, hu⟩ := readWhole_ok_iff.1 h
  have hchecked : ((Ty.refined t p).read text.toList).result =
      (Reader.leaving u (t.check p v)).result := by
    show (readChecked (t.check p) t.read text.toList).result = _
    unfold readChecked
    rw [Reader.result_andThen, hread]
    rfl
  unfold Ty.ofJson readWhole Log.andThen
  rw [Log.result_bind, hchecked]
  unfold Reader.leaving Log.andThen
  rw [Log.result_bind]
  cases (t.check p v).result with
  | error f => rfl
  | ok x =>
    simp only [Log.result_pure, hu.skipBlanks_eq]
    rfl

/-! ## Bounds on the number of members -/

/-- A collection with bounds on its number of members. -/
abbrev within (t : Ty) (a b : IntKind.usize.Val) : Ty :=
  .refined t (.allOf [Predicate.atLeast a, Predicate.atMost b])

/-- Bounds on the number of members apply to a collection that was read from a text: it has `n` members
and is written as `written`. -/
structure Bounded (t : Ty) (text : String) (v : t.Val) (n : Nat) (written : String) : Prop where
  /-- Reading succeeds if and only if the number is within the bounds. -/
  succeeds_iff : ∀ a b, (∃ x, ((t.within a b).ofJson text).result = .ok x) ↔
    a.toInt ≤ n ∧ n ≤ b.toInt
  /-- It comes to the collection. -/
  value_eq : ∀ a b x, ((t.within a b).ofJson text).result = .ok x → x.value = v
  /-- The collection is written, and what is written is read as the same. -/
  reads_back : ∀ a b x, ((t.within a b).ofJson text).result = .ok x →
    (t.within a b).json? x = some written ∧ ((t.within a b).ofJson written).result = .ok x

theorem accepts_within {a b : IntKind.usize.Val} {n : Nat} (hn : t.facet.count? v = some n) :
    Predicate.accepts t.facet (.allOf [Predicate.atLeast a, Predicate.atMost b]) v = true ↔
      a.toInt ≤ n ∧ n ≤ b.toInt := by
  rw [Predicate.accepts_eq_holds]
  show ((Predicate.atLeast a).accepts t.facet v && ((Predicate.atMost b).accepts t.facet v && true)) =
    true ↔ _
  rw [Bool.and_true, Bool.and_eq_true, Predicate.accepts_atLeast hn, Predicate.accepts_atMost hn]

/-- Bounds apply to what is read without them. -/
theorem bounded_of_ofJson (hf : t.isFaithful = true) (h : (t.ofJson text).result = .ok v) {n : Nat}
    (hn : t.facet.count? v = some n) : t.Bounded text v n (String.ofList (t.write v)) where
  succeeds_iff a b := by
    rw [ofJson_refined h]
    exact exists_check_ok_iff.trans (accepts_within hn)
  value_eq a b x hx := by
    rw [ofJson_refined h] at hx
    exact check_ok_iff.1 hx
  reads_back a b x hx := by
    rw [ofJson_refined h] at hx
    have hv := check_ok_iff.1 hx
    rw [← hv]
    exact Ty.ofJson_write (t := t.within a b) hf x

/-! ## Sets and maps -/

theorem ofJson_set {ks : List t.Val} (h : t.ItemsText text ks) :
    ((Ty.set t).ofJson text).result = .ok (SortedMap.ofKeys ks) := by
  obtain ⟨u, hu, hread⟩ := readCollection_yields t.readsParts_item (Ty.set t).words h
  refine readWhole_ok_iff.2 ⟨u, ?_, hu⟩
  rw [read_set]
  exact hread.mapTo _

theorem ofJson_map {k : Ty} (hk : k.isName = true) {es : List (k.Val × t.Val)}
    (h : k.EntriesText t text es) :
    ((Ty.map k t).ofJson text).result = .ok (SortedMap.ofList es) := by
  obtain ⟨u, hu, hread⟩ := readCollection_yields (readsParts_entry hk t) (Ty.map k t).words h
  refine readWhole_ok_iff.2 ⟨u, ?_, hu⟩
  rw [read_map]
  exact hread.mapTo _

/-- Arrays with the same items are read as the same set. -/
theorem ofJson_set_congr {p : Predicate} {text' : String} {ks ks' : List t.Val}
    (h : t.ItemsText text ks) (h' : t.ItemsText text' ks') (hks : ∀ k, k ∈ ks ↔ k ∈ ks') :
    ((Ty.refined (.set t) p).ofJson text).result = ((Ty.refined (.set t) p).ofJson text').result := by
  have hmerged : (SortedMap.ofKeys ks : SortedMap t.order Unit) = SortedMap.ofKeys ks' := by
    refine SortedMap.ext_keys fun k => ?_
    rw [SortedMap.mem_keys_ofKeys, SortedMap.mem_keys_ofKeys, hks]
  rw [ofJson_refined (ofJson_set h), ofJson_refined (ofJson_set h'), hmerged]

/-- Bounds on the number of members apply to sets and maps after they were merged. Every array of
integers is read as the set of its different items, in ascending order, if their number is within the
bounds; neither their places nor their repetitions matter. Every object with such names and with
characters is read as the map from its different keys, in ascending order, to the last of their values,
if the number of the keys is within the bounds. -/
theorem bounds_apply_merged :
    (∀ (text : String) (ks : List IntKind.i32.Val), (Ty.int .i32).ItemsText text ks →
      (∃ m : SortedMap (Ty.int .i32).order Unit, (∀ k, k ∈ m.keys ↔ k ∈ ks) ∧
        (m.keys.Pairwise fun a b => IntKind.Val.toInt a < IntKind.Val.toInt b) ∧
        (Ty.set (.int .i32)).Bounded text m ks.toFinset.card
          (String.ofList (writeArray (m.keys.map fun k => writeInt (IntKind.Val.toInt k))))) ∧
      ∀ (text' : String) (ks' : List IntKind.i32.Val), (Ty.int .i32).ItemsText text' ks' →
        (∀ k, k ∈ ks ↔ k ∈ ks') → ∀ a b, (((Ty.set (.int .i32)).within a b).ofJson text).result =
          (((Ty.set (.int .i32)).within a b).ofJson text').result) ∧
    ∀ (text : String) (es : List (IntKind.i32.Val × Char)), (Ty.int .i32).EntriesText .char text es →
      ∃ m : SortedMap (Ty.int .i32).order Char, (∀ k, k ∈ m.keys ↔ k ∈ es.map (·.1)) ∧
        (∀ k : IntKind.i32.Val, m.get? k = es.reverse.lookup k) ∧
        (m.keys.Pairwise fun a b => IntKind.Val.toInt a < IntKind.Val.toInt b) ∧
        (Ty.map (.int .i32) .char).Bounded text m (es.map (·.1)).toFinset.card
          (String.ofList (writeObject (m.entries.map fun e =>
            ('"' :: writeInt (IntKind.Val.toInt e.1) ++ ['"'], writeText [e.2])))) := by
  have ascending (β : Type) (m : SortedMap (Ty.int .i32).order β) :
      m.keys.Pairwise fun a b => IntKind.Val.toInt a < IntKind.Val.toInt b :=
    m.pairwise_keys.imp fun h => Int.compare_eq_lt.1 h
  constructor
  · intro text ks h
    refine ⟨⟨SortedMap.ofKeys ks, SortedMap.mem_keys_ofKeys ks, ascending _ _, ?_⟩, ?_⟩
    · have hsize := SortedMap.size_eq_card (α := IntKind.i32.Val)
        (SortedMap.mem_keys_ofKeys (o := (Ty.int .i32).order) ks)
      exact bounded_of_ofJson (t := .set (.int .i32)) rfl (ofJson_set h) (congrArg some hsize)
    · intro text' ks' h' hks a b
      exact ofJson_set_congr h h' hks
  · intro text es h
    refine ⟨SortedMap.ofList es, SortedMap.mem_keys_ofList es, SortedMap.get?_ofList es,
      ascending _ _, ?_⟩
    have hsize := SortedMap.size_eq_card (α := IntKind.i32.Val)
      (SortedMap.mem_keys_ofList (o := (Ty.int .i32).order) es)
    exact bounded_of_ofJson (t := .map (.int .i32) .char) rfl (ofJson_map rfl h) (congrArg some hsize)

/-- Three items of which two are equal make a set of two, and three entries of which two have the same
key a map of two. -/
theorem bounds_apply_merged_repeated :
    let numbers (n : Int) : Ty :=
      (Ty.set (.int .i32)).within (IntKind.wrap .usize n) (IntKind.wrap .usize n)
    let letters (n : Int) : Ty :=
      (Ty.map (.int .i32) .char).within (IntKind.wrap .usize n) (IntKind.wrap .usize n)
    (∃ x, ((numbers 2).ofJson "[3,1,3]").result = .ok x) ∧
      (¬ ∃ x, ((numbers 3).ofJson "[3,1,3]").result = .ok x) ∧
      ((numbers 3).ofJson "[3,1,3]").result = ((numbers 3).ofJson "[1,3]").result ∧
      ∃ m : SortedMap (Ty.int .i32).order Char, m.get? (IntKind.wrap .i32 2) = some 'c' ∧
        ∃ x, ((letters 2).ofJson "\x7b\"2\":\"a\",\"1\":\"b\",\"2\":\"c\"\x7d").result = .ok x ∧
          x.value = m := by
  intro numbers letters
  obtain ⟨sets, maps⟩ := bounds_apply_merged
  have hthree : (Ty.int .i32).ItemsText "[3,1,3]" _ :=
    itemsText_write (t := .int .i32) rfl
      [IntKind.wrap .i32 3, IntKind.wrap .i32 1, IntKind.wrap .i32 3]
  have htwo : (Ty.int .i32).ItemsText "[1,3]" _ :=
    itemsText_write (t := .int .i32) rfl [IntKind.wrap .i32 1, IntKind.wrap .i32 3]
  have hletters : (Ty.int .i32).EntriesText .char
      "\x7b\"2\":\"a\",\"1\":\"b\",\"2\":\"c\"\x7d" _ :=
    entriesText_write (.int .i32) (t := .char) rfl
      [(IntKind.wrap .i32 2, 'a'), (IntKind.wrap .i32 1, 'b'), (IntKind.wrap .i32 2, 'c')]
  obtain ⟨⟨m, -, -, hm⟩, hsame⟩ := sets _ _ hthree
  obtain ⟨m', -, hget, -, hm'⟩ := maps _ _ hletters
  obtain ⟨x, hx⟩ := (hm'.succeeds_iff (IntKind.wrap .usize 2) (IntKind.wrap .usize 2)).2 (by decide)
  refine ⟨(hm.succeeds_iff _ _).2 (by decide), ?_, ?_, m', ?_, x, hx, hm'.value_eq _ _ x hx⟩
  · exact mt (hm.succeeds_iff _ _).1 (by decide)
  · have hmem (a b k : IntKind.i32.Val) : k ∈ [a, b, a] ↔ k ∈ [b, a] := by grind
    exact hsame _ _ htwo (hmem _ _) _ _
  · exact (hget _).trans rfl

end Ty

end Refinement
