import Refinement.Proofs.Reading.Accounting
import Refinement.Proofs.Reading.Judgement
import Refinement.Proofs.RoundTrip.Texts
import Refinement.Vocabulary.Abbreviation

/-!
# Reading simulates reading at the erased type

Reading a text as a type with refinements amounts to reading it as the erased type and checking the
values at the refined positions in the order in which they are completed.

* `Ty.Upholds`: the refinements in a value, at any depth, are met.
* `Ty.ofJson_of_trail`: what comes of a text, told by its trail, at every type.
* `Ty.ofJson_simulates_erased`: the same, told by the positions in the erased value.
* `Ty.replaced_entries_are_checked`: why it is not so of maps with refined types in their values.
-/

namespace Refinement

open Json

mutual

/-- Every refined value in a value, at any depth, meets its predicate. -/
def Ty.Upholds : (t : Ty) → t.Val → Prop
  | .scalar _, _ => True
  | .list _ t, vs => ∀ v ∈ show List t.Val from vs, t.Upholds v
  | .array t _, vs => ∀ v ∈ vs.val, t.Upholds v
  | .set t, m => ∀ v ∈ SortedMap.keys m, t.Upholds v
  | .map k t, m => ∀ e ∈ SortedMap.entries m, k.Upholds e.1 ∧ t.Upholds e.2
  | .option t, o => ∀ v ∈ Option.toList o, t.Upholds v
  | .refined t p, x => t.Upholds x.value ∧ (t.requirement p).accepts x.value = true
  | .present t, x => ∀ v ∈ Present.toList x, t.Upholds v
  | .tuple r, v => r.Upholds v
  | .record _ _ r, v => r.Upholds v

/-- Every refined value in the parts meets its predicate. -/
def Row.Upholds : (r : Row) → r.Val → Prop
  | .nil, _ => True
  | .cons _ t r, v => t.Upholds v.1 ∧ r.Upholds v.2

end

mutual

theorem Ty.upholds : ∀ (t : Ty) (v : t.Val), t.Upholds v
  | .scalar _, _ => trivial
  | .list _ t, _ => fun v _ => t.upholds v
  | .array t _, _ => fun v _ => t.upholds v
  | .set t, _ => fun v _ => t.upholds v
  | .map k t, _ => fun e _ => ⟨k.upholds e.1, t.upholds e.2⟩
  | .option t, _ => fun v _ => t.upholds v
  | .refined t _, x => ⟨t.upholds x.value, x.accepted⟩
  | .present t, _ => fun v _ => t.upholds v
  | .tuple r, v => r.upholds v
  | .record _ _ r, v => r.upholds v

theorem Row.upholds : ∀ (r : Row) (v : r.Val), r.Upholds v
  | .nil, _ => trivial
  | .cons _ t r, v => ⟨t.upholds v.1, r.upholds v.2⟩

end

namespace Checkpoint

variable {c : Checkpoint} {v : c.base.Val}

/-- A value that fails at a position is the only one that is there. -/
theorem FailsAt.not_passes (h : c.FailsAt v) : ¬ c.Passes := by
  rintro ⟨w, hw, ha⟩
  have hwv : w = v := c.base.erase_injective (hw.trans h.1.symm)
  rw [hwv, h.2] at ha
  exact Bool.false_ne_true ha

end Checkpoint

namespace Ty

/-- What reads as the erased type reads as the type itself if the values at all positions of the
trail pass. Otherwise the fault is the violation at the first position where one does not. -/
theorem ofJson_of_trail (t : Ty) (text : String) {u : t.erased.Val}
    (hu : (t.erased.ofJson text).result = .ok u) :
    (∃ v, (t.ofJson text).result = .ok v ∧ t.erase v = u ∧ ∀ c ∈ t.trail text, c.Passes) ∨
    (∃ before c after v, t.trail text = before ++ c :: after ∧ (∀ b ∈ before, b.Passes) ∧
      c.FailsAt v ∧ (t.ofJson text).result = .error (.data (.violation (c.message v)))) := by
  have hs : (t.surveyJson text).result = .ok u := by
    have h := t.ofJson_accounts text
    rw [hu] at h
    generalize hx : (t.surveyJson text).result = x at h
    cases h with
    | ok h => rw [h.1]
  obtain ⟨m, hm, hfault, hagree⟩ := t.ofJson_judged text
  cases m with
  | none =>
    have h := hagree rfl
    rw [hs] at h
    generalize hx : (t.ofJson text).result = x at h
    cases h with
    | ok h => exact .inl ⟨_, rfl, h, hm.of_none.1⟩
  | some s =>
    obtain ⟨before, c, after, v, hl, hb, hc, rfl, -⟩ := hm.of_some
    have htrail : t.trail text = Note.trail before ++ c :: Note.trail after := by
      unfold trail
      rw [hl, Note.trail_append]
      rfl
    exact .inr ⟨Note.trail before, c, Note.trail after, v, htrail, hb, hc, hfault _ rfl⟩

/-- What reads as a type reads as the erased type, and comes to the erased value. -/
theorem erased_ofJson (t : Ty) (text : String) {v : t.Val} (hv : (t.ofJson text).result = .ok v) :
    (t.erased.ofJson text).result = .ok (t.erase v) := by
  obtain ⟨m, -, hfault, hagree⟩ := t.ofJson_judged text
  cases m with
  | some s => rw [hfault s rfl] at hv; cases hv
  | none =>
    have h := hagree rfl
    have h' := t.ofJson_accounts text
    rw [hv] at h
    generalize (t.surveyJson text).result = x at h h'
    cases h with
    | ok h =>
      generalize hy : (t.erased.ofJson text).result = y at h'
      cases h' with
      | ok h' => rw [h'.1, h]

/-- The positions in the erased value that was read are on the trail, and no others are if nothing was
replaced. -/
theorem checkpoints_trail {t : Ty} {text : String} {u : t.erased.Val}
    (hu : (t.erased.ofJson text).result = .ok u) :
    (∀ c ∈ t.checkpoints u, c ∈ t.trail text) ∧
      (t.mapsPlain = true → ∀ c ∈ t.trail text, c ∈ t.checkpoints u) := by
  have h := t.ofJson_accounts text
  rw [hu] at h
  generalize (t.surveyJson text).result = x at h
  cases h with
  | ok h =>
    obtain ⟨rfl, h⟩ := h
    exact ⟨fun c hc => (h.noted c hc).resolve_left List.not_mem_nil,
      fun ht c hc => h.kept ht c (.inr hc)⟩

/-- Reading simulates reading at the erased type. What reads as a type reads as the erased type, to
the erased value, and all refinements in it are met. Conversely, what reads as the erased type reads
as the type itself if the values at all refined positions pass; and if one does not, the fault is the
violation at the one that was completed first. Where a map has refined types in its values, the
positions of entries that were replaced later count as well: they are on the trail. -/
theorem ofJson_simulates_erased (t : Ty) (text : String) :
    (∀ v, (t.ofJson text).result = .ok v →
      (t.erased.ofJson text).result = .ok (t.erase v) ∧ t.Upholds v) ∧
    (t.mapsPlain = true → ∀ u, (t.erased.ofJson text).result = .ok u →
      ((∀ c ∈ t.checkpoints u, c.Passes) →
        ∃ v, (t.ofJson text).result = .ok v ∧ t.erase v = u) ∧
      ((∃ c ∈ t.checkpoints u, ¬ c.Passes) →
        ∃ before c after v, t.trail text = before ++ c :: after ∧ c ∈ t.checkpoints u ∧
          (∀ b ∈ before, b.Passes) ∧ c.FailsAt v ∧
          (t.ofJson text).result = .error (.data (.violation (c.message v))))) ∧
    ∀ u, (t.erased.ofJson text).result = .ok u →
      (∀ c ∈ t.checkpoints u, c ∈ t.trail text) ∧
      ((∃ v, (t.ofJson text).result = .ok v ∧ t.erase v = u ∧ ∀ c ∈ t.trail text, c.Passes) ∨
        ∃ before c after v, t.trail text = before ++ c :: after ∧ (∀ b ∈ before, b.Passes) ∧
          c.FailsAt v ∧
          (t.ofJson text).result = .error (.data (.violation (c.message v)))) := by
  refine ⟨fun v hv => ⟨t.erased_ofJson text hv, t.upholds v⟩, fun ht u hu => ?_, fun u hu => ?_⟩
  · obtain ⟨hsub, hsup⟩ := checkpoints_trail hu
    rcases t.ofJson_of_trail text hu with ⟨v, hv, he, hpass⟩ | ⟨before, c, after, v, hl, hb, hc, hf⟩
    · refine ⟨fun _ => ⟨v, hv, he⟩, ?_⟩
      rintro ⟨c, hc, hfail⟩
      exact absurd (hpass c (hsub c hc)) hfail
    · have hmem : c ∈ t.checkpoints u := hsup ht c (by rw [hl]; simp)
      exact ⟨fun hpass => absurd (hpass c hmem) hc.not_passes,
        fun _ => ⟨before, c, after, v, hl, hmem, hb, hc, hf⟩⟩
  · exact ⟨(checkpoints_trail hu).1, t.ofJson_of_trail text hu⟩

/-- Maps from texts to positive integers. -/
abbrev positiveValues : Ty := .map .text (.refined (.int .i32) .positive)

/-- Entries that are replaced later have been checked all the same. So where a map has refined types in
its values, the positions in the erased value do not tell what comes of a text. In the first text all of
them pass, and in the second another one fails, but the fault is the entry that was replaced. -/
theorem replaced_entries_are_checked :
    let t : Ty := .refined positiveValues (.allOf [])
    let fault := Fault.data (.violation "value -1 must satisfy: greater than constant")
    (∃ u, (t.erased.ofJson "\x7b\"a\":-1,\"a\":1\x7d").result = .ok u ∧
      (∀ c ∈ t.checkpoints u, c.Passes) ∧
      (t.ofJson "\x7b\"a\":-1,\"a\":1\x7d").result = .error fault) ∧
    ∃ u, (t.erased.ofJson "\x7b\"a\":-1,\"a\":0\x7d").result = .ok u ∧
      (∃ v, t.checkpoints u = [⟨.int .i32, .positive, v⟩, ⟨positiveValues, .allOf [], u⟩] ∧
        IntKind.Val.toInt v = 0) ∧
      (t.ofJson "\x7b\"a\":-1,\"a\":0\x7d").result = .error fault := by
  intro t fault
  have hone : ("\x7b\"a\":-1,\"a\":1\x7d" : String).toList =
      ['\x7b', '"', 'a', '"', ':', '-', '1', ',', '"', 'a', '"', ':', '1', '\x7d'] :=
    String.toList_ofList
  have hzero : ("\x7b\"a\":-1,\"a\":0\x7d" : String).toList =
      ['\x7b', '"', 'a', '"', ':', '-', '1', ',', '"', 'a', '"', ':', '0', '\x7d'] :=
    String.toList_ofList
  unfold Ty.ofJson readWhole
  rw [hone, hzero]
  refine ⟨⟨SortedMap.ofList [("a", IntKind.wrap .i32 1)], rfl, ?_, rfl⟩,
    SortedMap.ofList [("a", IntKind.wrap .i32 0)], rfl, ⟨IntKind.wrap .i32 0, rfl, rfl⟩, rfl⟩
  intro c hc
  rcases List.mem_cons.1 hc with rfl | hc
  · exact ⟨IntKind.wrap .i32 1, rfl, rfl⟩
  · obtain rfl := List.mem_singleton.1 hc
    exact ⟨SortedMap.ofList [("a", ⟨IntKind.wrap .i32 1, rfl⟩)], rfl, rfl⟩

/-- Sequences of truth values all of which have to be true. -/
abbrev truths : Ty := .list .vector (.refined .bool (.atom (.compare .equal .natural (.bool true))))

/-- A text that says a value of this type, and one that says a value of the erased type only. -/
theorem ofJson_simulates_erased_truths :
    (truths.erased.ofJson "[true]").result = .ok [true] ∧
      (∃ v, (truths.ofJson "[true]").result = .ok v ∧ truths.erase v = [true]) ∧
      ∃ before c after v, truths.trail "[true,false]" = before ++ c :: after ∧
        c ∈ truths.checkpoints [true, false] ∧ (∀ b ∈ before, b.Passes) ∧ c.FailsAt v ∧
        (truths.ofJson "[true,false]").result = .error (.data (.violation (c.message v))) := by
  have pass : ∀ c ∈ truths.checkpoints [true], c.Passes := by
    intro c hc
    obtain rfl := List.mem_singleton.1 hc
    exact ⟨true, rfl, rfl⟩
  have fail : ∃ c ∈ truths.checkpoints [true, false], ¬ c.Passes := by
    refine ⟨⟨.bool, _, false⟩, List.mem_cons_of_mem _ (List.mem_singleton.2 rfl), ?_⟩
    rintro ⟨v, hv, h⟩
    cases (hv : v = false)
    exact Bool.false_ne_true h
  have pure : (truths.ofJson "[true]").result = .ok [⟨true, rfl⟩] :=
    (ofJson_write (t := truths) rfl [⟨true, rfl⟩]).2
  have erased : (truths.erased.ofJson "[true]").result = .ok [true] :=
    (ofJson_write (t := truths.erased) rfl [true]).2
  have mixed : (truths.erased.ofJson "[true,false]").result = .ok [true, false] :=
    (ofJson_write (t := truths.erased) rfl [true, false]).2
  refine ⟨((ofJson_simulates_erased truths "[true]").1 [⟨true, rfl⟩] pure).1, ?_, ?_⟩
  · exact ((ofJson_simulates_erased truths "[true]").2.1 rfl [true] erased).1 pass
  · exact ((ofJson_simulates_erased truths "[true,false]").2.1 rfl [true, false] mixed).2 fail

end Ty

end Refinement
