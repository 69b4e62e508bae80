import Refinement.Proofs.Reading.Kinship
import Refinement.Proofs.Reading.Survey

/-!
# Reading is a survey with judgement

Reading a value makes of the notes of a survey what they call for: a warning for every empty
sequence, silence at every refined position whose value passes, and at the first whose value does
not, its rejection; with it reading ends, and its fault is the violation at that position.

* `Narrates`: what notes call for.
* `Judged`: an outcome of reading under the notes of a survey.
* `Ty.ofJson_judged`: reading a text is its survey with judgement.
-/

namespace Refinement

open Json

/-- The events that notes call for, and the message of the violation that ends reading, if one
does. -/
inductive Narrates : List Note → List Event → Option String → Prop where
  | done : Narrates [] [] none
  /-- An empty sequence is reported. -/
  | empty {l : List Note} {es : List Event} {m : Option String} (t : Ty) :
    Narrates l es m → Narrates (.empty t :: l) (.emptySequence t.name :: es) m
  /-- A value that passes leaves no trace. -/
  | passed {l : List Note} {es : List Event} {m : Option String} {c : Checkpoint} :
    c.Passes → Narrates l es m → Narrates (.completed c :: l) es m
  /-- A value that does not pass is reported, and reading ends. -/
  | failed {c : Checkpoint} {v : c.base.Val} (l : List Note) :
    c.FailsAt v → Narrates (.completed c :: l) [c.requirement.rejection] (some (c.message v))

namespace Narrates

variable {l l' : List Note} {es es' : List Event} {m : Option String}

/-- What follows is told after it, if nothing ends reading. -/
theorem append (h : Narrates l es none) (h' : Narrates l' es' m) :
    Narrates (l ++ l') (es ++ es') m := by
  generalize hm : (none : Option String) = n at h
  induction h with
  | done => exact h'
  | empty t _ ih => exact .empty t (ih hm)
  | passed hc _ ih => exact .passed hc (ih hm)
  | failed => cases hm

/-- What follows is not told, if something ends reading. -/
theorem append_of_some {s : String} (h : Narrates l es (some s)) (l' : List Note) :
    Narrates (l ++ l') es (some s) := by
  generalize hm : some s = n at h
  induction h with
  | done => cases hm
  | empty t _ ih => exact .empty t (ih hm)
  | passed hc _ ih => exact .passed hc (ih hm)
  | failed l hc => exact .failed (l ++ l') hc

/-- The reports of empty sequences. -/
def warnings (ts : List Ty) : List Event := ts.map fun t => .emptySequence t.name

/-- If nothing ends reading, the values at all positions pass, and the empty sequences are
reported. -/
theorem of_none (h : Narrates l es none) :
    (∀ c ∈ Note.trail l, c.Passes) ∧ es = warnings (Note.empties l) := by
  generalize hm : (none : Option String) = n at h
  induction h with
  | done => exact ⟨fun c hc => absurd hc List.not_mem_nil, rfl⟩
  | empty t _ ih =>
    obtain ⟨hpass, rfl⟩ := ih hm
    exact ⟨hpass, rfl⟩
  | passed hc _ ih =>
    obtain ⟨hpass, hes⟩ := ih hm
    exact ⟨List.forall_mem_cons.2 ⟨hc, hpass⟩, hes⟩
  | failed => cases hm

/-- What ends reading is the violation at the first position whose value does not pass. Its report
comes last, behind those of the empty sequences before it. -/
theorem of_some {s : String} (h : Narrates l es (some s)) :
    ∃ before c after v, l = before ++ .completed c :: after ∧
      (∀ b ∈ Note.trail before, b.Passes) ∧ c.FailsAt v ∧ s = c.message v ∧
      es = warnings (Note.empties before) ++ [c.requirement.rejection] := by
  generalize hm : some s = n at h
  induction h with
  | done => cases hm
  | empty t _ ih =>
    obtain ⟨before, c, after, v, rfl, hb, hc, hs, rfl⟩ := ih hm
    exact ⟨.empty t :: before, c, after, v, rfl, hb, hc, hs, rfl⟩
  | @passed _ _ _ c hc _ ih =>
    obtain ⟨before, d, after, v, rfl, hb, hd, hs, he⟩ := ih hm
    refine ⟨.completed c :: before, d, after, v, rfl, ?_, hd, hs, he⟩
    exact List.forall_mem_cons.2 ⟨hc, hb⟩
  | @failed c v l hc =>
    cases hm
    exact ⟨[], c, l, v, rfl, fun b hb => absurd hb List.not_mem_nil, hc, rfl, rfl⟩

end Narrates

/-- An outcome of reading and one of a survey: the events are those that the notes call for. If a
violation ends reading, it is its fault; otherwise the two have come to the same. -/
def Judged {α β : Type} (R : List Note → α → β → Prop) (x : Logged (Except Fault α))
    (y : Log Note (Except Fault β)) : Prop :=
  ∃ m, Narrates y.events x.events m ∧
    (∀ s, m = some s → x.result = .error (.data (.violation s))) ∧
    (m = none → Agree (R y.events) x.result y.result)

/-- Judgement goes along with every step of reading. -/
def Kinship.judgement : Kinship Event Note where
  Rel := Judged
  ok h := ⟨none, .done, nofun, fun _ => .ok h⟩
  error e := ⟨none, .done, nofun, fun _ => .error e⟩
  andThen := by
    rintro α β γ ζ R S ⟨ex, x⟩ ⟨ey, y⟩ f g ⟨m, hm, hs, hn⟩ hf
    cases m with
    | some s =>
      cases hs s rfl
      refine ⟨some s, ?_, fun _ h => by cases h; rfl, nofun⟩
      show Narrates (ey ++ _) (ex ++ []) _
      rw [List.append_nil]
      exact hm.append_of_some _
    | none =>
      cases hn rfl with
      | error e => exact ⟨none, hm.append .done, nofun, fun _ => .error e⟩
      | ok hab =>
        obtain ⟨m, hm', hs', hn'⟩ := hf ey _ _ hab
        exact ⟨m, hm.append hm', hs', hn'⟩

/-! ## Checks -/

namespace Ty

variable {t : Ty} {p : Predicate} {v : t.Val}

theorem check_of_accepts (h : (t.requirement p).accepts v = true) :
    t.check p v = pure (.ok ⟨v, h⟩) := by
  unfold check
  rw [Requirement.refine_of_accepts h, pure_bind]

theorem check_of_rejects (h : (t.requirement p).accepts v = false) :
    t.check p v = .report (t.requirement p).rejection
      (.error (.data (.violation (t.violationMessage ((t.requirement p).violation v))))) := by
  unfold check
  rw [Requirement.refine_of_rejects h]
  rfl

/-- A check judges the note of the position. -/
theorem check_judged (p : Predicate) (v : t.Val) :
    Kinship.judgement.Rel (fun _ (x : Refined (t.requirement p)) u => t.erase x.value = u) (t.check p v)
      (t.note p (t.erase v)) := by
  cases h : (t.requirement p).accepts v with
  | true =>
    rw [check_of_accepts h]
    exact ⟨none, .passed ⟨v, rfl, h⟩ .done, nofun, fun _ => .ok rfl⟩
  | false =>
    rw [check_of_rejects h]
    refine ⟨some _, .failed (c := ⟨t, p, t.erase v⟩) [] ⟨rfl, h⟩, fun s hs => ?_, nofun⟩
    cases hs
    rfl

end Ty

/-! ## The two readers -/

/-- The fields that have been read, without their refinements. -/
def Row.erasePartial : (r : Row) → r.Partial → r.erased.Partial
  | .nil, _ => ()
  | .cons _ t r, s => (Option.map t.erase s.1, r.erasePartial s.2)

theorem Row.erasePartial_noFields (r : Row) : r.erasePartial r.noFields = r.erased.noFields := by
  induction r with
  | nil => rfl
  | cons label t r ih => exact congrArg (Prod.mk none) ih

/-- Lists of values whose erasures are the items of another. -/
theorem Ty.map_erase_of_items {t : Ty} {l : List Note} {vs : List t.Val} {us : List t.erased.Val}
    (h : Kinship.Items (fun _ v u => t.erase v = u) l vs us) : vs.map t.erase = us := by
  induction h with
  | nil => rfl
  | cons hv _ ih => rw [List.map_cons, hv, ih]

theorem Ty.readName_judged : ∀ t : Ty,
    Kinship.judgement.Reads (fun _ v u => t.erase v = u) t.readName t.surveyName
  | .scalar s => Kinship.ofScan _ fun _ => rfl
  | .option t => fun cs => Kinship.mapTo (t.readName_judged cs) fun _ _ _ h => congrArg some h
  | .refined t p => by
    refine Kinship.readChecked t.readName_judged ?_
    rintro l v u rfl
    exact t.check_judged p v
  | .list .. | .array .. | .set _ | .map .. | .present _ | .tuple _ | .record .. =>
    Kinship.readNoName _

theorem Ty.absent_judged : ∀ (t : Ty) (label : String),
    Kinship.judgement.Rel (fun _ v u => t.erase v = u) (t.absent label) (t.surveyAbsent label)
  | .option _, _ => Kinship.judgement.ok rfl
  | .refined t p, label => by
    refine Kinship.judgement.andThen (t.absent_judged label) ?_
    rintro l v u rfl
    exact t.check_judged p v
  | .scalar _, _ | .list .., _ | .array .., _ | .set _, _ | .map .., _ | .present _, _ | .tuple _, _
  | .record .., _ => Kinship.judgement.error _

theorem Row.complete_judged : ∀ (r : Row) (s : r.Partial),
    Kinship.judgement.Rel (fun _ v u => r.erase v = u) (r.complete s) (r.surveyComplete (r.erasePartial s))
  | .nil, _ => Kinship.judgement.ok rfl
  | .cons label t r, s => by
    have field : Kinship.judgement.Rel (fun _ v u => t.erase v = u) (fieldOr (t.absent label) s.1)
        (fieldOr (t.surveyAbsent label) (Option.map t.erase s.1)) := by
      cases s.1 with
      | none => exact t.absent_judged label
      | some v => exact Kinship.judgement.ok rfl
    refine Kinship.judgement.andThen field ?_
    rintro l v u rfl
    refine Kinship.judgement.andThen (r.complete_judged s.2) ?_
    rintro m vs us rfl
    exact Kinship.judgement.ok rfl

mutual

/-- Reading a value is its survey with judgement. -/
theorem Ty.read_judged : ∀ t : Ty,
    Kinship.judgement.Reads (fun _ v u => t.erase v = u) t.read t.survey
  | .scalar s => Kinship.ofScan _ fun _ => rfl
  | .list k t => Kinship.readArray _ ((Kinship.readItems t.read_judged).mono
    fun _ _ _ h => Ty.map_erase_of_items h)
  | .array t n => Kinship.readArray _ ((Kinship.readExactly t.read_judged _ n 0).mono
    fun _ _ _ h => Subtype.ext (Ty.map_erase_of_items h))
  | .set t => Kinship.readArray _ fun cs => Kinship.mapTo (Kinship.readItems t.read_judged cs)
    fun l vs us h => by
      rw [← Ty.map_erase_of_items h]
      exact t.erase_ofList vs
  | .map k t => by
    refine Kinship.readObject _ (Kinship.readMembers (fun l m u hm => ?_) rfl)
    subst hm
    refine Kinship.readEntry (l := []) (M := fun _ m u => (Ty.map k t).erase m = u) k.readName_judged
      t.read_judged ?_
    rintro _ _ key _ v _ rfl rfl
    exact t.erase_insert k m key v
  | .option t => Kinship.readOption t.read_judged rfl fun _ _ _ h => congrArg some h
  | .refined t p => by
    refine Kinship.readChecked t.read_judged ?_
    rintro l v u rfl
    exact t.check_judged p v
  | .present t => by
    refine Kinship.readArray _ (Kinship.readPresentItems t.read_judged ?_ ?_)
    · exact ⟨none, .empty t .done, nofun, fun _ => .ok rfl⟩
    · rintro l v u rfl
      exact ⟨none, .done, nofun, fun _ => .ok rfl⟩
  | .tuple r => Kinship.readTuple _ r.size (r.readParts_judged _ 0)
  | .record _ name r => by
    show Kinship.Reads _ _ _ (readRecord name r.size _ _ _)
    refine Kinship.readRecord (fun expected => r.readParts_judged expected 0)
      (Kinship.readFields (R := fun _ s s' => r.erasePartial s = s') ?_ r.erasePartial_noFields) ?_
    · rintro label l s _ rfl
      exact r.readNamed_judged label s
    · rintro l s _ rfl
      exact r.complete_judged s

theorem Row.readParts_judged : ∀ (r : Row) (expected : String) (i : Nat),
    Kinship.judgement.Reads (fun _ v u => r.erase v = u) (r.readParts expected i)
      (r.surveyParts expected i)
  | .nil, _, _ => fun cs => Kinship.ok_leaving cs rfl
  | .cons _ t r, expected, i => by
    refine (Kinship.readPart expected i t.read_judged (r.readParts_judged expected (i + 1))).mono ?_
    rintro l v u ⟨m, n, -, h, h'⟩
    exact Prod.ext h h'

theorem Row.readNamed_judged : ∀ (r : Row) (name : List Char) (s : r.Partial),
    Kinship.judgement.Reads (fun _ s' s'' => r.erasePartial s' = s'') (r.readNamed name s)
      (r.surveyNamed name (r.erasePartial s))
  | .nil, _, s => fun cs => Kinship.mapTo
    (Kinship.readValue (Kinship.ofScan skipValue (R := Kinship.Same) fun _ => ⟨rfl, rfl⟩) cs)
    fun _ _ _ _ => rfl
  | .cons label t r, name, s => by
    refine Kinship.Reads.ite ?_ ?_
    · refine Kinship.readField (l := [])
        (P := fun _ s' s'' => (Row.cons label t r).erasePartial s' = s'') t.read_judged ?_ ?_
      · exact (Option.isSome_map ..).symm
      · rintro m v u - rfl
        rfl
    · refine fun cs => Kinship.mapTo (r.readNamed_judged name s.2 cs) ?_
      rintro m s' _ rfl
      rfl

end

/-! ## Whole texts -/

/-- Reading a text is its survey with judgement. -/
theorem Ty.ofJson_judged (t : Ty) (text : String) :
    Judged (fun _ v u => t.erase v = u) (t.ofJson text) (t.surveyJson text) :=
  Kinship.readWhole t.read_judged text

end Refinement
