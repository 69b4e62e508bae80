import Refinement.Proofs.Store.Reports
import Refinement.Proofs.Store.Soundness
import Refinement.Session.Present
import Refinement.Session.Refined

/-!
# Sessions are runs of stores

What a step does to a session, operations do to a store with the same slots, and they report the
same. So what holds of all runs of stores holds of the runs of sessions.

* `Store.Leads`: operations lead from one store to another.
* `RefinedSession.step_leads`, `PresentSession.step_leads`: a step is made of operations.
* `RefinedSession.run_leads`, `PresentSession.run_leads`: so is a whole run.
* `RefinedSession.run_told`, `PresentSession.run_told`: what this says of the slots and of the events.
-/

namespace Refinement

section Slots

variable {α : Type} {l : List α} {a : Nat} {c d : α}

theorem lt_of_getD_ne (h : l[a]?.getD d ≠ d) : a < l.length := by
  refine Nat.lt_of_not_le fun hle => h ?_
  rw [List.getElem?_eq_none hle, Option.getD_none]

/-- A slot that holds something is left as it is by what it holds. -/
theorem set_of_getD_eq (h : l[a]?.getD d = c) (hc : c ≠ d) : l.set a c = l := by
  have ha : a < l.length := lt_of_getD_ne (h ▸ hc)
  rw [List.getElem?_eq_getElem ha, Option.getD_some] at h
  rw [← h, List.set_getElem_self]

end Slots

namespace Store

/-- Some operations lead from a store to another one, and report these events. -/
def Leads (s : Store) (es : List Event) (s' : Store) : Prop :=
  ∃ xs, (s.run xs).events = es ∧ (s.run xs).result.2 = s'

variable {s s' s'' : Store} {es es' : List Event} {a : Nat} {c d : Cell} {u : Use}

/-! ## Slots -/

theorem slot_append (s : Store) (c : Cell) : slot (s ++ [c]) s.length = c := by
  unfold slot
  rw [List.getElem?_concat_length]
  rfl

theorem set_append (s : Store) (c d : Cell) : (s ++ [c]).set s.length d = s ++ [d] := by
  rw [List.set_append_right s.length d (Nat.le_refl _), Nat.sub_self]
  rfl

theorem ne_gone_of_live {t : Ty} {v : t.Val} (h : s.slot a = .live t v) : s.slot a ≠ .gone := by
  intro hgone
  rw [h] at hgone
  cases hgone

theorem ne_gone_of_violation {t : Ty} {x : Violation t.Val} (h : s.slot a = .violation t x) :
    s.slot a ≠ .gone := by
  intro hgone
  rw [h] at hgone
  cases hgone

theorem lt_of_slot (h : s.slot a ≠ .gone) : a < s.length := lt_of_getD_ne h

theorem slot_set (h : s.slot a ≠ .gone) (c : Cell) : slot (s.set a c) a = c := by
  unfold slot
  rw [List.getElem?_set_self (lt_of_slot h)]
  rfl

/-- New slots come after the others. -/
theorem slot_append_left (h : s.slot a ≠ .gone) (s' : Store) : slot (s ++ s') a = s.slot a := by
  unfold slot
  rw [List.getElem?_append_left (lt_of_slot h)]

theorem put_telling (r : Reply) : s.put a (.telling r) = s := List.append_nil s

theorem put_leaving (r : Reply) : s.put a (.leaving r c) = s.set a c := List.append_nil _

theorem set_slot (h : s.slot a = c) (hc : c ≠ .gone) : s.set a c = s := set_of_getD_eq h hc

/-! ## Steps -/

theorem step_use (h : s.slot a = c) (u : Use) :
    s.step (.use a u) = (fun o => (o.reply, s.put a o)) <$> u.act c := by
  rw [← h]
  rfl

theorem step_leaving {r : Reply} (h : s.slot a = c) (hu : u.act c = ⟨es, .leaving r d⟩) :
    s.step (.use a u) = ⟨es, (r, s.set a d)⟩ := by
  rw [step_use h, hu]
  exact Log.ext (List.append_nil es) (congrArg (Prod.mk r) (put_leaving r))

theorem run_cons {x : Operation} {xs : List Operation} {r : Reply} {rs : List Reply}
    (hx : s.step x = ⟨es, (r, s')⟩) (hxs : s'.run xs = ⟨es', (rs, s'')⟩) :
    s.run (x :: xs) = ⟨es ++ es', (r :: rs, s'')⟩ := by
  simp only [run, bind, Log.bind, hx, hxs]
  exact Log.ext (congrArg (es ++ ·) (List.append_nil es')) rfl

/-- What is done to a slot one after the other. -/
theorem run_leaving_leaving {w : Use} {r r' : Reply} {e : Cell} (h : s.slot a = c) (hc : c ≠ .gone)
    (hu : u.act c = ⟨es, .leaving r d⟩) (hw : w.act d = ⟨es', .leaving r' e⟩) :
    s.run [.use a u, .use a w] = ⟨es ++ es', ([r, r'], s.set a e)⟩ := by
  have hs : slot (s.set a d) a = d := slot_set (h ▸ hc) d
  have hsecond := step_leaving hs hw
  rw [List.set_set] at hsecond
  have hrest := run_cons hsecond (show run (s.set a e) [] = ⟨[], ([], s.set a e)⟩ from rfl)
  rw [List.append_nil] at hrest
  exact run_cons (step_leaving h hu) hrest

namespace Leads

theorem refl (s : Store) : Leads s [] s := ⟨[], rfl, rfl⟩

theorem cons (x : Operation) (h : Leads (s.step x).result.2 es s') :
    Leads s ((s.step x).events ++ es) s' := by
  obtain ⟨xs, rfl, rfl⟩ := h
  refine ⟨x :: xs, ?_, rfl⟩
  show _ ++ (_ ++ []) = _
  rw [List.append_nil]

theorem step (s : Store) (x : Operation) : Leads s (s.step x).events (s.step x).result.2 := by
  have h := cons x (refl (s.step x).result.2)
  rwa [List.append_nil] at h

theorem trans (h : Leads s es s') (h' : Leads s' es' s'') : Leads s (es ++ es') s'' := by
  obtain ⟨xs, rfl, rfl⟩ := h
  induction xs generalizing s with
  | nil => exact h'
  | cons x xs ih =>
    have hrun : (s.run (x :: xs)).events =
        (s.step x).events ++ ((s.step x).result.2.run xs).events := by
      show _ ++ (_ ++ []) = _
      rw [List.append_nil]
    rw [hrun, List.append_assoc]
    exact cons x (ih h')

/-- A new value. -/
theorem bring (s : Store) (t : Ty) (v : t.Val) : Leads s [] (s ++ [.live t v]) :=
  step s (.bring t v)

theorem use (h : s.slot a = c) (u : Use) : Leads s (u.act c).events (s.put a (u.act c).result) := by
  have hstep := step s (.use a u)
  have he : (s.step (.use a u)).events = (u.act c).events := by
    rw [← h]
    exact List.append_nil _
  rw [he] at hstep
  subst h
  exact hstep

/-- Something that only answers. -/
theorem telling {r : Reply} (h : s.slot a = c) (hu : u.act c = ⟨es, .telling r⟩) : Leads s es s := by
  have hstep := use h u
  rwa [hu, put_telling] at hstep

/-- Something that changes the slot. -/
theorem leaving {r : Reply} (h : s.slot a = c) (hu : u.act c = ⟨es, .leaving r d⟩) :
    Leads s es (s.set a d) := by
  have hstep := use h u
  rwa [hu, put_leaving] at hstep

/-- Something that changes a slot that has just been changed, in silence. -/
theorem leaving_set {r : Reply} (hs : s.slot a ≠ .gone) (h : Leads s es (s.set a c))
    (hu : u.act c = pure (.leaving r d)) : Leads s es (s.set a d) := by
  have hstep := h.trans (leaving (slot_set hs c) hu)
  rwa [List.append_nil, List.set_set] at hstep

/-- Something that changes a slot that is new, in silence. -/
theorem leaving_append {r : Reply} (h : Leads s es (s' ++ [c])) (hu : u.act c = pure (.leaving r d)) :
    Leads s es (s' ++ [d]) := by
  have hstep := h.trans (leaving (slot_append s' c) hu)
  rwa [List.append_nil, set_append] at hstep

/-- Something that takes out what is in a slot if `consume` says so; it is dropped. -/
theorem consuming {r : Reply} {consume : Bool} (hs : s.slot a ≠ .gone) (h : s.slot a = c)
    (hu : u.act c = ⟨es, .consuming consume r d⟩) :
    Leads s es (if consume then s.set a .gone else s) := by
  cases consume with
  | false => exact telling h hu
  | true => exact leaving_set hs (leaving h hu) (show Use.drop.act d = pure (.leaving .done .gone) from rfl)

/-- In a store that operations lead to from the empty one, all refinements are met. -/
theorem sound (h : Leads [] es s) : s.Sound := by
  obtain ⟨xs, -, rfl⟩ := h
  exact run_sound (fun c hc => absurd hc List.not_mem_nil) xs

/-- The events on the way are those that the operations call for. -/
theorem told (h : Leads s es s') :
    ∃ l : List Entry, es = l.flatMap Entry.events ∧ ∀ e ∈ l, e.Told := by
  obtain ⟨xs, rfl, -⟩ := h
  exact ⟨s.history xs, (run_eq_history s xs).1, told_of_mem_history⟩

end Leads

end Store

/-- A function on the values of one type is that of a mapping. -/
theorem Mapping.exists_eq (t : Ty) (f : t.Val → t.Val) : ∃ g : Mapping, g t = f := by
  classical
  exact ⟨fun u => if h : u = t then h ▸ f else id, by simp⟩

/-! ## Sessions with refined values -/

namespace RefinedSlot

variable {t : Ty} {p : Predicate}

/-- The same in a slot of a store. -/
def cell : RefinedSlot t p → Cell
  | .refined x => .live (.refined t p) x
  | .violation x => .violation t x
  | .gone => .gone

end RefinedSlot

namespace RefinedSession

open Store (Leads)

variable {t : Ty} {p : Predicate} {a : Nat}

/-- The store with the same slots. -/
def store (s : RefinedSession t p) : Store := s.map RefinedSlot.cell

theorem slot_store (s : RefinedSession t p) (a : Nat) : s.store.slot a = (s.slot a).cell := by
  unfold Store.slot store slot
  rw [List.getElem?_map]
  cases s[a]? with
  | none => rfl
  | some x => rfl

theorem store_add (s : RefinedSession t p) (x : RefinedSlot t p) :
    store (s ++ [x]) = s.store ++ [x.cell] :=
  List.map_append

theorem store_set (s : RefinedSession t p) (a : Nat) (x : RefinedSlot t p) :
    store (s.set a x) = s.store.set a x.cell :=
  List.map_set

/-- An outcome of refinement stays in the slot that it comes of. -/
theorem leads_ofRefinement {s : Store} {c : Cell} {u : Use} (h : s.slot a = c)
    {y : Logged (Except (Violation t.Val) (Refined (t.requirement p)))}
    (hu : u.act c = Outcome.ofRefinement <$> y) :
    Leads s y.events (s.set a (RefinedSlot.ofOutcome y.result).cell) := by
  have huse := Leads.use h u
  rw [hu, Log.events_map, Log.result_map] at huse
  cases hy : y.result with
  | ok x => rwa [hy, show s.put a (.ofRefinement (.ok x)) = _ from Store.put_leaving _] at huse
  | error x => rwa [hy, show s.put a (.ofRefinement (.error x)) = _ from Store.put_leaving _] at huse

section Need

variable {s : RefinedSession t p}

/-- A step that needs a refined value changes nothing where there is none. -/
theorem need_refined
    {next : Refined (t.requirement p) → Logged (RefinedReply t × RefinedSession t p)}
    (h : ∀ x, s.store.slot a = .live (.refined t p) x →
      Leads s.store (next x).events (next x).result.2.store) :
    Leads s.store (s.need (s.slot a).refined? next).events
      (s.need (s.slot a).refined? next).result.2.store := by
  have hslot := s.slot_store a
  cases hs : s.slot a with
  | refined x =>
    rw [hs] at hslot
    exact h x hslot
  | violation x => exact .refl _
  | gone => exact .refl _

/-- A step that needs a violation changes nothing where there is none. -/
theorem need_violation
    {next : Violation t.Val → Logged (RefinedReply t × RefinedSession t p)}
    (h : ∀ x, s.store.slot a = .violation t x →
      Leads s.store (next x).events (next x).result.2.store) :
    Leads s.store (s.need (s.slot a).violation? next).events
      (s.need (s.slot a).violation? next).result.2.store := by
  have hslot := s.slot_store a
  cases hs : s.slot a with
  | violation x =>
    rw [hs] at hslot
    exact h x hslot
  | refined x => exact .refl _
  | gone => exact .refl _

end Need

theorem keep_leads {s : Store} {way : Entrance} {v : t.Val} {f : RefinedSlot t p → RefinedSession t p}
    (h : Leads s (way.refine (t.requirement p) v).events
      (store (f (.ofOutcome (way.refine (t.requirement p) v).result)))) :
    Leads s (keep way v f).events (keep way v f).result.2.store := by
  show Leads s (_ ++ []) _
  rwa [List.append_nil]

/-- A step of a session is made of operations on its store. -/
theorem step_leads (s : RefinedSession t p) (x : RefinedStep t) :
    Leads s.store (s.step x).events (s.step x).result.2.store := by
  cases x with
  | refine way v =>
    have hbring := Leads.bring s.store t v
    have hrefine := leads_ofRefinement (p := p) (Store.slot_append s.store (.live t v))
      (u := .refine way p) rfl
    rw [Store.set_append, ← store_add] at hrefine
    exact keep_leads (hbring.trans hrefine)
  | read json =>
    have hread := Leads.step s.store (.read (.refined t p) json)
    simp only [Store.step, step] at hread ⊢
    generalize (Ty.refined t p).ofJson json = y at hread ⊢
    obtain ⟨l, y⟩ := y
    cases y with
    | ok x => exact (store_add s (.refined x)).symm ▸ hread
    | error e => exact hread
  | copy a =>
    refine need_refined fun x hslot => ?_
    exact (store_add s (.refined x)).symm ▸ Leads.use hslot .copy
  | tryMap a f =>
    obtain ⟨g, rfl⟩ := Mapping.exists_eq t f
    refine need_refined fun x hslot => ?_
    have hmap := leads_ofRefinement hslot (u := .tryMap g) rfl
    rw [← store_set] at hmap
    show Leads s.store (_ ++ []) _
    rwa [List.append_nil]
  | retry a f =>
    obtain ⟨g, rfl⟩ := Mapping.exists_eq t f
    refine need_violation fun x hslot => keep_leads ?_
    have hs := Store.ne_gone_of_violation hslot
    have hreclaim := Leads.leaving hslot (u := .reclaim) rfl
    have hchange := Leads.leaving_set hs hreclaim (u := .change g) rfl
    have hrefine := leads_ofRefinement (p := p) (Store.slot_set hs (.live t (g t x.value)))
      (u := .refine .associated p) rfl
    rw [List.set_set, ← store_set] at hrefine
    exact hchange.trans hrefine
  | release a =>
    refine need_refined fun x hslot => ?_
    have hs := Store.ne_gone_of_live hslot
    have hrelease := Leads.leaving hslot (u := .release) rfl
    have hdrop := Leads.leaving_set hs hrelease (u := .drop) rfl
    exact (store_set s a .gone).symm ▸ hdrop
  | look a => exact need_refined fun _ _ => .refl _
  | write a => exact need_refined fun _ _ => .refl _
  | format a spec =>
    simp only [step]
    split
    · exact .refl _
    · exact .refl _
    · exact .refl _
  | compare a b => exact need_refined fun _ _ => need_refined fun _ _ => .refl _
  | equalsOther a v => exact need_refined fun _ _ => .refl _
  | violationsEqual a b =>
    simp only [step]
    split
    · exact .refl _
    · exact .refl _

/-- A run of a session is a run of its store: the same is reported, and the slots are the same. -/
theorem run_leads (s : RefinedSession t p) (xs : List (RefinedStep t)) :
    Leads s.store ((s.run xs).1.flatMap Log.events) (s.run xs).2.store := by
  induction xs generalizing s with
  | nil => exact .refl _
  | cons x xs ih => exact (s.step_leads x).trans (ih (s.step x).result.2)

/-- In every session all refinements are met, and what is called for is reported. -/
theorem run_told (xs : List (RefinedStep t)) :
    (run ([] : RefinedSession t p) xs).2.store.Sound ∧
      ∃ l : List Store.Entry,
        (run ([] : RefinedSession t p) xs).1.flatMap Log.events = l.flatMap Store.Entry.events ∧
        ∀ e ∈ l, e.Told :=
  ⟨(run_leads [] xs).sound, (run_leads [] xs).told⟩

end RefinedSession

/-! ## Sessions with values that are present -/

namespace PresentSession

open Store (Leads)

variable {t : Ty} {a : Nat}

/-- A wrapper, if there is one, in a slot of a store. -/
def cell : Option (Present t.Val) → Cell
  | some x => .live (.present t) x
  | none => .gone

/-- The store with the same slots. -/
def store (s : PresentSession t) : Store := s.map cell

theorem slot_store {s : PresentSession t} {x : Present t.Val} (h : s.slot? a = some x) :
    s.store.slot a = .live (.present t) x := by
  unfold slot? at h
  unfold Store.slot store
  rw [List.getElem?_map]
  cases hs : s[a]? with
  | none =>
    rw [hs] at h
    cases h
  | some y =>
    rw [hs] at h
    cases (h : y = some x)
    rfl

theorem store_add (s : PresentSession t) (x : Present t.Val) :
    (s.add x).store = s.store ++ [.live (.present t) x] :=
  List.map_append

theorem store_set (s : PresentSession t) (a : Nat) (x : Option (Present t.Val)) :
    store (s.set a x) = s.store.set a (cell x) :=
  List.map_set

/-- A step that finds nothing in a slot changes nothing. -/
theorem need_leads {s : PresentSession t}
    {next : Present t.Val → Logged (PresentReply t × PresentSession t)}
    (h : ∀ x, s.store.slot a = .live (.present t) x →
      Leads s.store (next x).events (next x).result.2.store) :
    Leads s.store (s.need a next).events (s.need a next).result.2.store := by
  unfold need
  cases hs : s.slot? a with
  | some x => exact h x (slot_store hs)
  | none => exact .refl _

theorem store_release (s : PresentSession t) (consume : Bool) (a : Nat) :
    (s.release consume a).store = if consume then s.store.set a .gone else s.store := by
  cases consume with
  | false => rfl
  | true => exact store_set s a none

/-- A step of a session is made of operations on its store. -/
theorem step_leads (s : PresentSession t) (x : PresentStep t) :
    Leads s.store (s.step x).events (s.step x).result.2.store := by
  cases x with
  | wrap v =>
    have hbring := Leads.bring s.store t v
    exact (store_add s (.holding v)).symm ▸ hbring.leaving_append (u := .wrap) rfl
  | fromNullable v =>
    have hbring := Leads.bring s.store (.option t) v
    cases v with
    | none => exact .refl _
    | some v => exact (store_add s (.holding v)).symm ▸ hbring.leaving_append (u := .fromNullable) rfl
  | fromPointer v => exact .refl _
  | takeFirst vs =>
    have hbring := Leads.bring s.store (.list .vector t) vs
    have hslot := Store.slot_append s.store (.live (.list .vector t) vs)
    cases vs with
    | nil =>
      have hfirst := hbring.trans (Leads.leaving hslot (u := .collect) rfl)
      rw [Store.set_append] at hfirst
      exact (store_add s .uninitialized).symm ▸ hfirst
    | cons v vs =>
      have hfirst := hbring.trans (Leads.leaving hslot (u := .collect) rfl)
      rw [Store.set_append] at hfirst
      exact (store_add s (.holding v)).symm ▸ hfirst
  | read json =>
    have hread := Leads.step s.store (.read (.present t) json)
    simp only [Store.step, step] at hread ⊢
    generalize (Ty.present t).ofJson json = y at hread ⊢
    obtain ⟨l, y⟩ := y
    cases y with
    | ok x => exact (store_add s x).symm ▸ hread
    | error e => exact hread
  | copy a =>
    refine need_leads fun x hslot => ?_
    exact (store_add s x).symm ▸ Leads.use hslot .copy
  | value consume a =>
    refine need_leads fun x hslot => ?_
    have hs := Store.ne_gone_of_live hslot
    cases x with
    | uninitialized =>
      exact (store_release s consume a).symm ▸ Leads.consuming hs hslot (u := .value consume) rfl
    | holding v =>
      exact (store_release s consume a).symm ▸ Leads.consuming hs hslot (u := .value consume) rfl
  | option consume a =>
    refine need_leads fun x hslot => ?_
    have hs := Store.ne_gone_of_live hslot
    exact (store_release s consume a).symm ▸ Leads.consuming hs hslot (u := .option consume) rfl
  | isSome a => exact need_leads fun _ _ => .refl _
  | isNone a => exact need_leads fun _ _ => .refl _
  | roundTrip a =>
    refine need_leads fun x hslot => ?_
    have hs := Store.ne_gone_of_live hslot
    have hoption := Leads.leaving hslot (u := .option true) rfl
    cases x with
    | uninitialized =>
      exact (store_set s a none).symm ▸ Leads.leaving_set hs hoption (u := .fromNullable) rfl
    | holding v =>
      exact (store_set s a (some (.holding v))).symm ▸
        Leads.leaving_set hs hoption (u := .fromNullable) rfl
  | write a => exact need_leads fun _ _ => .refl _
  | format a spec => exact need_leads fun _ _ => .refl _
  | compare a b => exact need_leads fun _ _ => need_leads fun _ _ => .refl _

/-- A run of a session is a run of its store: the same is reported, and the slots are the same. -/
theorem run_leads (s : PresentSession t) (xs : List (PresentStep t)) :
    Leads s.store ((s.run xs).flatMap Log.events)
      (xs.foldl (fun s x => (s.step x).result.2) s).store := by
  induction xs generalizing s with
  | nil => exact .refl _
  | cons x xs ih => exact (s.step_leads x).trans (ih (s.step x).result.2)

/-- In every session what is called for is reported, and nothing else. -/
theorem run_told (xs : List (PresentStep t)) :
    ∃ l : List Store.Entry,
      (run ([] : PresentSession t) xs).flatMap Log.events = l.flatMap Store.Entry.events ∧
      ∀ e ∈ l, e.Told :=
  (run_leads [] xs).told

end PresentSession

end Refinement
