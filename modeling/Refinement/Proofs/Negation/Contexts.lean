import Refinement.Audit
import Refinement.Proofs.Negation.Formulas
import Refinement.Proofs.Store.Sessions
import Refinement.Vocabulary.Abbreviation

/-!
# Contexts

A context is a formula with holes. What is put into its holes weakens the whole as it gets weaker, if
all holes stand under an even number of negations, and strengthens it if they stand under an odd one. So
a value that was refined with a predicate in the holes may be refined with a weaker one.

* `Context.fill`: a formula in the place of the holes.
* `Context.depths`: the numbers of negations that the holes stand under.
* `Context.holds_of_depths`: what the truth of a context has to do with that of its holes.
* `Context.FollowsPolarity`: the laws of a context, for any way of telling what formulas accept.
* `Context.refine_weaker`: refining a value again.
* `Context.weakening_follows_polarity`: the laws of predicates, and what they mean for refined values.
-/

namespace Refinement

/-- A formula with holes in the place of some atoms. -/
abbrev Context (A : Type) := Formula (Option A)

namespace Context

variable {α A : Type}

/-- The formula with another one in every hole. -/
def fill (K : Context A) (p : Formula A) : Formula A := K.bind fun a => a.elim p .atom

mutual

/-- The number of negations that each hole stands under, from left to right. -/
def depths : Context A → List Nat
  | .atom none => [0]
  | .atom (some _) => []
  | .allOf Ks => depthsOfList Ks
  | .anyOf Ks => depthsOfList Ks
  | .and K L => depths K ++ depths L
  | .or K L => depths K ++ depths L
  | .not K => (depths K).map (· + 1)

/-- The same for the holes of a list of formulas. -/
def depthsOfList : List (Context A) → List Nat
  | [] => []
  | K :: Ks => depths K ++ depthsOfList Ks

end

/-- All holes stand under an even number of negations. -/
def IsEven (K : Context A) : Prop := ∀ n ∈ K.depths, n % 2 = 0

/-- All holes stand under an odd number of negations. -/
def IsOdd (K : Context A) : Prop := ∀ n ∈ K.depths, n % 2 = 1

/-! ## Truth -/

/-- The truth of a context, given that of its atoms and of its holes. -/
def holds (f : A → Bool) (hole : Bool) (K : Context A) : Bool :=
  Formula.holds (fun a => a.elim hole f) K

/-- A context with a formula in its holes has the truth that it has with that of the formula. -/
theorem holds_fill (f : A → Bool) (K : Context A) (p : Formula A) :
    (K.fill p).holds f = K.holds f (p.holds f) := by
  unfold fill Context.holds
  rw [Formula.holds_bind]
  congr 1
  funext a
  cases a with
  | none => rfl
  | some a => simp only [Option.elim_some, Formula.holds]

theorem forall_map_succ {ns : List Nat} {i j : Nat} (hij : ∀ n, (n + 1) % 2 = i → n % 2 = j)
    (h : ∀ n ∈ ns.map (· + 1), n % 2 = i) : ∀ n ∈ ns, n % 2 = j :=
  fun n hn => hij n (h (n + 1) (List.mem_map_of_mem hn))

section Polarity

variable (f : A → Bool) {b c : Bool}

mutual

/-- Where the holes may become true, a context may become true if its holes stand under an even number
of negations, and may become false if they stand under an odd one. A negation exchanges the two, so both
have to be shown at once. -/
theorem holds_of_depths (hbc : b = true → c = true) : ∀ K : Context A,
    ((∀ n ∈ depths K, n % 2 = 0) → holds f b K = true → holds f c K = true) ∧
    ((∀ n ∈ depths K, n % 2 = 1) → holds f c K = true → holds f b K = true)
  | .atom none => by
    simp only [depths, holds, Formula.holds]
    refine ⟨fun _ => hbc, fun h => ?_⟩
    exact absurd (h 0 List.mem_cons_self) Nat.zero_ne_one
  | .atom (some a) => by
    simp only [holds, Formula.holds, Option.elim_some]
    exact ⟨fun _ => id, fun _ => id⟩
  | .allOf Ks => by
    simp only [depths, holds, Formula.holds]
    obtain ⟨heven, hodd⟩ := holdsList_of_depths hbc Ks
    exact ⟨fun h => (heven h).1, fun h => (hodd h).1⟩
  | .anyOf Ks => by
    simp only [depths, holds, Formula.holds]
    obtain ⟨heven, hodd⟩ := holdsList_of_depths hbc Ks
    exact ⟨fun h => (heven h).2, fun h => (hodd h).2⟩
  | .and K L => by
    simp only [depths, List.forall_mem_append]
    obtain ⟨hK, hK'⟩ := holds_of_depths hbc K
    obtain ⟨hL, hL'⟩ := holds_of_depths hbc L
    exact ⟨fun h => Formula.Congruence.implies.and (hK h.1) (hL h.2),
      fun h => Formula.Congruence.implies.and (hK' h.1) (hL' h.2)⟩
  | .or K L => by
    simp only [depths, List.forall_mem_append]
    obtain ⟨hK, hK'⟩ := holds_of_depths hbc K
    obtain ⟨hL, hL'⟩ := holds_of_depths hbc L
    exact ⟨fun h => Formula.Congruence.implies.or (hK h.1) (hL h.2),
      fun h => Formula.Congruence.implies.or (hK' h.1) (hL' h.2)⟩
  | .not K => by
    obtain ⟨heven, hodd⟩ := holds_of_depths hbc K
    simp only [depths, holds, Formula.holds, Bool.not_eq_true', ← Bool.not_eq_true]
    exact ⟨fun h => mt (hodd (forall_map_succ (by omega) h)),
      fun h => mt (heven (forall_map_succ (by omega) h))⟩

theorem holdsList_of_depths (hbc : b = true → c = true) : ∀ Ks : List (Context A),
    ((∀ n ∈ depthsOfList Ks, n % 2 = 0) →
      (Formula.holdsAll (fun a => a.elim b f) Ks = true →
        Formula.holdsAll (fun a => a.elim c f) Ks = true) ∧
      (Formula.holdsAny (fun a => a.elim b f) Ks = true →
        Formula.holdsAny (fun a => a.elim c f) Ks = true)) ∧
    ((∀ n ∈ depthsOfList Ks, n % 2 = 1) →
      (Formula.holdsAll (fun a => a.elim c f) Ks = true →
        Formula.holdsAll (fun a => a.elim b f) Ks = true) ∧
      (Formula.holdsAny (fun a => a.elim c f) Ks = true →
        Formula.holdsAny (fun a => a.elim b f) Ks = true))
  | [] => by
    simp only [Formula.holdsAll, Formula.holdsAny]
    exact ⟨fun _ => ⟨id, id⟩, fun _ => ⟨id, id⟩⟩
  | K :: Ks => by
    simp only [depthsOfList, List.forall_mem_append, Formula.holdsAll, Formula.holdsAny]
    obtain ⟨hK, hK'⟩ := holds_of_depths hbc K
    obtain ⟨hKs, hKs'⟩ := holdsList_of_depths hbc Ks
    exact ⟨fun h => ⟨Formula.Congruence.implies.and (hK h.1) (hKs h.2).1,
        Formula.Congruence.implies.or (hK h.1) (hKs h.2).2⟩,
      fun h => ⟨Formula.Congruence.implies.and (hK' h.1) (hKs' h.2).1,
        Formula.Congruence.implies.or (hK' h.1) (hKs' h.2).2⟩⟩

end

end Polarity

/-! ## What is accepted -/

/-- What formulas accept in a context follows from what they accept by themselves. -/
structure FollowsPolarity (K : Context A) (accepts : Formula A → α → Bool) : Prop where
  /-- A weaker formula in holes under an even number of negations makes the whole weaker. -/
  even : K.IsEven → ∀ p q, (∀ v, accepts p v = true → accepts q v = true) →
    ∀ v, accepts (K.fill p) v = true → accepts (K.fill q) v = true
  /-- A weaker formula in holes under an odd number of negations makes the whole stronger. -/
  odd : K.IsOdd → ∀ p q, (∀ v, accepts p v = true → accepts q v = true) →
    ∀ v, accepts (K.fill q) v = true → accepts (K.fill p) v = true
  /-- Formulas that accept the same values may replace one another in all holes. -/
  same : ∀ p q, (∀ v, accepts p v = accepts q v) →
    ∀ v, accepts (K.fill p) v = accepts (K.fill q) v

/-- The laws hold if a value is accepted where a formula is true of it. -/
theorem followsPolarity {accepts : Formula A → α → Bool} (f : α → A → Bool)
    (h : ∀ p v, accepts p v = p.holds (f v)) (K : Context A) : K.FollowsPolarity accepts where
  even hK p q hpq v := by
    have hholes := hpq v
    simp only [h, holds_fill] at hholes ⊢
    exact (holds_of_depths (f v) hholes K).1 hK
  odd hK p q hpq v := by
    have hholes := hpq v
    simp only [h, holds_fill] at hholes ⊢
    exact (holds_of_depths (f v) hholes K).2 hK
  same p q hpq v := by
    have hholes := hpq v
    simp only [h, holds_fill] at hholes ⊢
    rw [hholes]

theorem followsPolarity_accepts (F : Facet α) (K : Context Marker) :
    K.FollowsPolarity (Predicate.accepts F) :=
  followsPolarity (fun v m => (m.condition F).holds v) (Predicate.accepts_eq_holds F) K

/-! ## Refining again -/

section Refining

variable {K : Context Marker} {p q : Predicate}

/-- What was refined with a predicate in the holes is refined with a weaker one in silence. -/
theorem refine_weaker {F : Facet α} (hK : K.IsEven)
    (h : ∀ v, Predicate.accepts F p v = true → Predicate.accepts F q v = true)
    (x : Refined (Predicate.requirement F (K.fill p))) :
    ∃ y, y.value = x.value ∧ (Predicate.requirement F (K.fill q)).refine x.value = pure (.ok y) :=
  have hx : (Predicate.requirement F (K.fill q)).accepts x.value = true :=
    (followsPolarity_accepts F K).even hK p q h x.value x.accepted
  ⟨⟨x.value, hx⟩, rfl, Requirement.refine_of_accepts hx⟩

/-- In a store it is taken out of its slot and put back in, without an event. -/
theorem run_refine_weaker {t : Ty} (hK : K.IsEven)
    (h : ∀ v, p.accepts t.facet v = true → q.accepts t.facet v = true) {s : Store} {a : Nat}
    {x : Refined (t.requirement (K.fill p))} (hx : s.slot a = .live (.refined t (K.fill p)) x)
    (way : Entrance) : ∃ y : Refined (t.requirement (K.fill q)), y.value = x.value ∧
      s.run [.use a .release, .use a (.refine way (K.fill q))] =
        pure ([.done, .done], s.set a (.live (.refined t (K.fill q)) y)) := by
  obtain ⟨y, hy, hrefine⟩ := refine_weaker hK h x
  have hrelease : s.step (.use a .release) = pure (.done, s.set a (.live t x.value)) := by
    simp only [Store.step, hx, Use.act, pure_bind]
    exact congrArg (fun s => pure (Reply.done, s)) (Store.put_leaving .done)
  have hslot : Store.slot (s.set a (.live t x.value)) a = .live t x.value :=
    Store.slot_set (Store.ne_gone_of_live hx) _
  have hback : Store.step (s.set a (.live t x.value)) (.use a (.refine way (K.fill q))) =
      pure (.done, s.set a (.live (.refined t (K.fill q)) y)) := by
    simp only [Store.step, hslot, Use.act, Entrance.refine_eq, hrefine, map_pure, pure_bind]
    refine congrArg (fun s => pure (Reply.done, s)) ((Store.put_leaving .done).trans ?_)
    exact List.set_set _
  refine ⟨y, hy, ?_⟩
  simp only [Store.run, hrelease, hback, pure_bind]

end Refining

/-- Weakening follows polarity: in every context of predicates, at every type, and in every context of
comparisons with any values. So a value that was refined in a context of even polarity can be taken out
and refined with a weaker predicate in the holes, and that does not fail. -/
theorem weakening_follows_polarity :
    (∀ (α : Type) (F : Facet α) (K : Context Marker), K.FollowsPolarity (Predicate.accepts F)) ∧
    (∀ (α : Type) (K : Context (Probe α)), K.FollowsPolarity fun p v => (Audit.run p v).verdict) ∧
    ∀ (K : Context Marker), K.IsEven → ∀ p q : Predicate,
      (∀ (α : Type) (F : Facet α), (∀ v, p.accepts F v = true → q.accepts F v = true) →
        ∀ x : Refined (Predicate.requirement F (K.fill p)), ∃ y, y.value = x.value ∧
          (Predicate.requirement F (K.fill q)).refine x.value = pure (.ok y)) ∧
      ∀ t : Ty, (∀ v, p.accepts t.facet v = true → q.accepts t.facet v = true) →
        ∀ (s : Store) (a : Nat) (x : Refined (t.requirement (K.fill p))) (way : Entrance),
          s.slot a = .live (.refined t (K.fill p)) x →
          ∃ y : Refined (t.requirement (K.fill q)), y.value = x.value ∧
            s.run [.use a .release, .use a (.refine way (K.fill q))] =
              pure ([.done, .done], s.set a (.live (.refined t (K.fill q)) y)) := by
  refine ⟨fun α => followsPolarity_accepts, fun α => followsPolarity _ Audit.verdict_eq_holds, ?_⟩
  intro K hK p q
  constructor
  · intro α F h x
    exact refine_weaker hK h x
  · intro t h s a x way hx
    exact run_refine_weaker hK h hx way

/-- Texts of one or two characters are texts of one up to four, and longer texts than four characters are
longer than two. -/
theorem weakening_follows_polarity_lengths :
    let F : Facet String := .scalar (.key .text)
    let most : Int → Predicate := fun n => .atMost (IntKind.wrap .usize n)
    let least : Int → Marker := fun n => .minCount (.int .usize (IntKind.wrap .usize n))
    let K : Context Marker :=
      .allOf [.atom none, .not (.anyOf [.not (.atom none), .not (.atom (some (least 1)))])]
    let L : Context Marker := .not (.atom none)
    (∀ v, Predicate.accepts F (K.fill (most 2)) v = true →
        Predicate.accepts F (K.fill (most 4)) v = true) ∧
      (∀ v, Predicate.accepts F (L.fill (most 4)) v = true →
        Predicate.accepts F (L.fill (most 2)) v = true) ∧
      ∃ y, y.value = "ab" ∧
        (Predicate.requirement F (K.fill (most 4))).refine "ab" = pure (.ok y) := by
  intro F most least K L
  obtain ⟨predicates, -, refined⟩ := weakening_follows_polarity
  have hmost (v : String) (hv : (most 2).accepts F v = true) : (most 4).accepts F v = true := by
    have hle : v.length ≤ 2 := of_decide_eq_true hv
    exact decide_eq_true (show v.length ≤ 4 by omega)
  have hK : K.IsEven := by
    show ∀ n ∈ [0, 2], n % 2 = 0
    decide
  have hL : L.IsOdd := List.forall_mem_singleton.2 rfl
  exact ⟨(predicates String F K).even hK (most 2) (most 4) hmost,
    (predicates String F L).odd hL (most 2) (most 4) hmost,
    (refined K hK (most 2) (most 4)).1 String F hmost ⟨"ab", by decide⟩⟩

end Context

end Refinement
