import Refinement.Proofs.Naming.Vocabulary

/-!
# Predicates are told apart by their names

The name of a predicate is read back: the letters give the layout of the name, paths tell the
combinations from the markers and these from each other, and the arguments tell the parts. What a
client declares has to stand at paths of its own.

* `Formula.eq_of_spelling_eq`: formulas are told apart by their names if their atoms are.
* `Predicate.name_inj`: two predicates have the same name only if they are the same.
* `Predicate.name_identifies`: the name that a violation carries identifies the predicate.
-/

namespace Refinement

namespace Combination

/-- The path of a combination, as a word. -/
def word (c : Combination) : List Char := (TypeName.path Formula.place c.name).toList

theorem word_injective {c d : Combination} (h : c.word = d.word) : c = d :=
  PredicateHead.combination.inj (PredicateHead.lexicon.path_injective
    (l := .combination c) (m := .combination d) (String.toList_inj.1 h))

theorem isWord (c : Combination) : Spelling.IsWord c.word :=
  .plain (PredicateHead.lexicon.isPlain_path (.combination c))

end Combination

namespace Formula

variable {A : Type} {names : A → TypeName} {known : A → Prop}

/-- The names of the known atoms tell them apart from each other and from combinations. -/
structure TellsApart (names : A → TypeName) (known : A → Prop) : Prop where
  atoms : ∀ a b, known a → known b → (names a).spelling = (names b).spelling → a = b
  combinations : ∀ a, known a → ∀ (c : Combination) (as : List Spelling),
    (names a).spelling ≠ .word c.word as

/-- How a formula is combined, unless it is an atom. -/
def combination? : Formula A → Option Combination
  | .atom _ => none
  | .allOf _ => some .allOf
  | .anyOf _ => some .anyOf
  | .and _ _ => some .and
  | .or _ _ => some .or
  | .not _ => some .not

/-- The arguments of the name of a combination. -/
def arguments (names : A → TypeName) : Formula A → List Spelling
  | .atom _ => []
  | .allOf ps | .anyOf ps => [.tuple (TypeName.spellings (namesWith names ps))]
  | .and p q | .or p q => [(p.nameWith names).spelling, (q.nameWith names).spelling]
  | .not p => [(p.nameWith names).spelling]

theorem spelling_nameWith {p : Formula A} {c : Combination} (h : p.combination? = some c) :
    (p.nameWith names).spelling = .word c.word (p.arguments names) := by
  cases p <;> cases h <;> rfl

/-- The name of a formula tells how it is combined. -/
theorem TellsApart.combination_eq (hn : TellsApart names known) {p : Formula A}
    (hp : ∀ a ∈ p.atoms, known a) {c : Combination} {as : List Spelling}
    (h : (p.nameWith names).spelling = .word c.word as) :
    p.combination? = some c ∧ p.arguments names = as := by
  cases hc : p.combination? with
  | none =>
    cases p with
    | atom a => exact absurd h (hn.combinations a (hp a (List.mem_singleton_self a)) c as)
    | _ => nomatch hc
  | some d =>
    rw [spelling_nameWith hc] at h
    obtain ⟨hword, harguments⟩ := Spelling.word.inj h
    exact ⟨congrArg some (Combination.word_injective hword), harguments⟩

mutual

/-- Formulas are told apart by their names if their atoms are. -/
theorem eq_of_spelling_eq (hn : TellsApart names known) :
    ∀ p q : Formula A, (∀ a ∈ p.atoms, known a) → (∀ a ∈ q.atoms, known a) →
    (p.nameWith names).spelling = (q.nameWith names).spelling → p = q
  | .atom a, q, hp, hq, h => by
    have ha : known a := hp a (List.mem_singleton_self a)
    cases hc : q.combination? with
    | none =>
      cases q with
      | atom b => exact congrArg atom (hn.atoms a b ha (hq b (List.mem_singleton_self b)) h)
      | _ => nomatch hc
    | some c => exact absurd (h.trans (spelling_nameWith hc)) (hn.combinations a ha c _)
  -- The first formula settles how the second is combined, and the arguments are smaller names.
  | .allOf ps, q, hp, hq, h => by
    obtain ⟨hc, harguments⟩ := hn.combination_eq hq (c := .allOf) h.symm
    cases q with
    | allOf qs =>
      have hitems := Spelling.tuple.inj (List.cons.inj harguments).1
      rw [eq_of_spellings_eq hn ps qs hp hq hitems.symm]
    | _ => nomatch hc
  | .anyOf ps, q, hp, hq, h => by
    obtain ⟨hc, harguments⟩ := hn.combination_eq hq (c := .anyOf) h.symm
    cases q with
    | anyOf qs =>
      have hitems := Spelling.tuple.inj (List.cons.inj harguments).1
      rw [eq_of_spellings_eq hn ps qs hp hq hitems.symm]
    | _ => nomatch hc
  | .and p p', q, hp, hq, h => by
    obtain ⟨hc, harguments⟩ := hn.combination_eq hq (c := .and) h.symm
    cases q with
    | and q q' =>
      obtain ⟨hp, hp'⟩ := List.forall_mem_append.1 hp
      obtain ⟨hq, hq'⟩ := List.forall_mem_append.1 hq
      obtain ⟨hleft, hright⟩ := List.cons.inj harguments
      rw [eq_of_spelling_eq hn p q hp hq hleft.symm,
        eq_of_spelling_eq hn p' q' hp' hq' (List.cons.inj hright).1.symm]
    | _ => nomatch hc
  | .or p p', q, hp, hq, h => by
    obtain ⟨hc, harguments⟩ := hn.combination_eq hq (c := .or) h.symm
    cases q with
    | or q q' =>
      obtain ⟨hp, hp'⟩ := List.forall_mem_append.1 hp
      obtain ⟨hq, hq'⟩ := List.forall_mem_append.1 hq
      obtain ⟨hleft, hright⟩ := List.cons.inj harguments
      rw [eq_of_spelling_eq hn p q hp hq hleft.symm,
        eq_of_spelling_eq hn p' q' hp' hq' (List.cons.inj hright).1.symm]
    | _ => nomatch hc
  | .not p, q, hp, hq, h => by
    obtain ⟨hc, harguments⟩ := hn.combination_eq hq (c := .not) h.symm
    cases q with
    | not q =>
      rw [eq_of_spelling_eq hn p q hp hq (List.cons.inj harguments).1.symm]
    | _ => nomatch hc

theorem eq_of_spellings_eq (hn : TellsApart names known) :
    ∀ ps qs : List (Formula A), (∀ a ∈ atomsOfList ps, known a) → (∀ a ∈ atomsOfList qs, known a) →
    TypeName.spellings (namesWith names ps) = TypeName.spellings (namesWith names qs) → ps = qs
  | [], [], _, _, _ => rfl
  | [], _ :: _, _, _, h => nomatch h
  | _ :: _, [], _, _, h => nomatch h
  | p :: ps, q :: qs, hp, hq, h => by
    obtain ⟨hp, hps⟩ := List.forall_mem_append.1 hp
    obtain ⟨hq, hqs⟩ := List.forall_mem_append.1 hq
    obtain ⟨hhead, htail⟩ := List.cons.inj h
    rw [eq_of_spelling_eq hn p q hp hq hhead, eq_of_spellings_eq hn ps qs hps hqs htail]

end

mutual

/-- The names of formulas are legible if those of their atoms are. -/
theorem legible_nameWith (hatoms : ∀ a, known a → (names a).spelling.Legible) :
    ∀ p : Formula A, (∀ a ∈ p.atoms, known a) → (p.nameWith names).spelling.Legible
  | .atom a, hp => hatoms a (hp a (List.mem_singleton_self a))
  | .allOf ps, hp => ⟨Combination.allOf.isWord, legible_namesWith hatoms ps hp, trivial⟩
  | .anyOf ps, hp => ⟨Combination.anyOf.isWord, legible_namesWith hatoms ps hp, trivial⟩
  | .and p q, hp => by
    obtain ⟨hp, hq⟩ := List.forall_mem_append.1 hp
    exact ⟨Combination.and.isWord, legible_nameWith hatoms p hp, legible_nameWith hatoms q hq,
      trivial⟩
  | .or p q, hp => by
    obtain ⟨hp, hq⟩ := List.forall_mem_append.1 hp
    exact ⟨Combination.or.isWord, legible_nameWith hatoms p hp, legible_nameWith hatoms q hq,
      trivial⟩
  | .not p, hp => ⟨Combination.not.isWord, legible_nameWith hatoms p hp, trivial⟩

theorem legible_namesWith (hatoms : ∀ a, known a → (names a).spelling.Legible) :
    ∀ ps : List (Formula A), (∀ a ∈ atomsOfList ps, known a) →
    Spelling.AllLegible (TypeName.spellings (namesWith names ps))
  | [], _ => trivial
  | p :: ps, hp => by
    obtain ⟨hp, hps⟩ := List.forall_mem_append.1 hp
    exact ⟨legible_nameWith hatoms p hp, legible_namesWith hatoms ps hps⟩

end

end Formula

/-- A value that is turned away comes back in the violation. -/
theorem Requirement.eq_violation_of_refine {α : Type} {r : Requirement α} {v : α}
    {x : Violation α} (h : (r.refine v).result = .error x) : x = r.violation v := by
  cases hv : r.accepts v with
  | true =>
    rw [refine_of_accepts hv] at h
    cases h
  | false =>
    rw [refine_of_rejects hv] at h
    cases h
    rfl

namespace Predicate

/-- The client declares what the predicate names, if the library does not. -/
def Over (S : Expression.Scope) (p : Predicate) : Prop := ∀ m ∈ p.atoms, m.Over S

variable {S : Expression.Scope} {p q : Predicate}

/-- Predicates are told apart by their names. -/
theorem name_inj (hS : S.Distinct) (hp : Over S p) (hq : Over S q) : name p = name q ↔ p = q := by
  refine ⟨fun h => ?_, congrArg name⟩
  have hlegible {r : Predicate} (hr : Over S r) : (typeName r).spelling.Legible :=
    Formula.legible_nameWith (fun _ => Marker.legible hS) r hr
  have hspelling : (typeName p).spelling = (typeName q).spelling :=
    TypeName.spelling_eq_of_text_eq (hlegible hp) (hlegible hq) h
  have hmarkers : Formula.TellsApart Marker.typeName (Marker.Over S) :=
    ⟨fun _ _ => Marker.eq_of_spelling_eq hS, fun _ => Marker.spelling_ne_combination hS⟩
  exact Formula.eq_of_spelling_eq hmarkers p q hp hq hspelling

/-- Violations are equal where the values are and the predicates are the same. -/
theorem violation_equal_iff {α : Type} (hname : name p = name q ↔ p = q) (F : Facet α)
    (eq : α → α → Bool) (v w : α) :
    Violation.equal eq ((requirement F p).violation v) ((requirement F q).violation w) = true ↔
      eq v w = true ∧ p = q := by
  simp only [Violation.equal, Requirement.violation, requirement, Bool.and_eq_true, beq_iff_eq,
    hname, and_assoc]
  constructor
  · exact fun h => ⟨h.1, h.2.1⟩
  · rintro ⟨hvalue, rfl⟩
    exact ⟨hvalue, rfl, rfl⟩

/-- The name that a violation carries identifies the predicate. -/
theorem name_identifies (hS : S.Distinct) (hp : Over S p) (hq : Over S q) :
    (name p = name q ↔ p = q) ∧
    ∀ {α : Type} (F : Facet α) (eq : α → α → Bool) (v w : α) (x y : Violation α),
      ((requirement F p).refine v).result = .error x →
      ((requirement F q).refine w).result = .error y →
      (x.predicate = y.predicate ↔ p = q) ∧ (x.equal eq y = true ↔ eq v w = true ∧ p = q) ∧
      (∀ o lo hi o' lo' hi', p = .atom (.inRange o lo hi) → q = .atom (.inRange o' lo' hi') →
        (x.description = y.description ↔ o = o' ∧ lo = lo' ∧ hi = hi')) ∧
      (∀ lo hi lo' hi', p = .atom (.charRange lo hi) → q = .atom (.charRange lo' hi') →
        (x.description = y.description ↔ lo = lo' ∧ hi = hi')) := by
  have hname : name p = name q ↔ p = q := name_inj hS hp hq
  refine ⟨hname, fun F eq v w x y hx hy => ?_⟩
  obtain rfl := Requirement.eq_violation_of_refine hx
  obtain rfl := Requirement.eq_violation_of_refine hy
  refine ⟨hname, violation_equal_iff hname F eq v w, ?_, ?_⟩
  · rintro o lo hi o' lo' hi' rfl rfl
    exact hname.trans (by simp)
  · rintro lo hi lo' hi' rfl rfl
    exact hname.trans (by simp)

/-- A text of two characters is not three bytes long, in the order by length or in its reverse: the
same value with the same bounds, and yet two violations. -/
theorem name_identifies_lengths :
    let F : Facet String := .scalar (.key .text)
    let range (o : NamedOrder) : Predicate :=
      .atom (.inRange o (.user Client.three) (.user Client.three))
    let p := range (.base (.user Client.byLength))
    let q := range (.reversed (.base (.user Client.byLength)))
    let x := (requirement F p).violation "ab"
    let y := (requirement F q).violation "ab"
    Client.scope.Distinct ∧ Over Client.scope p ∧ Over Client.scope q ∧
    ((requirement F p).refine "ab").result = .error x ∧
    ((requirement F q).refine "ab").result = .error y ∧
    name p ≠ name q ∧ x.equal (· == ·) y = false ∧ x.description ≠ y.description := by
  intro F range p q x y
  have hover (o : NamedOrder) (ho : o.Over Client.scope) : Over Client.scope (range o) :=
    List.forall_mem_singleton.2 ⟨ho, List.mem_singleton_self _, List.mem_singleton_self _⟩
  have hp : Over Client.scope p := hover _ (List.mem_singleton_self _)
  have hq : Over Client.scope q := hover _ (List.mem_singleton_self _)
  have hx : ((requirement F p).refine "ab").result = .error x := by
    rw [Requirement.refine_of_rejects (by decide)]; rfl
  have hy : ((requirement F q).refine "ab").result = .error y := by
    rw [Requirement.refine_of_rejects (by decide)]; rfl
  have hne : p ≠ q := fun h => nomatch (Marker.inRange.inj (Formula.atom.inj h)).1
  obtain ⟨hname, hviolations⟩ := name_identifies Client.distinct hp hq
  obtain ⟨-, hequal, hranges, -⟩ := hviolations F (· == ·) "ab" "ab" x y hx hy
  refine ⟨Client.distinct, hp, hq, hx, hy, mt hname.1 hne, ?_, ?_⟩
  · exact Bool.eq_false_iff.2 fun h => hne (hequal.1 h).2
  · exact fun h => absurd ((hranges _ _ _ _ _ _ rfl rfl).1 h).1 nofun

/-- A comma that is a constant, and the comma behind the only predicate of a list. -/
example :
    name (.allOf [.atom (.charEq (.char ','))]) =
      "proven::refined::combinators::AllOf<(proven::refined::predicates::character::CharEq<" ++
        "proven::constant::ConstChar<','>>,)>" := by decide

end Predicate

end Refinement
