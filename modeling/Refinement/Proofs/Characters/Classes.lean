import Refinement.Proofs.Characters.Regions
import Refinement.Proofs.Markers.Answers
import Refinement.Ty.Basic
import Refinement.Vocabulary.Abbreviation

/-!
# Classes of characters

What a predicate on characters accepts is a finite union of runs of code points. It is worked out from
the constants of the predicate, after all classes were spelled out, by the operations on regions. The
classes of the library are unions of short runs of this kind, and they form a hierarchy of which nothing
but white space stands aside.

* `Marker.codePoints`, `Predicate.codePoints`: the region of a marker and of a predicate.
* `Predicate.IsCharacters.mem_codePoints_iff`: a predicate accepts the characters of its region.
* `CharClass.Has`, `CharClass.accepts_iff`: the code points of the classes.
* `CharClass.parent?`: the smallest class that contains another.
* `CharClass.classes_are_regions`: all of this together.
-/

namespace Refinement

/-- What characters show to predicates. -/
abbrev Facet.char : Facet Char := .scalar (.key .char)

/-- Characters compare as their code points do. -/
theorem compare_char (c d : Char) : compare c d = compare c.toNat d.toNat := by
  have hlt : c < d ↔ c.toNat < d.toNat := Iff.rfl
  have heq : c = d ↔ c.toNat = d.toNat := Char.toNat_inj.symm
  show compareOfLessAndEq c d = compareOfLessAndEq c.toNat d.toNat
  simp only [compareOfLessAndEq, hlt, heq]

/-- The code point of a constant that is a character. -/
def Constant.codePoint? (d : Constant) : Option Nat := (d.value? (.key .char)).map Char.toNat

/-- A character compares with a constant as the code points do. -/
theorem Facet.answer?_char (d : Constant) (c : Char) :
    Facet.char.answer? .natural d c = d.codePoint?.map fun n => compare c.toNat n := by
  simp only [Facet.answer?, Constant.codePoint?]
  cases d.value? (.key .char) with
  | none => rfl
  | some b => exact congrArg some (compare_char c b)

/-! ## Regions of predicates -/

namespace Marker

/-- Whether the marker is a basic predicate on characters. -/
def isCharacter : Marker → Bool
  | .charClass _ | .charEq _ | .charRange .. => true
  | _ => false

/-- The region of a single character or of a range. -/
def codePoints : Marker → CodeRegion
  | .charEq d => match d.codePoint? with
    | some n => .between n (n + 1)
    | none => .empty
  | .charRange lo hi => match lo.codePoint?, hi.codePoint? with
    | some m, some n => .between m (n + 1)
    | _, _ => .empty
  | _ => .empty

/-- A single character or a range accepts the characters of its region. -/
theorem IsRun.mem_codePoints_iff {m : Marker} (hm : m.IsRun) (c : Char) :
    c.toNat ∈ m.codePoints ↔ m.accepts Facet.char c = true := by
  have hvalid : c.toNat.isValidChar := c.valid
  rcases hm with ⟨d, rfl⟩ | ⟨lo, hi, rfl⟩
  · rw [accepts_charEq, Facet.answer?_char, codePoints]
    cases d.codePoint? with
    | none => simp [Facet.isChar]
    | some n =>
      have hequal := Relation.admits_compare .equal c.toNat n
      simp only [Relation.Relates] at hequal
      simp only [Facet.isChar, Option.map_some, Bool.true_and, hequal, CodeRegion.mem_between, hvalid,
        and_true]
      omega
  · rw [accepts_charRange, accepts_inRange, Facet.answer?_char, Facet.answer?_char, codePoints]
    cases lo.codePoint? with
    | none => simp [Facet.isChar]
    | some m =>
      cases hi.codePoint? with
      | none => simp [Facet.isChar]
      | some n =>
        have hlow := Relation.admits_compare .greaterOrEqual c.toNat m
        have hhigh := Relation.admits_compare .lessOrEqual c.toNat n
        simp only [Relation.Relates] at hlow hhigh
        simp only [Facet.isChar, Option.map_some, Bool.true_and, Bool.and_eq_true, hlow, hhigh,
          CodeRegion.mem_between, hvalid, and_true]
        omega

/-- The parts of a basic predicate on characters. -/
theorem isRun_of_mem_expansion {m n : Marker} (hm : m.isCharacter = true)
    (hn : n ∈ m.expansion.atoms) : n.IsRun := by
  cases m with
  | charClass k => exact CharClass.isRun_of_mem_expansion hn
  | charEq d => exact .inl ⟨d, List.mem_singleton.1 hn⟩
  | charRange lo hi => exact .inr ⟨lo, hi, List.mem_singleton.1 hn⟩
  | _ => cases hm

end Marker

namespace Predicate

/-- All markers are basic predicates on characters. -/
def IsCharacters (p : Predicate) : Prop := ∀ m ∈ p.atoms, m.isCharacter = true

/-- The region of a predicate, worked out from its constants after all classes were spelled out. -/
def codePoints (p : Predicate) : CodeRegion := (expand p).region Marker.codePoints

variable {p : Predicate}

/-- Where all classes are spelled out, there are single characters and ranges only. -/
theorem IsCharacters.isRun_of_mem_expand (hp : p.IsCharacters) {m : Marker} (hm : m ∈ (expand p).atoms) :
    m.IsRun := by
  obtain ⟨n, hn, hm⟩ := mem_atoms_expand.1 hm
  exact Marker.isRun_of_mem_expansion (hp n hn) hm

/-- A predicate accepts the characters of its region. -/
theorem IsCharacters.mem_codePoints_iff (hp : p.IsCharacters) (c : Char) :
    c.toNat ∈ p.codePoints ↔ p.accepts Facet.char c = true := by
  have hvalid : c.toNat.isValidChar := c.valid
  rw [codePoints, Formula.mem_region hvalid, ← accepts_expand, accepts_eq_holds]
  refine iff_of_eq (congrArg (· = true) (Formula.holds_congr (expand p) fun m hm => ?_))
  rw [Bool.eq_iff_iff, decide_eq_true_eq]
  exact (hp.isRun_of_mem_expand hm).mem_codePoints_iff c

/-- The region holds the code points of the characters that the predicate accepts, and nothing else. -/
theorem IsCharacters.mem_codePoints_iff_exists (hp : p.IsCharacters) (n : Nat) :
    n ∈ p.codePoints ↔ ∃ c : Char, c.toNat = n ∧ p.accepts Facet.char c = true := by
  constructor
  · intro hn
    have hvalid := CodeRegion.isValidChar_of_mem hn
    have hcode : (Char.ofNat n).toNat = n := by
      rw [Char.ofNat, dif_pos hvalid]
      rfl
    exact ⟨.ofNat n, hcode, (hp.mem_codePoints_iff _).1 (hcode.symm ▸ hn)⟩
  · rintro ⟨c, rfl, hc⟩
    exact (hp.mem_codePoints_iff c).2 hc

end Predicate

/-! ## Classes -/

namespace CharClass

/-- The code points of a class. -/
def Has : CharClass → Nat → Prop
  | .upper, n => 0x41 ≤ n ∧ n ≤ 0x5A
  | .lower, n => 0x61 ≤ n ∧ n ≤ 0x7A
  | .letter, n => 0x41 ≤ n ∧ n ≤ 0x5A ∨ 0x61 ≤ n ∧ n ≤ 0x7A
  | .digit, n => 0x30 ≤ n ∧ n ≤ 0x39
  | .whitespace, n => n = 0x20 ∨ n = 0x09 ∨ n = 0x0D ∨ n = 0x0A
  | .alphaNumeric, n => (0x41 ≤ n ∧ n ≤ 0x5A ∨ 0x61 ≤ n ∧ n ≤ 0x7A) ∨ 0x30 ≤ n ∧ n ≤ 0x39

/-- The smallest class that contains another. -/
def parent? : CharClass → Option CharClass
  | .upper | .lower => some .letter
  | .letter | .digit => some .alphaNumeric
  | .whitespace | .alphaNumeric => none

/-- What a class asks of characters. -/
def requirement (k : CharClass) : Requirement Char := (Predicate.ofClass k).requirement Facet.char

/-- Whether a character belongs to a class. -/
def accepts (k : CharClass) (c : Char) : Bool := k.requirement.accepts c

theorem isCharacters_ofClass (k : CharClass) : (Predicate.ofClass k).IsCharacters :=
  List.forall_mem_singleton.2 rfl

/-- The classes are the sets of their code points. -/
theorem accepts_iff (k : CharClass) (c : Char) : k.accepts c = true ↔ k.Has c.toNat := by
  have hvalid : c.toNat.isValidChar := c.valid
  refine ((isCharacters_ofClass k).mem_codePoints_iff c).symm.trans ?_
  cases k <;>
    simp only [Predicate.codePoints, Predicate.ofClass, Predicate.expand, Formula.bind, Marker.expansion,
      expansion, span, single, Formula.region, Formula.regionAny, Marker.codePoints,
      Constant.codePoint?, Constant.value?, Option.map_some, CodeRegion.mem_union,
      CodeRegion.mem_between, CodeRegion.not_mem_empty, hvalid, and_true, or_false, Char.reduceToNat, Has] <;>
    omega

variable {k l : CharClass} {c : Char}

/-- Beyond the first half of a byte there are no members. -/
theorem lt_of_accepts (h : k.accepts c = true) : c.toNat < 0x80 := by
  have hcode := (k.accepts_iff c).1 h
  cases k <;> simp only [Has] at hcode <;> omega

theorem accepts_parent (hkl : k.parent? = some l) (h : k.accepts c = true) : l.accepts c = true := by
  rw [accepts_iff] at h ⊢
  cases k <;> cases hkl <;> simp only [Has] at h ⊢ <;> omega

/-- White space has no members in common with the other classes. -/
theorem whitespace_rejects (hk : k ≠ .whitespace) (h : k.accepts c = true) :
    whitespace.accepts c = false := by
  rw [Bool.eq_false_iff, ne_eq, accepts_iff]
  rw [accepts_iff] at h
  cases k <;> simp only [Has] at h ⊢ <;> first | omega | exact absurd rfl hk

/-- The smallest classes exclude one another. -/
theorem countP_accepts_le (c : Char) :
    [upper, lower, digit, whitespace].countP (fun k => k.accepts c) ≤ 1 := by
  simp only [List.countP_cons, List.countP_nil, accepts_iff, Has]
  split <;> split <;> split <;> split <;> omega

theorem letter_eq (c : Char) : letter.accepts c = (upper.accepts c || lower.accepts c) := by
  rw [Bool.eq_iff_iff, Bool.or_eq_true, accepts_iff, accepts_iff, accepts_iff]
  exact Iff.rfl

theorem alphaNumeric_eq (c : Char) :
    alphaNumeric.accepts c = (letter.accepts c || digit.accepts c) := by
  rw [Bool.eq_iff_iff, Bool.or_eq_true, accepts_iff, accepts_iff, accepts_iff]
  exact Iff.rfl

/-- A member of a class is refined again with a class that contains it, in silence. -/
theorem refine_parent (hkl : k.parent? = some l) (x : Refined k.requirement) :
    ∃ y, y.value = x.value ∧ l.requirement.refine x.value = pure (.ok y) :=
  have hx : l.requirement.accepts x.value = true := accepts_parent hkl x.accepted
  ⟨⟨x.value, hx⟩, rfl, Requirement.refine_of_accepts hx⟩

/-- A member of another class is no white space. -/
theorem refine_whitespace (hk : k ≠ .whitespace) (x : Refined k.requirement) :
    whitespace.requirement.refine x.value =
      .report whitespace.requirement.rejection (.error (whitespace.requirement.violation x.value)) :=
  Requirement.refine_of_rejects (whitespace_rejects hk x.accepted)

/-- The classes of characters are sets of code points below the second half of a byte. Capital and small
letters, digits and white space exclude one another; the letters are the former two, and the letters and
digits the former three, so that refined characters move up the hierarchy and never to white space. And
every predicate on characters, with its classes spelled out at all depths, accepts the characters of a
region which is worked out from the constants in it. -/
theorem classes_are_regions :
    (∀ (k : CharClass) (c : Char), k.accepts c = true ↔ k.Has c.toNat) ∧
    (∀ c : Char, [upper, lower, digit, whitespace].countP (fun k => k.accepts c) ≤ 1) ∧
    (∀ (k : CharClass) (c : Char), 0x80 ≤ c.toNat → k.accepts c = false) ∧
    (∀ c : Char, letter.accepts c = (upper.accepts c || lower.accepts c) ∧
      alphaNumeric.accepts c = (letter.accepts c || digit.accepts c)) ∧
    (∀ k l : CharClass, k.parent? = some l → ∀ x : Refined k.requirement,
      ∃ y, y.value = x.value ∧ l.requirement.refine x.value = pure (.ok y)) ∧
    (∀ k : CharClass, k ≠ whitespace → ∀ x : Refined k.requirement,
      whitespace.requirement.refine x.value =
        .report whitespace.requirement.rejection (.error (whitespace.requirement.violation x.value))) ∧
    ∀ p : Predicate, p.IsCharacters →
      (∀ c, (Predicate.expand p).accepts Facet.char c = p.accepts Facet.char c) ∧
      (∀ m ∈ (Predicate.expand p).atoms, m.IsRun) ∧
      ∀ n, n ∈ p.codePoints ↔ ∃ c : Char, c.toNat = n ∧ p.accepts Facet.char c = true := by
  refine ⟨accepts_iff, countP_accepts_le, fun k c hc => ?_, fun c => ⟨letter_eq c, alphaNumeric_eq c⟩,
    fun k l => refine_parent, fun k => refine_whitespace, fun p hp => ⟨?_, ?_, ?_⟩⟩
  · rw [Bool.eq_false_iff]
    intro h
    have hlt := lt_of_accepts h
    omega
  · exact Predicate.accepts_expand Facet.char p
  · exact fun m => hp.isRun_of_mem_expand
  · exact hp.mem_codePoints_iff_exists

/-- No class has a letter with an accent; a capital letter is a letter and no white space; and what is
neither a digit nor between the small letter a and the last code point before the surrogates lies in front
of the digits, behind them, or behind the surrogates. -/
theorem classes_are_regions_outside :
    let p : Predicate := .not (.anyOf [.atom (.charClass .digit), span 'a' (Char.ofNat 0xD7FF)])
    (∀ k : CharClass, k.accepts 'é' = false) ∧
      (∃ y : Refined letter.requirement, y.value = 'Q' ∧ letter.requirement.refine 'Q' = pure (.ok y)) ∧
      whitespace.requirement.refine 'Q' =
        .report whitespace.requirement.rejection (.error (whitespace.requirement.violation 'Q')) ∧
      (∃ c : Char, c.toNat = 0x40 ∧ p.accepts Facet.char c = true) ∧
      (∃ c : Char, c.toNat = 0xE000 ∧ p.accepts Facet.char c = true) ∧
      ¬ ∃ c : Char, c.toNat = 0x39 ∧ p.accepts Facet.char c = true := by
  intro p
  obtain ⟨-, -, beyond, -, up, aside, regions⟩ := classes_are_regions
  have hp : p.IsCharacters := by
    unfold Predicate.IsCharacters
    decide
  obtain ⟨-, -, hregion⟩ := regions p hp
  let q : Refined upper.requirement := ⟨'Q', by decide⟩
  exact ⟨fun k => beyond k 'é' (by decide), up upper letter rfl q, aside upper (by decide) q,
    (hregion 0x40).1 (by decide), (hregion 0xE000).1 (by decide),
    fun h => absurd ((hregion 0x39).2 h) (by decide)⟩

end CharClass

end Refinement
