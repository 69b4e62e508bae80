import Refinement.Formula

/-!
# Regions of code points

A `CodeSpan` is a run of consecutive characters, given by code points; a `CodeRegion` is a finite union
of spans. There are no surrogates in a span, so a complement leaves them out, and a range that runs
across them falls into two spans.

* `CodeRegion.between`: the characters from one code point up to another.
* `CodeRegion.union`, `CodeRegion.inter`, `CodeRegion.compl`: the operations on regions.
* `CodeRegion.mem_union`, `CodeRegion.mem_inter`, `CodeRegion.mem_compl`: what belongs to them.
* `Formula.region`: a formula as a region, given the regions of its atoms.
* `Formula.mem_region`: the region of a formula holds the characters of which the formula is true.
-/

namespace Refinement

/-! ## Spans -/

/-- The characters from the code point `start` up to `stop`, which is not one of them. -/
structure CodeSpan where
  /-- The first code point. -/
  start : Nat
  /-- The code point behind the last. -/
  stop : Nat
  /-- There is a code point in the span. -/
  start_lt_stop : start < stop
  /-- The span lies on one side of the surrogates. -/
  aside : stop ≤ 0xD800 ∨ 0xE000 ≤ start ∧ stop ≤ 0x110000
deriving DecidableEq

namespace CodeSpan

/-- The code point lies in the span. -/
def Contains (s : CodeSpan) (n : Nat) : Prop := s.start ≤ n ∧ n < s.stop

instance (s : CodeSpan) (n : Nat) : Decidable (s.Contains n) :=
  inferInstanceAs (Decidable (_ ∧ _))

/-- Code points in a span are those of characters. -/
theorem Contains.isValidChar {s : CodeSpan} {n : Nat} (h : s.Contains n) : n.isValidChar := by
  have haside := s.aside
  obtain ⟨hstart, hstop⟩ := h
  unfold Nat.isValidChar
  omega

/-- The span between two code points, if there is a code point between them. -/
def ofBounds (start stop : Nat) (h : stop ≤ 0xD800 ∨ 0xE000 ≤ start ∧ stop ≤ 0x110000) :
    List CodeSpan :=
  if hlt : start < stop then [⟨start, stop, hlt, h⟩] else []

theorem exists_mem_ofBounds {start stop : Nat} (h) (n : Nat) :
    (∃ s ∈ ofBounds start stop h, s.Contains n) ↔ start ≤ n ∧ n < stop := by
  unfold ofBounds
  split
  · simp [Contains]
  · simp only [List.not_mem_nil, false_and, exists_false, false_iff]
    omega

/-- The characters that two spans have in common. -/
def meet (s t : CodeSpan) : List CodeSpan :=
  ofBounds (max s.start t.start) (min s.stop t.stop) (by have := s.aside; omega)

theorem exists_mem_meet (s t : CodeSpan) (n : Nat) :
    (∃ u ∈ s.meet t, u.Contains n) ↔ s.Contains n ∧ t.Contains n := by
  rw [meet, exists_mem_ofBounds]
  unfold Contains
  omega

end CodeSpan

/-! ## Regions -/

/-- A finite union of spans. -/
structure CodeRegion where
  /-- The spans. They may overlap. -/
  spans : List CodeSpan
deriving DecidableEq

namespace CodeRegion

instance : Membership Nat CodeRegion := ⟨fun r n => ∃ s ∈ r.spans, s.Contains n⟩

theorem mem_def {r : CodeRegion} {n : Nat} : n ∈ r ↔ ∃ s ∈ r.spans, s.Contains n := Iff.rfl

instance (n : Nat) (r : CodeRegion) : Decidable (n ∈ r) :=
  inferInstanceAs (Decidable (∃ s ∈ r.spans, s.Contains n))

/-- Code points in a region are those of characters. -/
theorem isValidChar_of_mem {r : CodeRegion} {n : Nat} (h : n ∈ r) : n.isValidChar := by
  obtain ⟨s, -, hs⟩ := h
  exact hs.isValidChar

/-- No characters. -/
def empty : CodeRegion := ⟨[]⟩

/-- The characters of two regions. -/
def union (r s : CodeRegion) : CodeRegion := ⟨r.spans ++ s.spans⟩

/-- The characters from `start` up to `stop`: a span below the surrogates and one above them. -/
def between (start stop : Nat) : CodeRegion :=
  ⟨CodeSpan.ofBounds start (min stop 0xD800) (by omega) ++
    CodeSpan.ofBounds (max start 0xE000) (min stop 0x110000) (by omega)⟩

/-- All characters. -/
def all : CodeRegion := between 0 0x110000

/-- The characters that two regions have in common, span by span. -/
def inter (r s : CodeRegion) : CodeRegion := ⟨r.spans.flatMap fun a => s.spans.flatMap a.meet⟩

/-- The characters outside a span, below and above it. -/
def outside (s : CodeSpan) : CodeRegion := (between 0 s.start).union (between s.stop 0x110000)

/-- The characters outside a region are those outside all its spans. -/
def compl (r : CodeRegion) : CodeRegion := r.spans.foldr (fun s rest => (outside s).inter rest) all

variable {r s : CodeRegion} {n : Nat}

@[simp] theorem not_mem_empty : n ∉ empty := by simp [mem_def, empty]

@[simp] theorem mem_union : n ∈ r.union s ↔ n ∈ r ∨ n ∈ s := by
  simp only [mem_def, union, List.mem_append, or_and_right, exists_or]

@[simp] theorem mem_between {start stop : Nat} :
    n ∈ between start stop ↔ (start ≤ n ∧ n < stop) ∧ n.isValidChar := by
  simp only [mem_def, between, List.mem_append, or_and_right, exists_or, CodeSpan.exists_mem_ofBounds]
  unfold Nat.isValidChar
  omega

@[simp] theorem mem_all : n ∈ all ↔ n.isValidChar := by
  rw [all, mem_between]
  unfold Nat.isValidChar
  omega

@[simp] theorem mem_inter : n ∈ r.inter s ↔ n ∈ r ∧ n ∈ s := by
  constructor
  · rintro ⟨u, hu, hn⟩
    obtain ⟨a, ha, hu⟩ := List.mem_flatMap.1 hu
    obtain ⟨b, hb, hu⟩ := List.mem_flatMap.1 hu
    obtain ⟨han, hbn⟩ := (a.exists_mem_meet b n).1 ⟨u, hu, hn⟩
    exact ⟨⟨a, ha, han⟩, ⟨b, hb, hbn⟩⟩
  · rintro ⟨⟨a, ha, han⟩, ⟨b, hb, hbn⟩⟩
    obtain ⟨u, hu, hn⟩ := (a.exists_mem_meet b n).2 ⟨han, hbn⟩
    exact ⟨u, List.mem_flatMap.2 ⟨a, ha, List.mem_flatMap.2 ⟨b, hb, hu⟩⟩, hn⟩

@[simp] theorem mem_outside {a : CodeSpan} : n ∈ outside a ↔ n.isValidChar ∧ ¬ a.Contains n := by
  have hlt := a.start_lt_stop
  rw [outside, mem_union, mem_between, mem_between]
  unfold CodeSpan.Contains Nat.isValidChar
  omega

/-- The complement is taken among the characters. -/
@[simp] theorem mem_compl : n ∈ r.compl ↔ n.isValidChar ∧ n ∉ r := by
  obtain ⟨spans⟩ := r
  induction spans with
  | nil => simp [compl, mem_def (r := ⟨[]⟩)]
  | cons a rest ih =>
    have hstep : compl ⟨a :: rest⟩ = (outside a).inter (compl ⟨rest⟩) := rfl
    have hcons : n ∈ (⟨a :: rest⟩ : CodeRegion) ↔ a.Contains n ∨ n ∈ (⟨rest⟩ : CodeRegion) := by
      simp only [mem_def, List.mem_cons, or_and_right, exists_or, exists_eq_left]
    rw [hstep, mem_inter, mem_outside, ih, hcons, not_or]
    constructor
    · rintro ⟨⟨hn, ha⟩, -, hrest⟩
      exact ⟨hn, ha, hrest⟩
    · rintro ⟨hn, ha, hrest⟩
      exact ⟨⟨hn, ha⟩, hn, hrest⟩

end CodeRegion

/-! ## Formulas -/

namespace Formula

variable {A : Type}

mutual

/-- A formula as a region, given the regions of its atoms. -/
def region (f : A → CodeRegion) : Formula A → CodeRegion
  | .atom a => f a
  | .allOf ps => regionAll f ps
  | .anyOf ps => regionAny f ps
  | .and p q => (p.region f).inter (q.region f)
  | .or p q => (p.region f).union (q.region f)
  | .not p => (p.region f).compl

/-- What the regions of all formulas of a list have in common. -/
def regionAll (f : A → CodeRegion) : List (Formula A) → CodeRegion
  | [] => .all
  | p :: ps => (p.region f).inter (regionAll f ps)

/-- The regions of the formulas of a list together. -/
def regionAny (f : A → CodeRegion) : List (Formula A) → CodeRegion
  | [] => .empty
  | p :: ps => (p.region f).union (regionAny f ps)

end

variable {n : Nat}

mutual

/-- A character lies in the region of a formula where the formula is true of it. -/
theorem mem_region (hn : n.isValidChar) (f : A → CodeRegion) :
    ∀ p : Formula A, n ∈ p.region f ↔ (p.holds fun a => decide (n ∈ f a)) = true
  | .atom a => by simp only [region, holds, decide_eq_true_eq]
  | .allOf ps => by simp only [region, holds, mem_regionAll hn f ps]
  | .anyOf ps => by simp only [region, holds, mem_regionAny hn f ps]
  | .and p q => by
    simp only [region, holds, CodeRegion.mem_inter, mem_region hn f p, mem_region hn f q,
      Bool.and_eq_true]
  | .or p q => by
    simp only [region, holds, CodeRegion.mem_union, mem_region hn f p, mem_region hn f q,
      Bool.or_eq_true]
  | .not p => by
    simp only [region, holds, CodeRegion.mem_compl, mem_region hn f p, hn, true_and,
      Bool.not_eq_true, Bool.not_eq_true']

theorem mem_regionAll (hn : n.isValidChar) (f : A → CodeRegion) :
    ∀ ps : List (Formula A), n ∈ regionAll f ps ↔ holdsAll (fun a => decide (n ∈ f a)) ps = true
  | [] => by simp only [regionAll, holdsAll, CodeRegion.mem_all, hn]
  | p :: ps => by
    simp only [regionAll, holdsAll, CodeRegion.mem_inter, mem_region hn f p, mem_regionAll hn f ps,
      Bool.and_eq_true]

theorem mem_regionAny (hn : n.isValidChar) (f : A → CodeRegion) :
    ∀ ps : List (Formula A), n ∈ regionAny f ps ↔ holdsAny (fun a => decide (n ∈ f a)) ps = true
  | [] => by simp only [regionAny, holdsAny, CodeRegion.not_mem_empty, Bool.false_eq_true]
  | p :: ps => by
    simp only [regionAny, holdsAny, CodeRegion.mem_union, mem_region hn f p, mem_regionAny hn f ps,
      Bool.or_eq_true]

end

end Formula

end Refinement
