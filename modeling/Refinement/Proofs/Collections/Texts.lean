import Refinement.Client
import Refinement.Proofs.Markers.Answers

/-!
# Characters and bytes of texts

Bounds on the length of a text count its characters, and a client may compare texts by their bytes. Every
character has one byte that begins it and at most three that go on with it, so that the characters can be
counted among the bytes, and the two measures bound each other. They agree on texts of characters that
have a single byte, and on no others.

* `Text.bytes`, `Text.heads`: the bytes of a text, and how many of them begin a character.
* `Text.heads_bytes`: there are as many of them as there are characters.
* `Text.length_le_bytes`, `Text.bytes_le`: how the two measures bound each other.
* `Text.length_eq_bytes_iff`: where they agree.
* `Predicate.texts_count_characters`: what this means for bounds on texts.
-/

namespace Refinement

namespace Text

/-! ## Bytes -/

/-- The bytes in which a text is encoded. -/
def bytes (s : String) : List UInt8 := s.toUTF8.data.toList

/-- Whether a byte goes on with a character: its two leading bits are a one and a zero. -/
def isContinuation (b : UInt8) : Bool := b.toNat / 64 == 2

/-- The number of bytes that begin a character. -/
def heads (bs : List UInt8) : Nat := bs.countP fun b => !isContinuation b

/-- All code points are below 128, where a character has a single byte. -/
def IsAscii (s : String) : Prop := ∀ c ∈ s.toList, c.toNat < 0x80

theorem bytes_eq (s : String) : bytes s = s.toList.flatMap String.utf8EncodeChar := by
  rw [bytes, String.toUTF8_eq_toByteArray, ← String.utf8Encode_toList, List.utf8Encode,
    List.data_toByteArray, List.toList_toArray]

theorem isContinuation_ofNat (n : Nat) :
    isContinuation (UInt8.ofNat n) = decide (n % 256 / 64 = 2) := by
  rw [isContinuation, UInt8.toNat_ofNat', Bool.eq_iff_iff, beq_iff_eq, decide_eq_true_iff]

/-- Six bits behind a one and a zero. -/
theorem isContinuation_tail (n : Nat) : isContinuation (UInt8.ofNat (n % 64 + 128)) = true := by
  rw [isContinuation_ofNat, decide_eq_true_iff]
  omega

/-- A byte that starts with a zero, or with two ones. -/
theorem isContinuation_lead {n : Nat} (hn : n < 256) (h : n < 128 ∨ 192 ≤ n) :
    isContinuation (UInt8.ofNat n) = false := by
  rw [isContinuation_ofNat, decide_eq_false_iff_not]
  omega

/-- A byte that begins a character counts, and those that go on with it do not. -/
theorem heads_lead {b : UInt8} {bs : List UInt8} (hb : isContinuation b = false)
    (hbs : ∀ t ∈ bs, isContinuation t = true) : heads (b :: bs) = 1 := by
  have hrest : bs.countP (fun t => !isContinuation t) = 0 := by
    rw [List.countP_eq_zero]
    intro t ht
    simp [hbs t ht]
  rw [heads, List.countP_cons_of_pos (by simp [hb]), hrest]

/-- The first byte of a character begins it, and all others go on with it. -/
theorem heads_utf8EncodeChar (c : Char) : heads (String.utf8EncodeChar c) = 1 := by
  unfold String.utf8EncodeChar
  generalize c.val.toNat = n
  dsimp only
  -- One case for each number of bytes.
  split
  · exact heads_lead (isContinuation_lead (by omega) (by omega)) nofun
  · split
    · refine heads_lead (isContinuation_lead (by omega) (by omega)) ?_
      exact List.forall_mem_singleton.2 (isContinuation_tail _)
    · split
      · refine heads_lead (isContinuation_lead (by omega) (by omega)) ?_
        simp only [List.forall_mem_cons, isContinuation_tail, List.not_mem_nil, false_implies,
          implies_true, and_self]
      · refine heads_lead (isContinuation_lead (by omega) (by omega)) ?_
        simp only [List.forall_mem_cons, isContinuation_tail, List.not_mem_nil, false_implies,
          implies_true, and_self]

/-- The characters of a text can be counted among its bytes. -/
theorem heads_bytes (s : String) : heads (bytes s) = s.length := by
  rw [bytes_eq, ← String.length_toList]
  induction s.toList with
  | nil => rfl
  | cons c cs ih =>
    have happend : heads ((c :: cs).flatMap String.utf8EncodeChar) =
        heads (String.utf8EncodeChar c) + heads (cs.flatMap String.utf8EncodeChar) := by
      rw [List.flatMap_cons]
      exact List.countP_append
    rw [happend, heads_utf8EncodeChar, ih, List.length_cons, Nat.add_comm]

/-! ## The two measures -/

theorem length_le_bytes (s : String) : s.length ≤ (bytes s).length := by
  rw [← heads_bytes]
  exact List.countP_le_length

theorem bytes_le (s : String) : (bytes s).length ≤ 4 * s.length := by
  rw [bytes_eq, ← String.length_toList]
  induction s.toList with
  | nil => exact Nat.le_refl 0
  | cons c cs ih =>
    have hsize := c.utf8Size_le_four
    rw [List.flatMap_cons, List.length_append, String.length_utf8EncodeChar, List.length_cons]
    omega

theorem utf8Size_eq_one_iff (c : Char) : c.utf8Size = 1 ↔ c.toNat < 0x80 := by
  rw [Char.utf8Size_eq_one_iff, UInt32.le_iff_toNat_le]
  exact Nat.lt_succ_iff.symm

/-- There are as many bytes as characters in texts of single bytes only. -/
theorem length_eq_bytes_iff (s : String) : s.length = (bytes s).length ↔ IsAscii s := by
  rw [bytes_eq, ← String.length_toList, IsAscii]
  induction s.toList with
  | nil => simp
  | cons c cs ih =>
    have hle : cs.length ≤ (cs.flatMap String.utf8EncodeChar).length := by
      have h := length_le_bytes (String.ofList cs)
      rwa [bytes_eq, ← String.length_toList, String.toList_ofList] at h
    have hpos := c.utf8Size_pos
    have hone := utf8Size_eq_one_iff c
    rw [List.forall_mem_cons, ← ih, ← hone, List.flatMap_cons, List.length_append,
      String.length_utf8EncodeChar, List.length_cons]
    omega

end Text

/-! ## Bounds on texts -/

/-- What texts show to predicates. -/
abbrev Facet.text : Facet String := .scalar (.key .text)

namespace Predicate

open Text (bytes heads IsAscii)

/-- A comparison with a constant under the client's order. -/
def byLength (r : Relation) (d : Constant) : Predicate :=
  .atom (.compare r (.base (.user Client.byLength)) d)

variable {s t : String} {m n k : IntKind.usize.Val}

theorem accepts_atMost_text : (atMost n).accepts Facet.text s = true ↔ s.length ≤ n.toInt :=
  accepts_atMost rfl n

theorem accepts_atLeast_text : (atLeast n).accepts Facet.text s = true ↔ n.toInt ≤ s.length :=
  accepts_atLeast rfl n

/-- The client's order compares numbers of bytes. -/
theorem accepts_byLength {d : Constant} (hd : d.value? (.key .text) = some t) (r : Relation) :
    (byLength r d).accepts Facet.text s = true ↔ r.Relates (bytes s).length (bytes t).length := by
  have hanswer : Facet.text.answer? (.base (.user Client.byLength)) d s =
      some (compare (bytes s).length (bytes t).length) := by
    rw [Facet.answer?, hd]
    rfl
  rw [byLength, accepts_eq_holds, ← Relation.admits_compare, ← hanswer]
  exact iff_of_eq (congrArg (· = true) (Marker.accepts_compare Facet.text s r _ d))

/-- A text that fits into a bound by its bytes does so by its characters. -/
theorem accepts_atMost_of_bytes_le (h : (bytes s).length ≤ n.toInt) :
    (atMost n).accepts Facet.text s = true := by
  have hle := Text.length_le_bytes s
  rw [accepts_atMost_text]
  omega

theorem bytes_le_of_accepts_atMost (h : (atMost n).accepts Facet.text s = true) :
    (bytes s).length ≤ 4 * n.toInt := by
  have hle := Text.bytes_le s
  rw [accepts_atMost_text] at h
  omega

/-- Bounds on the characters are bounds on the bytes in texts of single bytes only. Some bound is as great
as the text is long, which it is for every text in memory. -/
theorem isAscii_iff_atMost (hs : (s.length : Int) ≤ IntKind.max .usize) :
    IsAscii s ↔ ∀ n, (atMost n).accepts Facet.text s = true → (bytes s).length ≤ n.toInt := by
  have hle := Text.length_le_bytes s
  simp only [← Text.length_eq_bytes_iff, accepts_atMost_text]
  constructor
  · intro heq n hn
    omega
  · intro h
    have hbound := h ⟨s.length, Int.natCast_nonneg _, hs⟩ (Int.le_refl _)
    simp only at hbound
    omega

/-- Bounds on two texts add up to bounds on the one followed by the other. -/
theorem accepts_append (hk : k.toInt = m.toInt + n.toInt) :
    ((atMost m).accepts Facet.text s = true → (atMost n).accepts Facet.text t = true →
      (atMost k).accepts Facet.text (s ++ t) = true) ∧
    ((atLeast m).accepts Facet.text s = true → (atLeast n).accepts Facet.text t = true →
      (atLeast k).accepts Facet.text (s ++ t) = true) := by
  simp only [accepts_atMost_text, accepts_atLeast_text, String.length_append]
  omega

/-- Bounds on texts count the bytes that begin a character. There are at most as many of these as there
are bytes, which the client's order compares, and at least a quarter as many; they are as many as there
are bytes in texts of single bytes only, which are the texts whose bytes obey all bounds that their
characters obey, if bounds reach as far as the text, and they do for every text in memory. Where a text is
followed by another, their characters add up, and so do their bounds. -/
theorem texts_count_characters :
    (∀ s : String, Facet.text.count? s = some (heads (bytes s)) ∧
      ∀ n, ((atMost n).accepts Facet.text s = true ↔ heads (bytes s) ≤ n.toInt) ∧
        ((atLeast n).accepts Facet.text s = true ↔ n.toInt ≤ heads (bytes s))) ∧
    (∀ s : String, heads (bytes s) ≤ (bytes s).length ∧ (bytes s).length ≤ 4 * heads (bytes s) ∧
      (heads (bytes s) = (bytes s).length ↔ IsAscii s)) ∧
    (∀ (s t : String) (d : Constant), d.value? (.key .text) = some t → ∀ r,
      (byLength r d).accepts Facet.text s = true ↔ r.Relates (bytes s).length (bytes t).length) ∧
    (∀ (s : String) (n : IntKind.usize.Val),
      ((bytes s).length ≤ n.toInt → (atMost n).accepts Facet.text s = true) ∧
      ((atMost n).accepts Facet.text s = true → (bytes s).length ≤ 4 * n.toInt)) ∧
    (∀ s : String, (s.length : Int) ≤ IntKind.max .usize → (IsAscii s ↔
      ∀ n, (atMost n).accepts Facet.text s = true → (bytes s).length ≤ n.toInt)) ∧
    ∀ s t : String, heads (bytes (s ++ t)) = heads (bytes s) + heads (bytes t) ∧
      ∀ m n k : IntKind.usize.Val, k.toInt = m.toInt + n.toInt →
        ((atMost m).accepts Facet.text s = true → (atMost n).accepts Facet.text t = true →
          (atMost k).accepts Facet.text (s ++ t) = true) ∧
        ((atLeast m).accepts Facet.text s = true → (atLeast n).accepts Facet.text t = true →
          (atLeast k).accepts Facet.text (s ++ t) = true) := by
  simp only [Text.heads_bytes]
  refine ⟨fun s => ⟨rfl, fun n => ⟨accepts_atMost_text, accepts_atLeast_text⟩⟩,
    fun s => ⟨Text.length_le_bytes s, Text.bytes_le s, Text.length_eq_bytes_iff s⟩,
    fun s t d => accepts_byLength, fun s n => ⟨accepts_atMost_of_bytes_le, bytes_le_of_accepts_atMost⟩,
    fun s => isAscii_iff_atMost, fun s t => ⟨String.length_append s t, fun m n k => accepts_append⟩⟩

/-- Three letters of two bytes each have as many bytes as six letters have, which the order tells, and
more than the bound that they meet; with two letters more they meet the sum of both bounds. -/
theorem texts_count_characters_umlauts :
    let three : Constant := .user Client.three
    let bound : Int → IntKind.usize.Val := IntKind.wrap .usize
    (byLength .greater three).accepts Facet.text "äöü" = true ∧
      ((atMost (bound 3)).accepts Facet.text "äöü" = true ∧ ¬ IsAscii "äöü") ∧
      (atMost (bound 5)).accepts Facet.text ("äöü" ++ "ab") = true := by
  intro three bound
  obtain ⟨heads, -, order, -, ascii, append⟩ := texts_count_characters
  have hthree : (atMost (bound 3)).accepts Facet.text "äöü" = true :=
    ((heads "äöü").2 (bound 3)).1.2 (by decide)
  have htwo : (atMost (bound 2)).accepts Facet.text "ab" = true :=
    ((heads "ab").2 (bound 2)).1.2 (by decide)
  have horder : (bytes "abc").length < (bytes "äöü").length := by decide
  refine ⟨(order "äöü" "abc" three rfl .greater).2 horder, ⟨hthree, fun h => ?_⟩,
    ((append "äöü" "ab").2 (bound 3) (bound 2) (bound 5) (by decide)).1 hthree htwo⟩
  exact absurd ((ascii "äöü" (by decide)).1 h (bound 3) hthree) (by decide)

end Predicate

end Refinement
