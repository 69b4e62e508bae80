import Refinement.Proofs.Locality.Scalars

/-!
# Marks and skipped values, read locally

Values are skipped on fuel, in rounds that leave less and less of the text. So the fuel does not
matter, and skipping follows the equations `skipValue_eq`, `skipParts_eq` and `skipItems_eq`, in
which there is none.

* `mark_local`, `nextPart_local`: the marks of objects and arrays.
* `skipWith_burns`, `skipItems_burns`: every round of skipping leaves less.
* `skipValue_local`, `skipItems_local`: what is skipped.
-/

namespace Refinement.Json

variable {α : Type} {j : Nat}

open Scan (Local andThen mapTo)

/-! ## Marks -/

/-- The opening mark of an object or array. -/
def opening (object : Bool) : Char := if object then '\x7b' else '['

/-- The closing mark of an object or array. -/
def closing (object : Bool) : Char := if object then '\x7d' else ']'

/-- Reads a mark behind blanks. -/
def mark (m : Char) : Scan Unit :=
  andThen front fun c => if c = m then fun r => .ok ((), r) else fun _ => .error .malformed

theorem mark_local (m : Char) : Local 1 1 (mark m) := by
  refine front_local.follow fun c => ?_
  split
  · exact .pure _ _
  · exact .fail _ _ _

theorem endArray_eq : endArray = mark ']' := by
  funext cs
  unfold endArray mark andThen front
  cases skipBlanks cs with
  | nil => rfl
  | cons c r => by_cases h : c = ']' <;> simp [next, h, bind, Except.bind]

theorem endObject_eq : endObject = mark '\x7d' := by
  funext cs
  unfold endObject mark andThen front
  cases skipBlanks cs with
  | nil => rfl
  | cons c r => by_cases h : c = '\x7d' <;> simp [next, h, bind, Except.bind]

theorem colon_eq : colon = mark ':' := by
  funext cs
  unfold colon mark andThen front
  cases skipBlanks cs with
  | nil => rfl
  | cons c r => by_cases h : c = ':' <;> simp [next, h, bind, Except.bind]

/-- Whether another part follows, of those that begin as `opens` says and stand in front of the
closing mark `close`. -/
def nextPart (close : Char) (opens : Char → Bool) (first : Bool) : Scan Bool :=
  andThen peek fun c =>
    if c = close then fun r => .ok (false, r)
    else if first then if opens c then fun r => .ok (true, r) else fun _ => .error .malformed
    else if c = ',' then andThen next fun _ => andThen peek fun d =>
      if opens d then fun r => .ok (true, r) else fun _ => .error .malformed
    else fun _ => .error .malformed

theorem nextPart_local (close : Char) (opens : Char → Bool) (first : Bool) :
    Local 0 0 (nextPart close opens first) := by
  refine peek_local.andThen (k := 0) (fun c => ?_) (Nat.le_refl 0)
  split
  · exact .pure _ _
  split
  · split
    · exact .pure _ _
    · exact .fail _ _ _
  split
  · refine (next_local.andThen (k := 0) (fun _ => ?_) (Nat.zero_le _)).mono (Nat.zero_le _) (Nat.le_refl _)
    refine peek_local.andThen (k := 0) (fun d => ?_) (Nat.le_refl 0)
    split
    · exact .pure _ _
    · exact .fail _ _ _
  · exact .fail _ _ _

theorem nextItem_eq (first : Bool) : nextItem first = nextPart ']' (· != ']') first := by
  funext cs
  unfold nextItem nextPart
  cases hcs : skipBlanks cs with
  | nil =>
    unfold andThen
    rw [peek_of_nil hcs]
    rfl
  | cons c r =>
    rw [Scan.andThen_of_ok (peek_of_cons hcs)]
    by_cases hb : c = ']'
    · subst hb
      rfl
    cases first with
    | true => simp [hb]
    | false =>
      by_cases hc : c = ','
      · subst hc
        cases hr : skipBlanks r with
        | nil => simp [andThen, next, peek, hr, bind, Except.bind]
        | cons d r' => by_cases hd : d = ']' <;> simp [andThen, next, peek, hr, hd, bind, Except.bind]
      · simp [hb, hc]

theorem nextName_eq (first : Bool) : nextName first = nextPart '\x7d' (· == '"') first := by
  funext cs
  unfold nextName nextPart
  cases hcs : skipBlanks cs with
  | nil =>
    unfold andThen
    rw [peek_of_nil hcs]
    rfl
  | cons c r =>
    rw [Scan.andThen_of_ok (peek_of_cons hcs)]
    by_cases hb : c = '\x7d'
    · subst hb
      rfl
    cases first with
    | true =>
      by_cases hq : c = '"' <;> simp [hb, hq]
    | false =>
      by_cases hc : c = ','
      · subst hc
        cases hr : skipBlanks r with
        | nil => simp [andThen, next, peek, hr, bind, Except.bind]
        | cons d r' => by_cases hd : d = '"' <;> simp [andThen, next, peek, hr, hd, bind, Except.bind]
      · simp [hb, hc]

/-! ## Skipped values -/

theorem skipName_eq : skipName = andThen front fun c =>
    if c = '"' then andThen skipText fun _ => colon else fun _ => .error .malformed := by
  funext cs
  unfold skipName
  cases hcs : skipBlanks cs with
  | nil => rw [Scan.andThen_of_error (front_of_nil hcs)]
  | cons c r =>
    rw [Scan.andThen_of_ok (front_of_cons hcs)]
    by_cases h : c = '"'
    · subst h
      rfl
    · simp [h]

theorem skipName_local : Local 1 1 skipName := by
  rw [skipName_eq, colon_eq]
  refine front_local.follow fun c => ?_
  split
  · exact (skipText_local.follow fun _ => (mark_local _).weaken).weaken
  · exact .fail _ _ _

/-- Skips an object or array behind its opening mark, where its parts are skipped by `parts`. -/
def skipGroup (object : Bool) (parts : Scan Unit) : Scan Unit :=
  andThen peek fun c => if c = closing object then mapTo (fun _ => ()) next else parts

/-- Skips a value, where the parts of objects and arrays are skipped by `parts`. -/
def skipValueBy (parts : Bool → Scan Unit) : Scan Unit :=
  andThen front fun c =>
    if c = 'n' then literal ['u', 'l', 'l']
    else if c = 't' then literal ['r', 'u', 'e']
    else if c = 'f' then literal ['a', 'l', 's', 'e']
    else if c = '-' then skipNumber
    else if c = '"' then skipText
    else if c = '[' then skipGroup false (parts false)
    else if c = '\x7b' then skipGroup true (parts true)
    else if c.isDigit then fun r => skipNumber (c :: r)
    else fun _ => .error .malformed

/-- Skips what stands behind a part of an object or array: the closing mark, or a comma and the parts
behind it, which are skipped by `others`. -/
def skipBehind (object : Bool) (others : Scan Unit) : Scan Unit :=
  andThen front fun c =>
    if c = ',' then others
    else if c = closing object then fun r => .ok ((), r)
    else fun _ => .error .malformed

/-- Skips the parts of an object or array, where a value is skipped by `value`, and the parts behind
a comma by `others`. -/
def skipPartsBy (object : Bool) (value others : Scan Unit) : Scan Unit :=
  andThen (if object then skipName else fun cs => .ok ((), cs)) fun _ =>
    andThen value fun _ => skipBehind object others

theorem skipGroup_eq (object : Bool) (parts : Scan Unit) (cs : List Char) :
    skipGroup object parts cs = match skipBlanks cs with
      | [] => .error .truncated
      | c :: r => if c = closing object then .ok ((), r) else parts (c :: r) := by
  unfold skipGroup
  cases h : skipBlanks cs with
  | nil => exact Scan.andThen_of_error (peek_of_nil h) _
  | cons c r =>
    rw [Scan.andThen_of_ok (peek_of_cons h)]
    by_cases hc : c = closing object
    · rw [if_pos hc]
      simp only [if_pos hc]
      rfl
    · rw [if_neg hc]
      simp only [if_neg hc]

theorem skipValueWith_succ (fuel : Nat) :
    skipValueWith (fuel + 1) = skipValueBy fun object => skipPartWith object fuel := by
  funext cs
  unfold skipValueBy
  rw [skipValueWith]
  split
  · next h => exact (Scan.andThen_of_error (front_of_nil h) _).symm
  · next h => rw [Scan.andThen_of_ok (front_of_cons h)]; rfl
  · next h => rw [Scan.andThen_of_ok (front_of_cons h)]; rfl
  · next h => rw [Scan.andThen_of_ok (front_of_cons h)]; rfl
  · next h => rw [Scan.andThen_of_ok (front_of_cons h)]; rfl
  · next h => rw [Scan.andThen_of_ok (front_of_cons h)]; rfl
  · next r h =>
    rw [Scan.andThen_of_ok (front_of_cons h)]
    show _ = skipGroup false (skipPartWith false fuel) r
    rw [skipGroup_eq]
    cases skipBlanks r with
    | nil => rfl
    | cons d r' => by_cases hd : d = ']' <;> simp [closing, hd]
  · next r h =>
    rw [Scan.andThen_of_ok (front_of_cons h)]
    show _ = skipGroup true (skipPartWith true fuel) r
    rw [skipGroup_eq]
    cases skipBlanks r with
    | nil => rfl
    | cons d r' => by_cases hd : d = '\x7d' <;> simp [closing, hd]
  · next c r hn ht hf hm hq hb ho h =>
    rw [Scan.andThen_of_ok (front_of_cons h)]
    simp only [if_neg hn, if_neg ht, if_neg hf, if_neg hm, if_neg hq, if_neg hb, if_neg ho]
    split <;> rfl

theorem skipBehind_eq (object : Bool) (others : Scan Unit) (cs : List Char) :
    skipBehind object others cs = match skipBlanks cs with
      | [] => .error .truncated
      | c :: r =>
        if c = ',' then others r else if c = closing object then .ok ((), r) else .error .malformed := by
  unfold skipBehind
  cases h : skipBlanks cs with
  | nil => exact Scan.andThen_of_error (front_of_nil h) _
  | cons c r =>
    rw [Scan.andThen_of_ok (front_of_cons h)]
    dsimp only
    split
    · rfl
    · split <;> rfl

theorem skipPartWith_succ (object : Bool) (fuel : Nat) : skipPartWith object (fuel + 1) =
    skipPartsBy object (skipValueWith fuel) (skipPartWith object fuel) := by
  funext cs
  unfold skipPartsBy
  rw [skipPartWith]
  cases object with
  | false =>
    show skipValueWith fuel cs >>= _ = skipValueWith fuel cs >>= _
    congr 1
    funext ⟨_, r⟩
    exact (skipBehind_eq false _ r).symm
  | true =>
    show skipName cs >>= _ = skipName cs >>= _
    congr 1
    funext ⟨_, r⟩
    show skipValueWith fuel r >>= _ = skipValueWith fuel r >>= _
    congr 1
    funext ⟨_, r'⟩
    exact (skipBehind_eq true _ r').symm

theorem skipGroup_local (object : Bool) {parts : Scan Unit} (h : Local 1 1 parts) :
    Local 1 1 (skipGroup object parts) := by
  refine peek_local.andThen (k := 1) (fun c => ?_) (Nat.le_refl 1)
  split
  · exact next_local.mapTo _
  · exact h

theorem skipValueBy_local {parts : Bool → Scan Unit} (h : ∀ object, Local 1 1 (parts object)) :
    Local 1 1 (skipValueBy parts) := by
  refine front_local.follow fun c => ?_
  split
  · exact (literal_local _ _).weaken
  split
  · exact (literal_local _ _).weaken
  split
  · exact (literal_local _ _).weaken
  split
  · exact skipNumber_local.weaken
  split
  · exact skipText_local.weaken
  split
  · exact (skipGroup_local false (h false)).weaken
  split
  · exact (skipGroup_local true (h true)).weaken
  split
  · exact skipNumber_local.cons c
  · exact .fail _ _ _

theorem skipPartsBy_local (object : Bool) {value others : Scan Unit} (h : Local 1 1 value)
    (ho : Local 1 1 others) : Local 1 1 (skipPartsBy object value others) := by
  have hname : Local 0 1 (if object then skipName else fun cs => .ok ((), cs)) := by
    split
    · exact skipName_local.weaken
    · exact .pure _ _
  have hpart : Local 1 1 (andThen value fun _ => skipBehind object others) := by
    refine h.follow fun _ => (front_local.follow fun c => ?_).weaken
    split
    · exact ho.weaken
    split
    · exact .pure _ _
    · exact .fail _ _ _
  exact hname.andThen (fun _ => hpart) (Nat.le_succ 1)

theorem skipGroup_congr (object : Bool) {parts parts' : Scan Unit} {cs : List Char}
    (h : ∀ r, r.length ≤ cs.length → parts r = parts' r) :
    skipGroup object parts cs = skipGroup object parts' cs := by
  refine Scan.andThen_congr fun c r hr => ?_
  split
  · rfl
  · exact h r (length_of_peek hr)

theorem skipValueBy_congr {parts parts' : Bool → Scan Unit} {cs : List Char}
    (h : ∀ object r, r.length < cs.length → parts object r = parts' object r) :
    skipValueBy parts cs = skipValueBy parts' cs := by
  refine Scan.andThen_congr fun c r hr => ?_
  have hlt : r.length < cs.length := front_local.takes hr
  have hgroup (object : Bool) :
      skipGroup object (parts object) r = skipGroup object (parts' object) r :=
    skipGroup_congr object fun r' hr' => h object r' (by omega)
  by_cases hb : c = '['
  · subst hb
    exact hgroup false
  by_cases ho : c = '\x7b'
  · subst ho
    exact hgroup true
  simp only [if_neg hb, if_neg ho]

theorem skipPartsBy_congr (object : Bool) {value value' others others' : Scan Unit} {cs : List Char}
    (hlocal : Local 1 1 value) (h : ∀ r, r.length ≤ cs.length → value r = value' r)
    (ho : ∀ r, r.length < cs.length → others r = others' r) :
    skipPartsBy object value others cs = skipPartsBy object value' others' cs := by
  refine Scan.andThen_congr fun _ r hr => ?_
  have hle : r.length ≤ cs.length := by
    cases object with
    | false =>
      cases hr
      exact Nat.le_refl _
    | true => exact Nat.le_of_succ_le (skipName_local.takes hr)
  have hrest : andThen value (fun _ => skipBehind object others) r =
      andThen value (fun _ => skipBehind object others') r := by
    refine Scan.andThen_congr fun _ r' hr' => Scan.andThen_congr fun c r'' hr'' => ?_
    have := hlocal.takes hr'
    have := front_local.takes hr''
    split
    · exact ho r'' (by omega)
    · rfl
  rw [hrest]
  unfold andThen
  rw [h r hle]

/-- What is skipped: a value, or the parts of an object or array. -/
inductive Skipped where
  | value
  | parts (object : Bool)

/-- Skips one or the other on fuel. -/
def skipWith (fuel : Nat) : Skipped → Scan Unit
  | .value => skipValueWith fuel
  | .parts object => skipPartWith object fuel

/-- A round of skipping. -/
def skipRound (s : Skipped → Scan Unit) : Skipped → Scan Unit
  | .value => skipValueBy fun object => s (.parts object)
  | .parts object => skipPartsBy object (s .value) (s (.parts object))

/-- How much there is to skip; parts begin with a value that is skipped after them. -/
def skipMeasure : Skipped → List Char → Nat
  | .value, cs => 2 * cs.length
  | .parts _, cs => 2 * cs.length + 1

theorem skipWith_local (fuel : Nat) (a : Skipped) : Local 1 1 (skipWith fuel a) := by
  induction fuel generalizing a with
  | zero => cases a <;> exact .fail _ _ _
  | succ fuel ih =>
    cases a with
    | value =>
      rw [skipWith, skipValueWith_succ]
      exact skipValueBy_local fun object => ih (.parts object)
    | parts object =>
      rw [skipWith, skipPartWith_succ]
      exact skipPartsBy_local object (ih .value) (ih (.parts object))

theorem skipWith_burns : Burns skipMeasure skipWith skipRound where
  round n := by
    funext a
    cases a with
    | value => exact skipValueWith_succ n
    | parts object => exact skipPartWith_succ object n
  shrinks {n s a cs} h := by
    cases a with
    | value =>
      show skipValueBy (fun object => skipWith n (.parts object)) cs =
        skipValueBy (fun object => s (.parts object)) cs
      refine skipValueBy_congr fun object r hr => h (.parts object) r ?_
      simp only [skipMeasure]
      omega
    | parts object =>
      refine skipPartsBy_congr object (skipWith_local n .value) (fun r hr => h .value r ?_)
        fun r hr => h (.parts object) r ?_
      · simp only [skipMeasure]
        omega
      · simp only [skipMeasure]
        omega
  grows a cs rest := by
    have : (cs ++ rest).length = cs.length + rest.length := List.length_append
    cases a <;> simp only [skipMeasure] <;> omega

/-- Skips the parts of an object or array. -/
def skipParts (object : Bool) : Scan Unit := fun cs => skipPartWith object (2 * cs.length + 2) cs

theorem skipValue_eq_skipWith :
    skipValue = fun cs => skipWith (skipMeasure .value cs + 1) .value cs := by
  funext cs
  exact skipWith_burns.eq_of_lt (a := .value) (by simp only [skipMeasure]; omega) (Nat.lt_succ_self _)

/-- What a value is, is told by its first character. -/
theorem skipValue_eq : skipValue = skipValueBy skipParts := by
  rw [skipValue_eq_skipWith]
  exact funext fun cs => skipWith_burns.unroll .value cs

/-- Parts are skipped one after another. -/
theorem skipParts_eq (object : Bool) :
    skipParts object = skipPartsBy object skipValue (skipParts object) := by
  rw [skipValue_eq_skipWith]
  exact funext fun cs => skipWith_burns.unroll (.parts object) cs

theorem skipValue_local : Local 1 1 skipValue := by
  rw [skipValue_eq_skipWith]
  exact skipWith_burns.scan_local skipWith_local .value

/-! ## Skipped items -/

theorem skipItemsWith_succ (fuel : Nat) : skipItemsWith (fuel + 1) =
    andThen (nextItem false) fun more =>
      if more then andThen skipValue fun _ => skipItemsWith fuel else fun r => .ok ((), r) := by
  funext cs
  show nextItem false cs >>= _ = nextItem false cs >>= _
  congr 1
  funext ⟨more, r⟩
  cases more <;> rfl

theorem skipItemsWith_local (fuel : Nat) : Local 0 0 (skipItemsWith fuel) := by
  induction fuel with
  | zero => exact .fail _ _ _
  | succ fuel ih =>
    rw [skipItemsWith_succ, nextItem_eq]
    refine (nextPart_local _ _ _).andThen (k := 0) (fun more => ?_) (Nat.le_refl 0)
    split
    · exact (skipValue_local.andThen (fun _ => ih) (Nat.zero_le _)).mono (Nat.zero_le _) (Nat.le_refl 0)
    · exact .pure _ _

theorem length_of_nextItem {first more : Bool} {cs r : List Char}
    (h : nextItem first cs = .ok (more, r)) : r.length ≤ cs.length := by
  rw [nextItem_eq] at h
  exact (nextPart_local _ _ _).takes h

theorem skipItems_burns : Burns (fun (_ : Unit) cs => cs.length) (fun n _ => skipItemsWith n)
    fun s _ => andThen (nextItem false) fun more =>
      if more then andThen skipValue fun _ => s () else fun r => .ok ((), r) where
  round n := funext fun _ => skipItemsWith_succ n
  shrinks h := Scan.andThen_congr fun more r hr => by
    split
    · refine Scan.andThen_congr fun _ r' hr' => h () r' ?_
      exact Nat.lt_of_lt_of_le (skipValue_local.takes hr') (length_of_nextItem hr)
    · rfl
  grows _ cs rest := by
    rw [List.length_append]
    omega

/-- Items are skipped until there are no more; that always comes to an end. -/
theorem skipItems_eq : skipItems = andThen (nextItem false) fun more =>
    if more then andThen skipValue fun _ => skipItems else fun r => .ok ((), r) :=
  funext fun cs => skipItems_burns.unroll () cs

theorem skipItems_local : Local 0 0 skipItems :=
  skipItems_burns.scan_local (fun n _ => skipItemsWith_local n) ()

end Refinement.Json
